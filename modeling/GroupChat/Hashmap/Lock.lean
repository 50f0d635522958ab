import GroupChat.Hashmap.Slots

/-!
# The lock and the counter of the registry

`hashmap_put` counts every put, also one that overwrites an entry, and on a full table it calls
itself with the lock held. So the registry keeps its lock free and its counter right exactly as
long as nobody logs in who is there already and nobody logs in when the table is full, unless
there is no memory to enlarge it.
-/

namespace GroupChat

open Probing Lts

variable {α : Type} {m m' : HashmapMap α} {call : RegistryCall α} {fuel : Nat}

/-- Apart from its own entry a put leaves the entries as they were. -/
def AddsOnly (m m' : HashmapMap α) : RegistryCall α → Prop
  | .put _ key value =>
    (∀ e ∈ entries m'.slots, e ∈ entries m.slots ∨ e = (key, value)) ∧
      ∀ e ∈ entries m.slots, e.1 ≠ key → e ∈ entries m'.slots
  | .remove _ | .get _ | .iterate => True

/-- The call returns with the lock free, has touched no entry of another user, and the counter
is the number of users. -/
def Completes (fuel : Nat) (m : HashmapMap α) (call : RegistryCall α) : Prop :=
  ∃ r m', registryStep fuel m call = .ok (r, m') ∧ m'.lock = false ∧ AddsOnly m m' call ∧
    m'.size = m'.users.card

/-- A put when the table is full finds no memory for a larger one, and any other one is of a
uid that is not in the table. -/
def PutsNew (m : HashmapMap α) : RegistryCall α → Prop
  | .put calloc key _ => if m.users.card = INITIAL_SIZE then calloc = false else key ∉ m.users
  | .remove _ | .get _ | .iterate => True

structure Counted (m : HashmapMap α) : Prop where
  unlocked : m.lock = false
  tableSize : m.tableSize = INITIAL_SIZE
  distinct : Distinct m.slots
  size : m.size = (entries m.slots).length

theorem counted_new : Counted (hashmapNew : HashmapMap α) := by
  refine ⟨rfl, rfl, ?_, ?_⟩
  · rw [HashmapMap.slots_new]
    exact distinct_empty
  · rw [HashmapMap.slots_new, entries_empty]
    rfl

namespace Counted

variable (counted : Counted m)
include counted

theorem card_users : m.size = m.users.card := by
  rw [HashmapMap.users, counted.distinct.card_keys]
  exact counted.size

theorem full_iff : m.users.card = INITIAL_SIZE ↔ m.size = m.tableSize := by
  rw [counted.card_users, counted.tableSize]
  exact Nat.cast_inj.symm

theorem room (hfull : m.users.card ≠ INITIAL_SIZE) : m.size < m.tableSize := by
  have hne : m.size ≠ m.tableSize := fun h => hfull (counted.full_iff.mpr h)
  have hle : (entries m.slots).length ≤ m.tableSize := by
    rw [length_entries]
    exact (Finset.card_le_univ _).trans (Fintype.card_fin _).le
  have hsize := counted.size
  omega

theorem write {i : Fin m.tableSize} {key : UInt64} (habsent : key ∉ m.users)
    (hplace : m.slots i = none ∨ holds m.slots key i = true) (value : AnyT α) (calloc : Bool) :
    Counted (m.set i key value) ∧ AddsOnly m (m.set i key value) (.put calloc key value) := by
  have hnone : ∀ j, holds m.slots key j ≠ true := fun j hj => habsent (mem_keys.mpr ⟨j, hj⟩)
  have honly : ∀ j, holds m.slots key j = true → j = i := fun j hj => absurd hj (hnone j)
  have hunused : m.slots i = none := hplace.resolve_right (hnone i)
  refine ⟨⟨counted.unlocked, counted.tableSize, ?_, ?_⟩, ?_, ?_⟩
  · rw [HashmapMap.slots_set]
    exact counted.distinct.write honly
  · rw [HashmapMap.entries_set, length_write_unused hunused]
    change m.size + 1 = _
    rw [counted.size]
    rfl
  · rintro ⟨key', value'⟩ he
    rw [HashmapMap.entries_set, mem_entries_write honly hplace] at he
    by_cases hkey : key' = key
    · rw [if_pos hkey] at he
      exact Or.inr (by rw [hkey, he])
    · rw [if_neg hkey] at he
      exact Or.inl he
  · rintro ⟨key', value'⟩ he hkey
    rw [HashmapMap.entries_set, mem_entries_write honly hplace, if_neg hkey]
    exact he

theorem clear {i : Fin m.tableSize} {key : UInt64} (hi : holds m.slots key i = true) :
    Counted (m.blank i) := by
  have hlength := length_clear (ne_none_of_holds hi)
  rw [← HashmapMap.entries_blank] at hlength
  have hsize := counted.size
  refine ⟨counted.unlocked, counted.tableSize, ?_, ?_⟩
  · rw [HashmapMap.slots_blank]
    exact counted.distinct.clear i
  · change m.size - 1 = _
    omega

theorem step (fuel : Nat) (hnew : PutsNew m call) :
    ∃ r m', registryStep (fuel + 1) m call = .ok (r, m') ∧ Counted m' ∧ AddsOnly m m' call := by
  have hcounted : (entries m.slots).length ≤ m.size := counted.size.ge
  cases call with
  | put calloc key value =>
      by_cases hfull : m.users.card = INITIAL_SIZE
      · rw [PutsNew, if_pos hfull] at hnew
        refine ⟨⟨MAP_OMEM, []⟩, m, ?_, counted, fun e he => Or.inl he, fun e he _ => he⟩
        rw [hnew]
        exact registryStep_omem (counted.full_iff.mp hfull) counted.unlocked
      · rw [PutsNew, if_neg hfull] at hnew
        obtain ⟨i, hplace, hstep⟩ := registryStep_put fuel counted.unlocked hcounted
          (counted.room hfull) calloc key value
        exact ⟨_, _, hstep, counted.write hnew (slot_of_place hplace) value calloc⟩
  | remove key =>
      by_cases hthere : ∃ i, holds m.slots key i = true
      · obtain ⟨i, hi⟩ := hthere
        exact ⟨_, _, registryStep_remove counted.unlocked counted.distinct hi, counted.clear hi,
          trivial⟩
      · push Not at hthere
        exact ⟨_, _, registryStep_remove_absent counted.unlocked
          (fun i => Bool.eq_false_iff.mpr (hthere i)), counted, trivial⟩
  | get key =>
      obtain ⟨r, hstep⟩ := registryStep_get (fuel + 1) counted.unlocked key
      exact ⟨r, m, hstep, counted, trivial⟩
  | iterate =>
      obtain ⟨r, hstep⟩ := registryStep_iterate (fuel + 1) counted.unlocked hcounted
      exact ⟨r, m, hstep, counted, trivial⟩

theorem completes_iff : Completes (fuel + 1) m call ↔ PutsNew m call := by
  constructor
  · rintro ⟨r, m', hstep, -, -, hsize⟩
    cases call with
    | put calloc key value =>
        rw [PutsNew]
        by_cases hfull : m.users.card = INITIAL_SIZE
        · rw [if_pos hfull, ← Bool.not_eq_true]
          rintro rfl
          rw [registryStep_full (counted.full_iff.mp hfull) counted.unlocked] at hstep
          cases hstep
        · rw [if_neg hfull]
          intro hthere
          obtain ⟨i, hplace, hstep'⟩ := registryStep_put fuel counted.unlocked
            counted.size.ge (counted.room hfull) calloc key value
          rw [hstep'] at hstep
          obtain ⟨-, rfl⟩ := Prod.mk.inj (Except.ok.inj hstep)
          have husers : (m.set i key value).users = m.users := by
            rw [HashmapMap.users, keys, HashmapMap.entries_set, ← keys,
              keys_write (slot_of_place hplace), ← HashmapMap.users,
              Finset.insert_eq_of_mem hthere]
          have hcard := counted.card_users
          change m.size + 1 = _ at hsize
          rw [husers] at hsize
          omega
    | remove key => exact trivial
    | get key => exact trivial
    | iterate => exact trivial
  · intro hnew
    obtain ⟨r, m', hstep, counted', hadds⟩ := counted.step fuel hnew
    exact ⟨r, m', hstep, counted'.unlocked, hadds, counted'.card_users⟩

end Counted

/-- Every call of a run completes exactly when every put is of a uid that is not in the table
and finds a free slot, or finds none and no memory either. -/
theorem registryCompletes_iff (fuel : Nat) (calls : List (RegistryCall α)) :
    Along (registryStep (fuel + 1)) hashmapNew calls (fun _ m call => Completes (fuel + 1) m call) ↔
      Along (registryStep (fuel + 1)) hashmapNew calls fun _ m call => PutsNew m call := by
  refine along_iff ?_ (fun h m call run (counted : Counted m) => counted.completes_iff) ?_ calls
  · exact counted_new
  · intro h m call r m' run counted hnew taken
    obtain ⟨r', m'', hstep, counted', -⟩ := counted.step fuel hnew
    rw [taken] at hstep
    obtain ⟨-, rfl⟩ := Prod.mk.inj (Except.ok.inj hstep)
    exact counted'

/-- Every put counts, whoever logs in: as many of them as the table has slots fill it. -/
theorem puts_fill (fuel : Nat) (calls : List (RegistryCall α))
    (hputs : ∀ call ∈ calls, call.isPut = true) (hlength : calls.length ≤ INITIAL_SIZE) :
    ∃ h m, Run (registryStep (fuel + 1)) hashmapNew h m ∧ events h = calls ∧ m.lock = false ∧
      m.tableSize = INITIAL_SIZE ∧ m.size = calls.length ∧
      (entries m.slots).length ≤ calls.length := by
  induction calls using List.reverseRecOn with
  | nil =>
      refine ⟨[], hashmapNew, .start, rfl, rfl, rfl, rfl, ?_⟩
      rw [HashmapMap.slots_new, entries_empty]
      exact le_refl _
  | append_singleton calls call ih =>
      rw [List.length_append, List.length_singleton] at hlength
      obtain ⟨h, m, run, hevents, hlock, htable, hsize, hentries⟩ :=
        ih (fun c hc => hputs c (List.mem_append_left _ hc)) (by omega)
      cases call with
      | put calloc key value =>
          obtain ⟨i, hplace, hstep⟩ := registryStep_put fuel hlock (by omega) (by omega)
            calloc key value
          refine ⟨_, _, run.next hstep, by rw [events_append, hevents], hlock, htable, ?_, ?_⟩
          · change m.size + 1 = _
            rw [hsize, List.length_append]
            rfl
          · rw [HashmapMap.entries_set, List.length_append, List.length_singleton]
            exact (length_write_le _).trans (Nat.succ_le_succ hentries)
      | remove key => exact absurd (hputs (.remove key) (by simp)) Bool.false_ne_true
      | get key => exact absurd (hputs (.get key) (by simp)) Bool.false_ne_true
      | iterate => exact absurd (hputs .iterate (by simp)) Bool.false_ne_true

/-- After one user has logged in 1024 times the next login never returns. -/
theorem repeat_logins_wedge : ¬ ∀ (fuel : Nat) (calls : List (RegistryCall Nat)),
    Along (registryStep (fuel + 1)) hashmapNew calls
      fun _ m call => Completes (fuel + 1) m call := by
  intro hall
  obtain ⟨h, m, run, hevents, hlock, htable, hsize, -⟩ :=
    puts_fill 0 (List.replicate INITIAL_SIZE (RegistryCall.put true 1 (some 7)))
      (fun call hcall => by rw [List.eq_of_mem_replicate hcall]; rfl) (List.length_replicate ..).le
  rw [List.length_replicate, ← htable] at hsize
  obtain ⟨r, m', hstep, -⟩ := hall 0 _ h m (.put true 1 (some 7)) run (List.prefix_refl _)
  rw [registryStep_full hsize hlock] at hstep
  cases hstep

end GroupChat
