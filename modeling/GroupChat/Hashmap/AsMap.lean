import GroupChat.Hashmap.Slots

/-!
# The registry as a map

`registered` is the map the calls of the server describe: a put registers its uid, a removal
takes it out. The hash map holds that map (`Faithful`) as long as no put comes to an unused
slot before the slot that has its uid: `hashmap_hash` stops there and the uid is in the table
twice. Such a slot is left by a removal.
-/

namespace GroupChat

open Probing Lts

variable {α : Type} {m : HashmapMap α} {calls : List (RegistryCall α)} {call : RegistryCall α}
  {fuel : Nat}

namespace RegistryCall

/-- What a call does to the map of the registered uids. -/
def apply (reg : UInt64 → Option (AnyT α)) : RegistryCall α → UInt64 → Option (AnyT α)
  | .put _ key value => Function.update reg key (some value)
  | .remove key => Function.update reg key none
  | .get _ | .iterate => reg

/-- A call that registers this uid or takes it out. -/
def Changes (key : UInt64) : RegistryCall α → Prop
  | .put _ key' _ | .remove key' => key' = key
  | .get _ | .iterate => False

end RegistryCall

/-- The uids registered after some calls, with the values of their last puts. -/
def registered (calls : List (RegistryCall α)) : UInt64 → Option (AnyT α) :=
  calls.foldl RegistryCall.apply fun _ => none

theorem registered_append (calls : List (RegistryCall α)) (call : RegistryCall α) :
    registered (calls ++ [call]) = call.apply (registered calls) := by
  rw [registered, List.foldl_append]
  rfl

theorem RegistryCall.apply_of_not_changes {reg : UInt64 → Option (AnyT α)} {key : UInt64}
    (h : ¬ call.Changes key) : call.apply reg key = reg key := by
  cases call with
  | put calloc key' value => exact Function.update_of_ne (fun h' => h h'.symm) ..
  | remove key' => exact Function.update_of_ne (fun h' => h h'.symm) ..
  | get key' => rfl
  | iterate => rfl

/-- So few puts that the table never grows. -/
def FewPuts (calls : List (RegistryCall α)) : Prop :=
  calls.countP RegistryCall.isPut < INITIAL_SIZE

theorem FewPuts.init (few : FewPuts (calls ++ [call])) : FewPuts calls :=
  ((List.prefix_append calls [call]).sublist.countP_le).trans_lt few

/-- The last item of a list is the one after which nothing comes, or comes after it. -/
theorem split_last {β : Type} {l before after : List β} {x y : β}
    (h : l ++ [y] = before ++ x :: after) :
    (after = [] ∧ y = x ∧ l = before) ∨ ∃ after', after = after' ++ [y] ∧ l = before ++ x :: after' := by
  obtain rfl | ⟨after, last, rfl⟩ := List.eq_nil_or_concat after
  · obtain ⟨hinit, hlast⟩ := List.append_inj' h rfl
    exact Or.inl ⟨rfl, List.singleton_injective hlast, hinit⟩
  · rw [List.concat_eq_append, ← List.cons_append, ← List.append_assoc] at h
    obtain ⟨hinit, hlast⟩ := List.append_inj' h rfl
    obtain rfl := List.singleton_injective hlast
    exact Or.inr ⟨after, List.concat_eq_append, hinit⟩

/-- A uid is registered with the value of a put that no later put or removal of it follows. -/
theorem registered_eq_some_iff {key : UInt64} {value : AnyT α} :
    registered calls key = some value ↔
      ∃ before calloc after, calls = before ++ .put calloc key value :: after ∧
        ∀ call ∈ after, ¬ call.Changes key := by
  induction calls using List.reverseRecOn with
  | nil =>
      apply iff_of_false
      · intro h
        cases h
      · rintro ⟨before, calloc, after, h, -⟩
        exact absurd h (by simp)
  | append_singleton calls call ih =>
      rw [registered_append]
      by_cases hcall : call.Changes key
      · constructor
        · intro h
          cases call with
          | put calloc key' value' =>
              obtain rfl : key' = key := hcall
              rw [RegistryCall.apply, Function.update_self, Option.some.injEq] at h
              subst h
              exact ⟨calls, calloc, [], rfl, fun call hmem => absurd hmem List.not_mem_nil⟩
          | remove key' =>
              obtain rfl : key' = key := hcall
              rw [RegistryCall.apply, Function.update_self] at h
              cases h
          | get key' => exact absurd hcall id
          | iterate => exact absurd hcall id
        · rintro ⟨before, calloc, after, h, hafter⟩
          obtain ⟨-, rfl, -⟩ | ⟨after', rfl, -⟩ := split_last h
          · exact Function.update_self ..
          · exact absurd hcall (hafter call (List.mem_append_right _ List.mem_cons_self))
      · rw [RegistryCall.apply_of_not_changes hcall, ih]
        constructor
        · rintro ⟨before, calloc, after, rfl, hafter⟩
          refine ⟨before, calloc, after ++ [call], by simp, fun c hmem => ?_⟩
          obtain hmem | hmem := List.mem_append.mp hmem
          · exact hafter c hmem
          · obtain rfl := List.mem_singleton.mp hmem
            exact hcall
        · rintro ⟨before, calloc, after, h, hafter⟩
          obtain ⟨-, rfl, -⟩ | ⟨after', rfl, hcalls⟩ := split_last h
          · exact absurd rfl hcall
          · exact ⟨before, calloc, after', hcalls,
              fun c hmem => hafter c (List.mem_append_left _ hmem)⟩

/-- The hash map answers like this map: `hashmap_get` finds the value of a uid or reports that
there is none, and `hashmap_iterate` visits every uid of the map once. -/
structure AsMap (m : HashmapMap α) (reg : UInt64 → Option (AnyT α)) : Prop where
  get : ∀ key, ∃ m', hashmapGet m key =
    some ((lookupResult (reg key)).1, (lookupResult (reg key)).2, m')
  iterate : ∃ (status : Int) (m' : HashmapMap α) (uids : List UInt64), uids.Nodup ∧
    (∀ uid, uid ∈ uids ↔ (reg uid).isSome) ∧
    hashmapIterate m recordWalk [] = some (status, uids.filterMap reg, m')

/-- The hash map holds the registered uids, each in one slot, and its counter is between their
number and that of the puts. -/
structure Faithful (calls : List (RegistryCall α)) (m : HashmapMap α) : Prop where
  unlocked : m.lock = false
  tableSize : m.tableSize = INITIAL_SIZE
  distinct : Distinct m.slots
  registered : ∀ key value,
    (key, value) ∈ entries m.slots ↔ registered calls key = some value
  counted : (entries m.slots).length ≤ m.size
  bounded : m.size ≤ calls.countP RegistryCall.isPut

/-- A put does not come to an unused slot before the slot that has its uid. -/
def MeetsNoGap (m : HashmapMap α) : RegistryCall α → Prop
  | .put _ key _ => NoGap m.hash m.slots key
  | .remove _ | .get _ | .iterate => True

theorem faithful_new : Faithful ([] : List (RegistryCall α)) hashmapNew := by
  have hempty : entries (hashmapNew : HashmapMap α).slots = [] := by
    rw [HashmapMap.slots_new, entries_empty]
  refine ⟨rfl, rfl, ?_, ?_, ?_, ?_⟩
  · rw [HashmapMap.slots_new]
    exact distinct_empty
  · intro key value
    rw [hempty]
    exact iff_of_false List.not_mem_nil (fun h => by cases h)
  · rw [hempty]
    exact le_refl _
  · exact le_refl _

namespace Faithful

variable (faithful : Faithful calls m)
include faithful

theorem holds_iff_registered {key : UInt64} :
    (∃ i, holds m.slots key i = true) ↔ (GroupChat.registered calls key).isSome := by
  rw [Option.isSome_iff_exists]
  constructor
  · rintro ⟨i, hi⟩
    obtain ⟨value, hvalue⟩ := holds_iff.mp hi
    exact ⟨value, (faithful.registered key value).mp (mem_entries.mpr ⟨i, hvalue⟩)⟩
  · rintro ⟨value, hvalue⟩
    obtain ⟨i, hi⟩ := mem_entries.mp ((faithful.registered key value).mpr hvalue)
    exact ⟨i, holds_iff.mpr ⟨value, hi⟩⟩

theorem asMap : AsMap m (GroupChat.registered calls) := by
  constructor
  · intro key
    refine ⟨m, ?_⟩
    rw [hashmapGet_eq faithful.unlocked]
    cases hfind : find m.hash m.slots key with
    | none =>
        have habsent : GroupChat.registered calls key = none := by
          rw [← Option.not_isSome_iff_eq_none, ← faithful.holds_iff_registered]
          rintro ⟨i, hi⟩
          rw [find_eq_none_iff.mp hfind i] at hi
          cases hi
        rw [habsent]
        rfl
    | some i =>
        obtain ⟨value, hvalue⟩ := holds_iff.mp ((find_eq_some_iff faithful.distinct).mp hfind)
        have hreg := (faithful.registered key value).mp (mem_entries.mpr ⟨i, hvalue⟩)
        rw [hreg, Option.map_some, HashmapMap.data_of_slots hvalue]
  · obtain ⟨status, hvisit⟩ := hashmapIterate_eq faithful.unlocked faithful.counted
    refine ⟨status, m, (entries m.slots).map Prod.fst, nodup_keys_iff.mpr faithful.distinct,
      fun uid => ?_, ?_⟩
    · rw [← faithful.holds_iff_registered, ← mem_keys, keys, List.mem_toFinset]
    · have hvalues : ((entries m.slots).map Prod.fst).filterMap (GroupChat.registered calls) =
          (entries m.slots).map Prod.snd := by
        rw [List.filterMap_map, ← List.filterMap_eq_map]
        apply List.filterMap_congr
        intro e he
        exact (faithful.registered e.1 e.2).mp he
      rw [hvisit, hvalues]

/-- A put of a uid whose slot is the one `place` leads to, or that has none. -/
theorem write {i : Fin m.tableSize} {key : UInt64} {value : AnyT α} {calloc : Bool}
    (hplace : m.slots i = none ∨ holds m.slots key i = true)
    (honly : ∀ j, holds m.slots key j = true → j = i) :
    Faithful (calls ++ [.put calloc key value]) (m.set i key value) := by
  have hputs : (calls ++ [RegistryCall.put calloc key value]).countP RegistryCall.isPut =
      calls.countP RegistryCall.isPut + 1 := by
    rw [List.countP_append]
    rfl
  have hcounted := faithful.counted
  have hbounded := faithful.bounded
  have hlength : (entries (m.set i key value).slots).length ≤ (entries m.slots).length + 1 := by
    rw [HashmapMap.entries_set]
    exact length_write_le _
  refine ⟨faithful.unlocked, faithful.tableSize, ?_, ?_, ?_, ?_⟩
  · rw [HashmapMap.slots_set]
    exact faithful.distinct.write honly
  · intro key' value'
    rw [HashmapMap.entries_set, mem_entries_write honly hplace, registered_append,
      RegistryCall.apply]
    by_cases hkey : key' = key
    · rw [if_pos hkey, hkey, Function.update_self, Option.some.injEq, eq_comm]
    · rw [if_neg hkey, Function.update_of_ne hkey, faithful.registered]
  · change _ ≤ m.size + 1
    omega
  · change m.size + 1 ≤ _
    omega

theorem clear {i : Fin m.tableSize} {key : UInt64} (hi : holds m.slots key i = true) :
    Faithful (calls ++ [.remove key]) (m.blank i) := by
  have hputs : (calls ++ [RegistryCall.remove key]).countP RegistryCall.isPut =
      calls.countP (α := RegistryCall α) RegistryCall.isPut := by
    rw [List.countP_append]
    rfl
  have hcounted := faithful.counted
  have hbounded := faithful.bounded
  have hlength := length_clear (ne_none_of_holds hi)
  rw [← HashmapMap.entries_blank] at hlength
  refine ⟨faithful.unlocked, faithful.tableSize, ?_, ?_, ?_, ?_⟩
  · rw [HashmapMap.slots_blank]
    exact faithful.distinct.clear i
  · intro key' value'
    rw [HashmapMap.entries_blank, mem_entries_clear faithful.distinct hi, registered_append,
      RegistryCall.apply]
    by_cases hkey : key' = key
    · rw [hkey, Function.update_self]
      exact iff_of_false (fun h => h.1 rfl) (fun h => by cases h)
    · rw [Function.update_of_ne hkey, faithful.registered]
      exact and_iff_right hkey
  · change _ ≤ m.size - 1
    omega
  · change m.size - 1 ≤ _
    omega

/-- A call that writes nothing. -/
theorem keep (hput : call.isPut = false)
    (happly : call.apply (GroupChat.registered calls) = GroupChat.registered calls) :
    Faithful (calls ++ [call]) m := by
  refine ⟨faithful.unlocked, faithful.tableSize, faithful.distinct, ?_, faithful.counted, ?_⟩
  · rw [registered_append, happly]
    exact faithful.registered
  · rw [List.countP_append, List.countP_singleton, hput]
    exact faithful.bounded

/-- Before the 1024th put the table has room. -/
theorem room {calloc : Bool} {key : UInt64} {value : AnyT α}
    (few : FewPuts (calls ++ [.put calloc key value])) : m.size < m.tableSize := by
  have hbounded := faithful.bounded
  have hsize := faithful.tableSize
  rw [FewPuts, List.countP_append] at few
  omega

/-- A call that meets no gap returns and leaves the hash map with what is registered then. -/
theorem step (fuel : Nat) (few : FewPuts (calls ++ [call])) (hgap : MeetsNoGap m call) :
    ∃ r m', registryStep (fuel + 1) m call = .ok (r, m') ∧ Faithful (calls ++ [call]) m' := by
  cases call with
  | put calloc key value =>
      obtain ⟨i, hplace, hstep⟩ := registryStep_put fuel faithful.unlocked
        faithful.counted (faithful.room few) calloc key value
      refine ⟨_, _, hstep, faithful.write (slot_of_place hplace) ?_⟩
      intro j hj
      rw [place_noGap faithful.distinct hj hgap] at hplace
      exact Option.some.inj hplace
  | remove key =>
      by_cases hthere : ∃ i, holds m.slots key i = true
      · obtain ⟨i, hi⟩ := hthere
        exact ⟨_, _, registryStep_remove faithful.unlocked faithful.distinct hi, faithful.clear hi⟩
      · have habsent : GroupChat.registered calls key = none := by
          rw [← Option.not_isSome_iff_eq_none, ← faithful.holds_iff_registered]
          exact hthere
        push Not at hthere
        refine ⟨_, _, registryStep_remove_absent faithful.unlocked
          (fun i => Bool.eq_false_iff.mpr (hthere i)), faithful.keep rfl ?_⟩
        rw [RegistryCall.apply, ← habsent, Function.update_eq_self]
  | get key =>
      obtain ⟨r, hstep⟩ := registryStep_get (fuel + 1) faithful.unlocked key
      exact ⟨r, m, hstep, faithful.keep rfl rfl⟩
  | iterate =>
      obtain ⟨r, hstep⟩ := registryStep_iterate (fuel + 1) faithful.unlocked faithful.counted
      exact ⟨r, m, hstep, faithful.keep rfl rfl⟩

end Faithful

/-- Calls that meet no gap have a run, and it ends with what is registered. -/
theorem exists_faithful (few : FewPuts calls)
    (hgap : Along (registryStep (fuel + 1)) hashmapNew calls fun _ m call => MeetsNoGap m call) :
    ∃ h m, Run (registryStep (fuel + 1)) hashmapNew h m ∧ events h = calls ∧ Faithful calls m := by
  induction calls using List.reverseRecOn with
  | nil => exact ⟨[], hashmapNew, .start, rfl, faithful_new⟩
  | append_singleton calls call ih =>
      obtain ⟨h, m, run, hevents, faithful⟩ := ih few.init
        (fun h m c run hinit => hgap h m c run (hinit.trans (List.prefix_append _ _)))
      have hnext := hgap h m call run (by rw [hevents])
      obtain ⟨r, m', hstep, faithful'⟩ := faithful.step fuel few hnext
      exact ⟨_, m', run.next hstep, by rw [events_append, hevents], faithful'⟩

/-- A hash map that visits each registered uid once has each in one slot. -/
theorem AsMap.distinct {reg : UInt64 → Option (AnyT α)} (asMap : AsMap m reg)
    (hlock : m.lock = false) (hcounted : (entries m.slots).length ≤ m.size)
    (husers : ∀ uid, uid ∈ m.users ↔ (reg uid).isSome) : Distinct m.slots := by
  obtain ⟨status, m', uids, hnodup, huids, hvisit⟩ := asMap.iterate
  obtain ⟨status', hvisit'⟩ := hashmapIterate_eq hlock hcounted
  have hdata : (entries m.slots).map Prod.snd = uids.filterMap reg := by
    rw [hvisit] at hvisit'
    exact (congrArg (fun r => r.2.1) (Option.some.inj hvisit')).symm
  have hset : uids.toFinset = m.users := by
    ext uid
    rw [List.mem_toFinset, huids, husers]
  have hall : (uids.filterMap reg).length = uids.length := by
    rw [List.length_filterMap_eq_countP, List.countP_eq_length]
    exact fun uid huid => (huids uid).mp huid
  have hcard : m.users.card = (entries m.slots).length := by
    rw [← hset, List.toFinset_card_of_nodup hnodup, ← hall, ← hdata, List.length_map]
  rw [← nodup_keys_iff, ← Multiset.coe_nodup, ← Multiset.toFinset_card_eq_card_iff_nodup,
    Multiset.coe_card, List.length_map]
  exact hcard

/-- The next call returns and the hash map is then the map of the registered uids. -/
def ActsAsMap (fuel : Nat)
    (h : List (Lts.Taken (HashmapMap α) (RegistryCall α) (RegistryResult α))) (m : HashmapMap α)
    (call : RegistryCall α) : Prop :=
  ∃ r m', registryStep fuel m call = .ok (r, m') ∧ AsMap m' (registered (events h ++ [call]))

theorem actsAsMap_iff {h : List (Lts.Taken (HashmapMap α) (RegistryCall α) (RegistryResult α))}
    (faithful : Faithful (events h) m)
    (few : FewPuts (events h ++ [call])) : ActsAsMap (fuel + 1) h m call ↔ MeetsNoGap m call := by
  constructor
  · rintro ⟨r, m', hstep, asMap⟩
    cases call with
    | put calloc key value =>
        by_contra hgap
        obtain ⟨i, hplace, hstep'⟩ := registryStep_put fuel faithful.unlocked
          faithful.counted (faithful.room few) calloc key value
        rw [hstep'] at hstep
        obtain ⟨-, rfl⟩ := Prod.mk.inj (Except.ok.inj hstep)
        obtain ⟨i', hplace', hunused⟩ := place_gap faithful.distinct hgap
        obtain rfl : i = i' := Option.some.inj (hplace.symm.trans hplace')
        obtain ⟨p, hp⟩ : ∃ p, holds m.slots key p = true := by
          by_contra hnone
          exact hgap fun p hp => absurd ⟨p, hp⟩ hnone
        apply not_distinct_write (v := value) hp hunused
        rw [← HashmapMap.slots_set]
        apply asMap.distinct faithful.unlocked
        · have hcounted := faithful.counted
          rw [HashmapMap.entries_set, length_write_unused hunused]
          change _ ≤ m.size + 1
          omega
        · intro uid
          rw [HashmapMap.users, keys, HashmapMap.entries_set, ← keys,
            keys_write (Or.inl hunused), Finset.mem_insert, mem_keys,
            faithful.holds_iff_registered, registered_append, RegistryCall.apply]
          by_cases huid : uid = key
          · rw [huid, Function.update_self]
            exact iff_of_true (Or.inl rfl) rfl
          · rw [Function.update_of_ne huid]
            exact or_iff_right huid
    | remove key => exact trivial
    | get key => exact trivial
    | iterate => exact trivial
  · intro hgap
    obtain ⟨r, m', hstep, faithful'⟩ := faithful.step fuel few hgap
    exact ⟨r, m', hstep, faithful'.asMap⟩

/-- The registry is the map of the registered uids after every call exactly when no put of a
uid that is in the table comes to an unused slot before it. -/
theorem registryIsMap_iff (fuel : Nat) (calls : List (RegistryCall α))
    (few : FewPuts calls) :
    Along (registryStep (fuel + 1)) hashmapNew calls (ActsAsMap (fuel + 1)) ↔
      Along (registryStep (fuel + 1)) hashmapNew calls fun _ m call => MeetsNoGap m call := by
  have hlater : ∀ {h : List (Lts.Taken (HashmapMap α) (RegistryCall α) (RegistryResult α))} {call},
      events h ++ [call] <+: calls → FewPuts (events h ++ [call]) :=
    fun hprefix => hprefix.sublist.countP_le.trans_lt few
  calc Along (registryStep (fuel + 1)) hashmapNew calls (ActsAsMap (fuel + 1))
    _ ↔ Along (registryStep (fuel + 1)) hashmapNew calls fun h m call =>
          FewPuts (events h ++ [call]) → ActsAsMap (fuel + 1) h m call :=
        along_congr fun h m call hprefix => (imp_iff_right (hlater hprefix)).symm
    _ ↔ Along (registryStep (fuel + 1)) hashmapNew calls fun h m call =>
          FewPuts (events h ++ [call]) → MeetsNoGap m call := by
        refine along_iff ?_ (fun h m call run (hinv : FewPuts (events h) → Faithful (events h) m) =>
          forall_congr' fun hfew => actsAsMap_iff (hinv hfew.init) hfew) ?_ calls
        · exact fun _ => faithful_new
        · intro h m call r m' run hinv hgap taken hfew
          rw [events_append] at hfew ⊢
          obtain ⟨r', m'', hstep, faithful'⟩ := (hinv hfew.init).step fuel hfew (hgap hfew)
          rw [taken] at hstep
          obtain ⟨-, rfl⟩ := Prod.mk.inj (Except.ok.inj hstep)
          exact faithful'
    _ ↔ Along (registryStep (fuel + 1)) hashmapNew calls fun _ m call => MeetsNoGap m call :=
        along_congr fun h m call hprefix => imp_iff_right (hlater hprefix)

theorem registryIsMap_iff_login :
    Along (registryStep 1) hashmapNew [.put true 8 (some 1), .remove 8, .put true 8 (some 2)]
        (ActsAsMap 1) ↔
      Along (registryStep 1) hashmapNew [.put true 8 (some 1), .remove 8, .put true 8 (some 2)]
        fun _ m call => MeetsNoGap m call :=
  registryIsMap_iff 0 [.put true 8 (some 1), .remove 8, .put true 8 (some 2)]
    (by unfold FewPuts; decide)

/-- Users 8 and 57 have the same first slot. User 57 logs in behind user 8, user 8 leaves and
user 57 logs in again, into the slot that is free now. -/
theorem login_past_gap : ¬ ∀ calls : List (RegistryCall Nat), FewPuts calls →
    Along (registryStep 1) hashmapNew calls (ActsAsMap 1) := by
  intro hall
  have hrun : returns (execute (registryStep 1)
      [.put true 8 (some 1), .put true 57 (some 2), .remove 8] [] hashmapNew) (fun r =>
        returns (registryStep 1 r.2 (.put true 57 (some 3))) fun r' =>
          (hashmapIterate r'.2 recordWalk []).map (fun v => v.2.1) =
            some [some 3, some 2]) = true := by
    decide +kernel
  obtain ⟨⟨h, m⟩, hexec, hlast⟩ := exists_of_returns hrun
  obtain ⟨run, hevents⟩ := Run.start.of_execute hexec
  obtain ⟨⟨r, m'⟩, hstep, hvisit⟩ := exists_of_returns hlast
  have hacts := hall [.put true 8 (some 1), .put true 57 (some 2), .remove 8, .put true 57 (some 3)]
    (by unfold FewPuts; decide) h m (.put true 57 (some 3)) run
    (by rw [hevents]; exact List.prefix_refl _)
  obtain ⟨r', m'', hstep', asMap⟩ := hacts
  rw [hstep] at hstep'
  obtain ⟨-, rfl⟩ := Prod.mk.inj (Except.ok.inj hstep')
  obtain ⟨status, _, uids, hnodup, huids, hiterate⟩ := asMap.iterate
  rw [hiterate, decide_eq_true_iff] at hvisit
  have hdata : uids.filterMap (registered (events h ++ [.put true 57 (some 3)])) =
      [some 3, some 2] := Option.some.inj hvisit
  have hold : some 2 ∈ uids.filterMap (registered (events h ++ [.put true 57 (some 3)])) := by
    rw [hdata]
    exact List.mem_cons_of_mem _ List.mem_cons_self
  obtain ⟨uid, -, hreg⟩ := List.mem_filterMap.mp hold
  rw [registered_append, RegistryCall.apply] at hreg
  by_cases huid : uid = 57
  · rw [huid, Function.update_self] at hreg
    cases hreg
  · rw [Function.update_of_ne huid, hevents] at hreg
    simp [registered, RegistryCall.apply, Function.update_apply, huid] at hreg

end GroupChat
