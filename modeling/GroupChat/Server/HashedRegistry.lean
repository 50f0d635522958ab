import GroupChat.Hashmap.Lock
import GroupChat.Server.ActiveSockets

/-!
# The registry in its hash map

As long as nobody logs in who is online already, and fewer than 1024 users are online at a login,
the hash map does for the server what the finite map of `Server` does, however long the run and
wherever the removals leave gaps: every call returns, lookups and iterations find who is online, and
the counter is their number (`registry_hashed`). A login of a user who is online already spoils the
counter, and the table too if it comes to a gap.
-/

namespace GroupChat

open Posix Probing

/-! ## Puts of new keys -/

section Hashmap

variable {α : Type} {m : HashmapMap α} {calls : List (RegistryCall α)} {call : RegistryCall α}

/-- A put is of a key that is not in the table, and the table is not full. -/
def FitsNew (m : HashmapMap α) : RegistryCall α → Prop
  | .put _ key _ => key ∉ m.users ∧ m.users.card ≠ INITIAL_SIZE
  | .remove _ | .get _ | .iterate => True

/-- The table keeps the registered keys and the counter their number. -/
theorem Faithful.fits_step (faithful : Faithful calls m) (counted : Counted m) (fuel : Nat)
    (hnew : FitsNew m call) :
    ∃ r m', registryStep (fuel + 1) m call = .ok (r, m') ∧ Faithful (calls ++ [call]) m' ∧
      Counted m' := by
  cases call with
  | put calloc key value =>
      obtain ⟨i, hplace, hstep⟩ := registryStep_put fuel counted.unlocked counted.size.ge
        (counted.room hnew.2) calloc key value
      have honly : ∀ j, holds m.slots key j = true → j = i := fun j hj =>
        absurd (mem_keys.mpr ⟨j, hj⟩) hnew.1
      have hslot := slot_of_place hplace
      exact ⟨_, _, hstep, faithful.write hslot honly, (counted.write hnew.1 hslot value calloc).1⟩
  | remove key =>
      by_cases hthere : ∃ i, holds m.slots key i = true
      · obtain ⟨i, hi⟩ := hthere
        exact ⟨_, _, registryStep_remove counted.unlocked counted.distinct hi, faithful.clear hi,
          counted.clear hi⟩
      · have habsent : GroupChat.registered calls key = none := by
          rw [← Option.not_isSome_iff_eq_none, ← faithful.holds_iff_registered]
          exact hthere
        push Not at hthere
        refine ⟨_, _, registryStep_remove_absent counted.unlocked
          (fun i => Bool.eq_false_iff.mpr (hthere i)), faithful.keep rfl ?_, counted⟩
        rw [RegistryCall.apply, ← habsent, Function.update_eq_self]
  | get key =>
      obtain ⟨r, hstep⟩ := registryStep_get (fuel + 1) counted.unlocked key
      exact ⟨r, m, hstep, faithful.keep rfl rfl, counted⟩
  | iterate =>
      obtain ⟨r, hstep⟩ := registryStep_iterate (fuel + 1) counted.unlocked counted.size.ge
      exact ⟨r, m, hstep, faithful.keep rfl rfl, counted⟩

end Hashmap

/-! ## Runs of the server -/

/-- Whoever logs in is not online, and fewer than 1024 users are. -/
def LogsInFresh (x : Taken) : Prop :=
  ∀ c k, (c, k) ∈ loginOf x → x.pre.activeSockets.lookup k.toNat = none ∧
    x.pre.activeSockets.keys.length < INITIAL_SIZE

/-- The hash map that the calls of the run lead to. -/
structure RegistryHashed (fuel : Nat) (h : List Taken) (s : Server) : Prop where
  hashed : (∀ x ∈ h, LogsInFresh x) → ∃ h' m,
    Lts.Run (registryStep fuel) hashmapNew h' m ∧ Lts.events h' = registryCalls h ∧ m.lock = false ∧
      AsMap m (fun key => (s.activeSockets.lookup key.toNat).map some) ∧
      hashmapLength m = s.activeSockets.keys.length

section Runs

variable {credential : CredentialFile} {disk : Disk}
  {h : List Taken} {s : Server} {fuel : Nat} {m : HashmapMap ConnId}

/-- Account numbers are of type `int`. -/
theorem key_lt_of_run (run : Lts.Run step (Server.start credential disk) h s) :
    ∀ key, (s.activeSockets.lookup key).isSome → key < 2 ^ 31 := by
  induction run with
  | start => exact fun key hkey => (nomatch hkey)
  | @next h s s' e sent run taken ih =>
      intro key hkey
      cases e with
      | accept =>
          obtain ⟨-, rfl⟩ := step_accept taken
          exact ih key hkey
      | received c recv heap =>
          obtain ⟨-, outcome⟩ := step_received taken
          obtain ⟨k, hlogin, hsockets, -⟩ | ⟨-, same⟩ := outcome.sessions
          · rw [hsockets] at hkey
            by_cases hk : key = k.toNat
            · have hpos := loginResult_pos hlogin
              have hlt := loginResult_lt hlogin
              omega
            · rw [AList.lookup_insert_ne hk] at hkey
              exact ih key hkey
          · rw [same.activeSockets] at hkey
            exact ih key hkey
      | closed c =>
          obtain ⟨me, hme, -, rfl⟩ := step_closed taken
          rw [lookup_closed] at hkey
          split at hkey
          · cases hkey
          · exact ih key hkey

/-- A key is in the table if its user is online. -/
theorem mem_users_of_run (run : Lts.Run step (Server.start credential disk) h s)
    (faithful : Faithful (registryCalls h) m) (key : UInt64) :
    key ∈ m.users ↔ (s.activeSockets.lookup key.toNat).isSome := by
  have hregistered := @Faithful.holds_iff_registered _ _ _ faithful key
  rw [registered_registryCalls run key, Option.isSome_map] at hregistered
  exact mem_keys.trans hregistered

/-- There are as many users in the table as are online. -/
theorem card_users_of_run (run : Lts.Run step (Server.start credential disk) h s)
    (faithful : Faithful (registryCalls h) m) : m.users.card = s.activeSockets.keys.length := by
  have himage : m.users.image UInt64.toNat = s.activeSockets.keys.toFinset := by
    ext key
    rw [Finset.mem_image, List.mem_toFinset, ← AList.mem_keys, ← AList.lookup_isSome]
    constructor
    · rintro ⟨uid, huid, rfl⟩
      exact (mem_users_of_run run faithful uid).mp huid
    · intro hkey
      have hlt := key_lt_of_run run key hkey
      have hnat : (UInt64.ofNat key).toNat = key := by
        rw [UInt64.toNat_ofNat', Nat.mod_eq_of_lt (by omega)]
      refine ⟨UInt64.ofNat key, (mem_users_of_run run faithful _).mpr ?_, hnat⟩
      rw [hnat]
      exact hkey
  have hinjective : Function.Injective UInt64.toNat := fun a b h => UInt64.toNat_inj.mp h
  rw [← Finset.card_image_of_injective _ hinjective, himage,
    List.toFinset_card_of_nodup s.activeSockets.keys_nodup]

/-- The calls of a step. -/
theorem registryCallsOf_cases (x : Taken) :
    registryCallsOf x = [] ∨
      (∃ c k, loginOf x = some (c, k) ∧ 0 < k ∧ k < 2 ^ 31 ∧
        registryCallsOf x = [.put true (UInt64.ofInt k) (some c)]) ∨
      ∃ uid, registryCallsOf x = [.remove uid] := by
  obtain ⟨s, e, sent, s'⟩ := x
  cases e with
  | accept => exact Or.inl rfl
  | received c recv heap =>
      cases hlogin : loginResult s recv.toMainhdr with
      | none =>
          left
          rw [registryCallsOf]
          dsimp only
          rw [hlogin]
      | some k =>
          right
          left
          refine ⟨c, k, loginOf_of_some hlogin, loginResult_pos hlogin, loginResult_lt hlogin, ?_⟩
          rw [registryCallsOf]
          dsimp only
          rw [hlogin]
  | closed c =>
      rw [registryCallsOf]
      dsimp only
      split
      · split
        · exact Or.inr (Or.inr ⟨_, rfl⟩)
        · exact Or.inl rfl
      · exact Or.inl rfl

theorem hashed_of_run (fuel : Nat) (run : Lts.Run step (Server.start credential disk) h s)
    (hfresh : ∀ x ∈ h, LogsInFresh x) :
    ∃ h' m, Lts.Run (registryStep (fuel + 1)) hashmapNew h' m ∧ Lts.events h' = registryCalls h ∧
      Faithful (registryCalls h) m ∧ Counted m := by
  induction run with
  | start => exact ⟨[], hashmapNew, .start, rfl, faithful_new, counted_new⟩
  | @next h s s' e sent run taken ih =>
      obtain ⟨h', m, run', hevents, faithful, counted⟩ :=
        ih fun x hx => hfresh x (List.mem_append_left _ hx)
      have hlast := hfresh _ (List.mem_append_right _ List.mem_cons_self)
      -- one more call
      have hcall : ∀ call, registryCallsOf ⟨s, e, sent, s'⟩ = [call] → FitsNew m call →
          ∃ h' m, Lts.Run (registryStep (fuel + 1)) hashmapNew h' m ∧
            Lts.events h' = registryCalls (h ++ [⟨s, e, sent, s'⟩]) ∧
            Faithful (registryCalls (h ++ [⟨s, e, sent, s'⟩])) m ∧ Counted m := by
        intro call hone hnew
        obtain ⟨r, m', hstep, faithful', counted'⟩ := faithful.fits_step counted fuel hnew
        rw [registryCalls_append, hone]
        exact ⟨_, m', run'.next hstep, by rw [Lts.events_append, hevents], faithful', counted'⟩
      rcases registryCallsOf_cases ⟨s, e, sent, s'⟩ with
        hnone | ⟨c, k, hlogin, hpos, hlt, hone⟩ | ⟨uid, hone⟩
      · rw [registryCalls_append, hnone, List.append_nil]
        exact ⟨h', m, run', hevents, faithful, counted⟩
      · obtain ⟨habsent, hroom⟩ := hlast c k hlogin
        refine hcall _ hone ⟨?_, ?_⟩
        · rw [mem_users_of_run run faithful, toNat_key hpos hlt]
          dsimp only at habsent
          rw [habsent]
          exact Bool.false_ne_true
        · rw [card_users_of_run run faithful]
          exact hroom.ne
      · exact hcall _ hone trivial

/-- In every run of the server whose logins are all of users who are not online, with room for them,
the hash map is the registry. -/
theorem registry_hashed (fuel : Nat) (credential : CredentialFile) (disk : Disk) (es : List Event) :
    Lts.Throughout step (Server.start credential disk) es (RegistryHashed (fuel + 1)) := by
  intro h s run _
  constructor
  intro hfresh
  obtain ⟨h', m, run', hevents, faithful, counted⟩ := hashed_of_run fuel run hfresh
  have hmap : registered (registryCalls h) =
      fun key : UInt64 => (s.activeSockets.lookup key.toNat).map some :=
    funext (registered_registryCalls run)
  refine ⟨h', m, run', hevents, counted.unlocked, hmap ▸ faithful.asMap, ?_⟩
  rw [hashmapLength, counted.card_users, card_users_of_run run faithful]

end Runs

end GroupChat
