import GroupChat.Hashmap.AsMap
import GroupChat.Server.Registry

/-!
# The registry and its hash map

The server's `active_sockets` is a finite map here and a hash map in the source. `registryCalls`
are the calls a run makes that change it. They describe the finite map
(`registered_registryCalls`), so as long as none of them comes to a gap the hash map answers every
lookup like the finite map (`hashmapGet_activeSockets`).
-/

namespace GroupChat

open Posix

/-! ## Uids are integers -/

theorem scanInt_lt {s : List Byte} {n : Int} (h : scanInt s = .ok (some n)) : n < 2 ^ 31 := by
  have hrange : ∀ (p : Prop) [Decidable p] (m : Int),
      (if p then .ok none else if m < -2 ^ 31 ∨ 2 ^ 31 ≤ m then .error Fault.overflow
        else .ok (some m)) = Except.ok (some n) → n < 2 ^ 31 := by
    intro p _ m hm
    split at hm
    · cases hm
    · split at hm
      · cases hm
      · cases hm
        omega
  exact hrange _ _ h

theorem scanUid_lt {uidS : List Byte} {uid k : Int} (huid : uid < 2 ^ 31)
    (h : scanUid uidS uid = .ok k) : k < 2 ^ 31 := by
  unfold scanUid at h
  cases hscan : scanInt uidS with
  | error fault =>
      rw [hscan] at h
      cases h
  | ok n =>
      rw [hscan] at h
      cases h
      cases n with
      | none => exact huid
      | some n => exact scanInt_lt hscan

theorem matchUserPwLoop_lt {username password : List Byte} {lines : List (List Byte)} {uid k : Int}
    (huid : uid < 2 ^ 31) (h : matchUserPwLoop username password lines uid = .ok k) :
    k < 2 ^ 31 := by
  induction lines generalizing uid with
  | nil =>
      cases h
      decide
  | cons line rest ih =>
      rw [matchUserPwLoop] at h
      obtain ⟨⟨uidS, save⟩, -, h⟩ := bind_eq_ok.mp h
      obtain ⟨uid', hscan, h⟩ := bind_eq_ok.mp h
      have hlt := scanUid_lt huid hscan
      obtain ⟨⟨uname, save'⟩, -, h⟩ := bind_eq_ok.mp h
      obtain ⟨c, -, h⟩ := bind_eq_ok.mp h
      split at h
      · obtain ⟨⟨pw, save''⟩, -, h⟩ := bind_eq_ok.mp h
        obtain ⟨c', -, h⟩ := bind_eq_ok.mp h
        split at h
        · obtain ⟨-, -, h⟩ := bind_eq_ok.mp h
          cases h
          exact hlt
        · exact ih hlt h
      · exact ih hlt h

theorem loginResult_lt {s : Server} {recv : Mainhdr} {k : Int} (h : loginResult s recv = some k) :
    k < 2 ^ 31 := by
  unfold loginResult at h
  split at h
  · split at h
    · rename_i username status f hlogin
      split at h
      · cases h
        obtain ⟨parsed, -, hlogin⟩ := bind_eq_ok.mp hlogin
        obtain ⟨matched, hmatch, hlogin⟩ := bind_eq_ok.mp hlogin
        obtain ⟨ret, hloop, hmatch⟩ := bind_eq_ok.mp hmatch
        cases hmatch
        cases hlogin
        exact matchUserPwLoop_lt (by decide) hloop
      · cases h
    · cases h
  · cases h

/-! ## The calls of a run -/

/-- The calls with which a step of the server changes `active_sockets`. -/
def registryCallsOf (x : Taken) : List (RegistryCall ConnId) :=
  match x.event with
  | .accept => []
  | .received c recv _ =>
    match loginResult x.pre recv.toMainhdr with
    | some k => [.put true (UInt64.ofInt k) (some c)]
    | none => []
  | .closed c =>
    match x.pre.uidOf c with
    | some uid => if 0 < uid then [.remove uid.toUInt64] else []
    | none => []

def registryCalls (h : List Taken) : List (RegistryCall ConnId) := h.flatMap registryCallsOf

theorem registryCalls_append (h : List Taken) (x : Taken) :
    registryCalls (h ++ [x]) = registryCalls h ++ registryCallsOf x := by
  rw [registryCalls, List.flatMap_append, List.flatMap_singleton]
  rfl

theorem toNat_key {k : Int} (hpos : 0 < k) (hlt : k < 2 ^ 31) :
    (UInt64.ofInt k).toNat = k.toNat := by
  rw [UInt64.ofInt, UInt64.toNat_ofNat']
  omega

variable {credential : CredentialFile} {disk : Disk}
  {h : List Taken} {s : Server} {fuel : Nat}

/-- The calls of a run describe the finite map. -/
theorem registered_registryCalls (run : Lts.Run step (Server.start credential disk) h s)
    (key : UInt64) :
    registered (registryCalls h) key = (s.activeSockets.lookup key.toNat).map some := by
  induction run with
  | start => rfl
  | @next h s s' e sent run taken ih =>
      rw [registryCalls_append]
      cases e with
      | accept =>
          obtain ⟨-, rfl⟩ := step_accept taken
          rw [registryCallsOf, List.append_nil]
          exact ih
      | received c recv heap =>
          obtain ⟨-, outcome⟩ := step_received taken
          unfold registryCallsOf
          dsimp only
          obtain ⟨k, hlogin, hsockets, -⟩ | ⟨hlogin, same⟩ := outcome.sessions
          · rw [hlogin, hsockets]
            dsimp only
            rw [registered_append, RegistryCall.apply]
            have hkey := toNat_key (loginResult_pos hlogin) (loginResult_lt hlogin)
            by_cases hk : key = UInt64.ofInt k
            · rw [hk, Function.update_self, hkey, AList.lookup_insert]
              rfl
            · have hne : key.toNat ≠ k.toNat := by
                rw [← hkey]
                exact fun heq => hk (UInt64.toNat_inj.mp heq)
              rw [Function.update_of_ne hk, AList.lookup_insert_ne hne]
              exact ih
          · rw [hlogin, same.activeSockets, List.append_nil]
            exact ih
      | closed c =>
          obtain ⟨me, hme, -, rfl⟩ := step_closed taken
          unfold registryCallsOf
          dsimp only
          rw [Server.uidOf_of_thread hme, lookup_closed]
          dsimp only
          by_cases hpos : 0 < me.data.uid
          · rw [if_pos hpos, registered_append, RegistryCall.apply]
            by_cases hk : key = me.data.uid.toUInt64
            · rw [hk, Function.update_self, if_pos ⟨hpos, UInt16.toNat_toUInt64 _⟩]
              rfl
            · rw [Function.update_of_ne hk, if_neg, ih]
              rintro ⟨-, heq⟩
              rw [← UInt16.toNat_toUInt64] at heq
              exact hk (UInt64.toNat_inj.mp heq)
          · rw [if_neg hpos, if_neg (fun h => hpos h.1), List.append_nil]
            exact ih

/-- Where no login comes to a gap and the table never grows, the hash map answers like the
finite map. -/
theorem hashmapGet_activeSockets (run : Lts.Run step (Server.start credential disk) h s)
    (few : FewPuts (registryCalls h))
    (hgap : Lts.Along (registryStep (fuel + 1)) hashmapNew (registryCalls h)
      fun _ m call => MeetsNoGap m call) :
    ∃ h' m, Lts.Run (registryStep (fuel + 1)) hashmapNew h' m ∧ Lts.events h' = registryCalls h ∧
      ∀ key : UInt64, ∃ m', hashmapGet m key =
        some ((lookupResult ((s.activeSockets.lookup key.toNat).map some)).1,
          (lookupResult ((s.activeSockets.lookup key.toNat).map some)).2, m') := by
  obtain ⟨h', m, run', hevents, faithful⟩ := exists_faithful few hgap
  refine ⟨h', m, run', hevents, fun key => ?_⟩
  rw [← registered_registryCalls run key]
  exact faithful.asMap.get key

end GroupChat
