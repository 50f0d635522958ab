import GroupChat.Server.Outcome
import GroupChat.Lts.Run

/-!
# Runs of the server and who is logged in

The runs are those of `step` from the state that `main` sets up, on any disk. `logins` reads
the successful `USR_LOGIN`s off a history, the latest last; the other definitions say in
terms of it which account a connection has and which connection has logged in last as an
account.
-/

namespace GroupChat

open Posix

/-- One step of the server as it was taken. -/
abbrev Taken := Lts.Taken Server Event (List Sent)

theorem step_accept {s s' : Server} {sent : List Sent} (h : step s .accept = .ok (sent, s')) :
    sent = [] ∧ s' = { s with clients := s.clients ++ [some freshThread] } := by
  cases h
  exact ⟨rfl, rfl⟩

theorem step_switch {s s' : Server} {sent : List Sent} {c : ConnId} {recv : Packet}
    {heap : Byte × Byte} (h : step s (.received c recv heap) = .ok (sent, s')) :
    ∃ me, s.thread c = some me ∧ switch s c me recv.toMainhdr heap = .ok (sent, s') := by
  rw [step] at h
  cases hme : s.thread c with
  | none =>
      rw [hme] at h
      cases h
  | some me =>
      rw [hme] at h
      cases hswitch : switch s c me recv.toMainhdr heap with
      | error fault =>
          simp only [hswitch] at h
          cases h
      | ok result =>
          simp only [hswitch] at h
          cases h
          exact ⟨me, rfl, hswitch⟩

theorem step_received {s s' : Server} {sent : List Sent} {c : ConnId} {recv : Packet}
    {heap : Byte × Byte} (h : step s (.received c recv heap) = .ok (sent, s')) :
    (s.uidOf c).isSome ∧ Outcome s c recv.toMainhdr sent s' := by
  obtain ⟨me, hme, hswitch⟩ := step_switch h
  exact ⟨by rw [Server.uidOf, hme]; rfl, switch_outcome hme hswitch⟩

theorem step_closed {s s' : Server} {sent : List Sent} {c : ConnId}
    (h : step s (.closed c) = .ok (sent, s')) :
    ∃ me, s.thread c = some me ∧ sent = [] ∧ s' = onClosed s c me := by
  rw [step] at h
  cases hme : s.thread c with
  | none =>
      rw [hme] at h
      cases h
  | some me =>
      rw [hme] at h
      cases h
      exact ⟨me, rfl, rfl, rfl⟩

/-! ## Logins -/

/-- The connection and the account of a step that is a successful login. -/
def loginOf (x : Taken) : Option (ConnId × Int) :=
  match x.event with
  | .received c recv _ => (loginResult x.pre recv.toMainhdr).map (c, ·)
  | _ => none

section LoginOf

variable {s s' : Server} {c : ConnId} {recv : Packet} {heap : Byte × Byte} {sent : List Sent}

theorem loginOf_of_some {k : Int} (h : loginResult s recv.toMainhdr = some k) :
    loginOf ⟨s, .received c recv heap, sent, s'⟩ = some (c, k) :=
  congrArg (Option.map (c, ·)) h

theorem loginOf_of_none (h : loginResult s recv.toMainhdr = none) :
    loginOf ⟨s, .received c recv heap, sent, s'⟩ = none :=
  congrArg (Option.map (c, ·)) h

end LoginOf

/-- The successful logins of a history, the latest last. -/
def logins (h : List Taken) : List (ConnId × Int) := h.filterMap loginOf

theorem logins_append (h : List Taken) (x : Taken) :
    logins (h ++ [x]) = logins h ++ (loginOf x).toList := by
  rw [logins, List.filterMap_append, List.filterMap_cons]
  cases loginOf x <;> rfl

/-- The uid in the connection's struct is `uid`, which a successful login on it has set. -/
def HasLoggedIn (h : List Taken) (s : Server) (c : ConnId) (uid : UInt16) : Prop :=
  s.uidOf c = some uid ∧ ∃ p ∈ logins h, p.1 = c ∧ UInt16.ofInt p.2 = uid

instance (h : List Taken) (s : Server) (c : ConnId) (uid : UInt16) :
    Decidable (HasLoggedIn h s c uid) :=
  inferInstanceAs (Decidable (_ ∧ _))

/-- The client puts its own uid in the header: the one it has logged in with, or 0 before its
first login. The header of `USR_CREATE` and `USR_LOGIN` carries no uid. -/
def Truthful (h : List Taken) (s : Server) : Event → Prop
  | .received c recv _ => recv.cmd = USR_CREATE ∨ recv.cmd = USR_LOGIN ∨
      HasLoggedIn h s c recv.uid ∨ ((∀ p ∈ logins h, p.1 ≠ c) ∧ recv.uid = 0)
  | _ => True

instance (h : List Taken) (s : Server) : ∀ e, Decidable (Truthful h s e)
  | .accept => isTrue trivial
  | .received _ _ _ => inferInstanceAs (Decidable (_ ∨ _ ∨ _ ∨ _))
  | .closed _ => isTrue trivial

/-! ## A disk and packets for concrete runs -/

/-- Accounts `a` and `b`, both with password `p`. -/
def twoAccounts : CredentialFile :=
  ⟨[49, 32, 97, 32, 112, 10, 50, 32, 98, 32, 112, 10], 0⟩

/-- `USR_LOGIN` with a name of one letter and password `p`. -/
def loginPacket (name : Byte) : Packet := ⟨⟨USR_LOGIN, 0, 0, 3, [name, 58, 112]⟩, rfl⟩

end GroupChat
