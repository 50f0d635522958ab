import GroupChat.Server.History

/-!
# Whose uid a packet acts for

The handlers take the uid from the header of the packet and never compare it with the uid in
the struct of the connection. `effectFor_iff` says which uid a packet has an effect for,
`identity_iff` when every effect in a run is bound to the session it came from.
-/

namespace GroupChat

open Posix

/-- Between the two states a group is created with `uid` as its first member, `uid` is appended
to a group, or an `INVITE` or `SEND_CHAT` packet with that uid is sent. -/
def EffectFor (s : Server) (sent : List Sent) (s' : Server) (uid : UInt16) : Prop :=
  (∃ (g : Nat) (rest : List UInt16), s.groups[g]? = some [] ∧ s'.groups[g]? = some (uid :: rest)) ∨
  (∃ (g : Nat) (l : List UInt16), l ≠ [] ∧ s.groups[g]? = some l ∧ s'.groups[g]? = some (l ++ [uid])) ∨
  Speaks sent uid

section Effects

variable {s s' : Server} {sent : List Sent}

theorem effectFor_of_same (h : s'.groups = s.groups) (uid : UInt16) :
    EffectFor s sent s' uid ↔ Speaks sent uid := by
  constructor
  · rintro (⟨g, rest, hfree, hset⟩ | ⟨g, l, -, hl, hset⟩ | hspeaks)
    · rw [h, hfree] at hset
      cases hset
    · rw [h, hl] at hset
      exact absurd (Option.some.inj hset) (by simp)
    · exact hspeaks
  · exact fun hspeaks => Or.inr (Or.inr hspeaks)

theorem effectFor_of_set {i : Nat} {l : List UInt16} {new uid : UInt16}
    (hl : s.groups[i]? = some l) (h : s'.groups = s.groups.setIfInBounds i (l ++ [new]))
    (hquiet : ∀ uid, ¬ Speaks sent uid) : EffectFor s sent s' uid ↔ uid = new := by
  constructor
  · rintro (⟨g, rest, hfree, hset⟩ | ⟨g, l', hne, hl', hset⟩ | hspeaks)
    · rcases getElem?_set hl h hset with ⟨rfl, heq⟩ | hsame
      · rw [hfree] at hl
        cases hl
        exact (List.cons.inj heq).1
      · rw [hfree] at hsame
        cases hsame
    · rcases getElem?_set hl h hset with ⟨rfl, heq⟩ | hsame
      · rw [hl] at hl'
        cases hl'
        exact List.singleton_injective (List.append_cancel_left heq)
      · rw [hl'] at hsame
        exact absurd (Option.some.inj hsame) (by simp)
    · exact absurd hspeaks (hquiet uid)
  · rintro rfl
    have hset := getElem?_set_self hl h
    cases l with
    | nil => exact Or.inl ⟨i, [], hl, hset⟩
    | cons first rest => exact Or.inr (Or.inl ⟨i, _, List.cons_ne_nil _ _, hl, hset⟩)

/-- A packet has an effect for the uid in its header if it acts, and for no other uid. -/
theorem effectFor_iff {c : ConnId} {recv : Mainhdr} (h : Outcome s c recv sent s')
    (uid : UInt16) : EffectFor s sent s' uid ↔ Acts s recv ∧ uid = recv.uid := by
  cases h with
  | login k result activeSockets uidOf count groups quiet =>
      have hcmd : recv.cmd = USR_LOGIN := by
        by_contra hne
        rw [loginResult_of_ne hne] at result
        cases result
      have hidle : ¬ Acts s recv := by
        simp [Acts, hcmd, USR_LOGIN, CREATE_GROUP, INVITE, INVITE_RESP, SEND_CHAT, SEND_FILE]
      rw [effectFor_of_same groups]
      exact iff_of_false (quiet uid) (fun hacts => hidle hacts.1)
  | creates gid cmd pos free groups same quiet =>
      rw [effectFor_of_set free groups quiet, and_iff_right ((acts_createGroup cmd).mpr pos)]
  | joins g cmd checked group ne fresh groups same quiet =>
      rw [effectFor_of_set group groups quiet, and_iff_right ((acts_inviteResp cmd).mpr checked)]
  | invites peerId peerData cmd checked out groups same =>
      rw [effectFor_of_same groups, and_iff_right ((acts_invite cmd).mpr ⟨_, _, checked⟩), out]
      constructor
      · rintro ⟨fd, hdr, hmem, -, huid⟩
        cases List.mem_singleton.mp hmem
        exact huid.symm
      · rintro rfl
        exact ⟨peerData, _, List.mem_singleton_self _, Or.inl rfl, rfl⟩
  | speaks acts out own groups same =>
      have hacts : Acts s recv := by
        rcases acts with ⟨⟨hcmd, hchats⟩ | hcmd, honline⟩
        · exact (acts_sendChat hcmd).mpr ⟨hchats, honline⟩
        · exact (acts_sendFile hcmd).mpr honline
      rw [effectFor_of_same groups, and_iff_right hacts]
      constructor
      · exact own uid
      · rintro rfl
        obtain ⟨uid, hspeaks⟩ := out
        exact own uid hspeaks ▸ hspeaks
  | quiet result idle groups same quiet =>
      rw [effectFor_of_same groups]
      exact iff_of_false (quiet uid) (fun hacts => idle hacts.1)

end Effects

/-- Every effect of the step is for the uid that a login has set on the connection whose packet
causes it. -/
def BoundToSession (h : List Taken) (s : Server) (e : Event) : Prop :=
  ∀ sent s', step s e = .ok (sent, s') → ∀ uid, EffectFor s sent s' uid →
    ∃ c recv heap, e = .received c recv heap ∧ HasLoggedIn h s c uid

/-- A packet that acts carries the uid that a login has set on its connection. -/
def ActsAsSession (h : List Taken) (s : Server) (e : Event) : Prop :=
  ∀ c recv heap, e = .received c recv heap → Acts s recv.toMainhdr → HasLoggedIn h s c recv.uid

theorem no_effect_of_same {s s' : Server} (h : s'.groups = s.groups) (uid : UInt16) :
    ¬ EffectFor s [] s' uid := by
  rw [effectFor_of_same h]
  exact not_speaks_nil uid

theorem boundToSession_iff (h : List Taken) (s : Server) (e : Event) :
    BoundToSession h s e ↔
      ((∃ sent s', step s e = .ok (sent, s')) → ActsAsSession h s e) := by
  cases e with
  | accept =>
      refine iff_of_true ?_ (fun _ c recv heap he => by cases he)
      intro sent s' hstep uid heffect
      rcases step_accept hstep with ⟨rfl, rfl⟩
      exact (no_effect_of_same rfl uid heffect).elim
  | received c recv heap =>
      constructor
      · rintro hbound ⟨sent, s', hstep⟩ c' recv' heap' he hacts
        cases he
        have heffect := (effectFor_iff (step_received hstep).2 recv.uid).mpr ⟨hacts, rfl⟩
        obtain ⟨c', recv', heap', he, hlogged⟩ := hbound sent s' hstep recv.uid heffect
        cases he
        exact hlogged
      · intro hsession sent s' hstep uid heffect
        obtain ⟨hacts, rfl⟩ := (effectFor_iff (step_received hstep).2 uid).mp heffect
        exact ⟨c, recv, heap, rfl, hsession ⟨sent, s', hstep⟩ c recv heap rfl hacts⟩
  | closed c =>
      refine iff_of_true ?_ (fun _ c recv heap he => by cases he)
      intro sent s' hstep uid heffect
      obtain ⟨me, -, rfl, rfl⟩ := step_closed hstep
      exact (no_effect_of_same rfl uid heffect).elim

/-- In a run every effect is bound to the session it came from exactly when every packet that
acts carries the uid of its session. -/
theorem identity_iff (credential : CredentialFile) (disk : Disk) (es : List Event) :
    Lts.Along step (Server.start credential disk) es BoundToSession ↔
      Lts.Along step (Server.start credential disk) es fun h s e =>
        (∃ sent s', step s e = .ok (sent, s')) → ActsAsSession h s e := by
  let Always : List Taken → Server → Prop := fun _ _ => True
  have hstart : Always [] (Server.start credential disk) := trivial
  apply Lts.along_iff hstart
  · intro h s e _ _
    exact boundToSession_iff h s e
  · intro h s e sent s' _ _ _ _
    trivial

/-- `CREATE_GROUP` with this uid in its header. -/
def createGroupPacket (uid : UInt16) : Packet := ⟨⟨CREATE_GROUP, 0, uid, 0, []⟩, rfl⟩

/-- A connection on which nobody has logged in creates a group for uid 5. -/
theorem group_without_login :
    ¬ Lts.Along step (Server.start ⟨[], 0⟩ ∅) [.accept, .received 0 (createGroupPacket 5) (0, 0)]
      BoundToSession := by
  intro h
  have hbound := h _ _ (.received 0 (createGroupPacket 5) (0, 0))
    (Lts.Run.start.next (e := .accept) rfl) (List.prefix_refl _)
  have hrun : Lts.returns (step { Server.start ⟨[], 0⟩ ∅ with clients := [some freshThread] }
      (.received 0 (createGroupPacket 5) (0, 0))) (fun r => r.2.groups[0]? = some [5]) = true := by
    decide +kernel
  obtain ⟨⟨sent, s'⟩, hstep, hgroup⟩ := Lts.exists_of_returns hrun
  obtain ⟨c, recv, heap, -, -, p, hp, -⟩ := hbound sent s' hstep 5
    (Or.inl ⟨0, [], rfl, of_decide_eq_true hgroup⟩)
  exact absurd hp List.not_mem_nil

end GroupChat
