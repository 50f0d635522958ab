import GroupChat.Server.Identity

/-!
# How users come into groups

Membership is by invitation when every member of a group after the first was the target of an
invitation that the server forwarded for a member. The server keeps no record of the
invitations it forwards, so an accepting `INVITE_RESP` of anyone is enough to join;
`membership_iff` says that membership is by invitation in exactly the runs in which nobody
makes use of that.
-/

namespace GroupChat

open Posix

/-- The step forwards an invitation to group `gid` to the connection of account `uid`, for a
sender who is in the group. -/
def ForwardsInvite (x : Taken) (gid : UInt8) (uid : UInt16) : Prop :=
  ∃ c recv heap peerData, x.event = .received c recv heap ∧ recv.cmd = INVITE ∧ recv.gid = gid ∧
    Invites x.pre recv.toMainhdr uid.toNat peerData ∧ Member x.pre gid recv.uid ∧
    x.out = [.packet peerData (createAndFillHdr INVITE gid recv.uid 0)]

def Invited (h : List Taken) (gid : UInt8) (uid : UInt16) : Prop :=
  ∃ x ∈ h, ForwardsInvite x gid uid

/-- Every member but the first was invited. -/
def ByInvitation (h : List Taken) (s : Server) : Prop :=
  ∀ (gid : UInt8) (l : List UInt16), s.groups[gid.toNat]? = some l → ∀ uid ∈ l.tail,
    Invited h gid uid

/-- Whoever joins a group was invited to it. -/
def JoinsInvited (h : List Taken) (s : Server) (e : Event) : Prop :=
  ∀ c recv heap, e = .received c recv heap → recv.cmd = INVITE_RESP → Joins s recv.toMainhdr →
    Invited h recv.gid recv.uid

theorem Invited.append {h : List Taken} {gid : UInt8} {uid : UInt16} (hinvited : Invited h gid uid)
    (x : Taken) : Invited (h ++ [x]) gid uid := by
  obtain ⟨y, hy, hforwards⟩ := hinvited
  exact ⟨y, List.mem_append_left _ hy, hforwards⟩

/-- An `INVITE_RESP` invites nobody. -/
theorem Invited.of_append {h : List Taken} {gid : UInt8} {uid : UInt16} {x : Taken} {c : ConnId}
    {recv : Packet} {heap : Byte × Byte} (hinvited : Invited (h ++ [x]) gid uid)
    (hevent : x.event = .received c recv heap) (hcmd : recv.cmd ≠ INVITE) : Invited h gid uid := by
  obtain ⟨y, hy, hforwards⟩ := hinvited
  rcases List.mem_append.mp hy with hy | hy
  · exact ⟨y, hy, hforwards⟩
  · cases List.mem_singleton.mp hy
    obtain ⟨c', recv', heap', peerData, hevent', hcmd', -⟩ := hforwards
    rw [hevent] at hevent'
    cases hevent'
    exact absurd hcmd' hcmd

section Step

variable {h : List Taken} {s s' : Server} {x : Taken}

theorem ByInvitation.of_same (hby : ByInvitation h s) (hgroups : s'.groups = s.groups)
    (x : Taken) : ByInvitation (h ++ [x]) s' := by
  intro gid l hl uid huid
  rw [hgroups] at hl
  exact (hby gid l hl uid huid).append x

theorem ByInvitation.of_new (hby : ByInvitation h s) {gid : UInt8} {first : UInt16}
    (hfree : s.groups[gid.toNat]? = some [])
    (hgroups : s'.groups = s.groups.setIfInBounds gid.toNat [first]) (x : Taken) :
    ByInvitation (h ++ [x]) s' := by
  intro gid' l hl uid huid
  rcases getElem?_set hfree hgroups hl with ⟨-, rfl⟩ | hsame
  · exact absurd huid List.not_mem_nil
  · exact (hby gid' l hsame uid huid).append x

/-- After someone has joined, membership is by invitation if that one was invited. -/
theorem ByInvitation.join_iff (hby : ByInvitation h s) {gid : UInt8} {g : List UInt16}
    {new : UInt16} (hg : s.groups[gid.toNat]? = some g) (hne : g ≠ [])
    (hgroups : s'.groups = s.groups.setIfInBounds gid.toNat (g ++ [new])) (x : Taken) :
    ByInvitation (h ++ [x]) s' ↔ Invited (h ++ [x]) gid new := by
  constructor
  · intro hby'
    apply hby' gid (g ++ [new]) (getElem?_set_self hg hgroups)
    rw [List.tail_append_of_ne_nil hne]
    exact List.mem_append_right _ List.mem_cons_self
  · intro hinvited gid' l hl uid huid
    rcases getElem?_set hg hgroups hl with ⟨hgid, rfl⟩ | hsame
    · rw [List.tail_append_of_ne_nil hne] at huid
      have hgid' : gid' = gid := UInt8.toNat_inj.mp hgid
      rw [hgid']
      rcases List.mem_append.mp huid with huid | huid
      · exact (hby gid g hg uid huid).append x
      · exact List.mem_singleton.mp huid ▸ hinvited
    · exact (hby gid' l hsame uid huid).append x

/-- One step keeps membership by invitation exactly when whoever joins in it was invited. -/
theorem byInvitation_step_iff {e : Event} {sent : List Sent} (hby : ByInvitation h s)
    (hstep : step s e = .ok (sent, s')) :
    ByInvitation (h ++ [⟨s, e, sent, s'⟩]) s' ↔ JoinsInvited h s e := by
  cases e with
  | accept =>
      rcases step_accept hstep with ⟨rfl, rfl⟩
      exact iff_of_true (hby.of_same rfl _) (fun c recv heap he => by cases he)
  | closed c =>
      obtain ⟨me, -, rfl, rfl⟩ := step_closed hstep
      exact iff_of_true (hby.of_same rfl _) (fun c recv heap he => by cases he)
  | received c recv heap =>
      have hno : ¬ (recv.cmd = INVITE_RESP ∧ Joins s recv.toMainhdr) →
          JoinsInvited h s (.received c recv heap) := by
        intro hnot c' recv' heap' he hcmd hjoins
        cases he
        exact absurd ⟨hcmd, hjoins⟩ hnot
      cases (step_received hstep).2 with
      | login k result activeSockets uidOf count groups quiet =>
          refine iff_of_true (hby.of_same groups _) (hno ?_)
          rintro ⟨hcmd, -⟩
          rw [loginResult_of_ne (by rw [hcmd]; decide)] at result
          cases result
      | creates gid cmd pos free groups same quiet =>
          refine iff_of_true (hby.of_new free groups _) (hno ?_)
          rintro ⟨hcmd, -⟩
          exact absurd (cmd.symm.trans hcmd) (by decide)
      | joins g cmd checked group ne fresh groups same quiet =>
          rw [hby.join_iff group ne groups]
          constructor
          · intro hinvited c' recv' heap' he _ _
            cases he
            exact hinvited.of_append rfl (by rw [cmd]; decide)
          · intro hjoins
            exact (hjoins c recv heap rfl cmd checked).append _
      | invites peerId peerData cmd checked out groups same =>
          refine iff_of_true (hby.of_same groups _) (hno ?_)
          rintro ⟨hcmd, -⟩
          exact absurd (cmd.symm.trans hcmd) (by decide)
      | speaks acts out own groups same =>
          refine iff_of_true (hby.of_same groups _) (hno ?_)
          rintro ⟨hcmd, -⟩
          rcases acts.1 with ⟨hcmd', -⟩ | hcmd'
          · exact absurd (hcmd'.symm.trans hcmd) (by decide)
          · exact absurd (hcmd'.symm.trans hcmd) (by decide)
      | quiet result idle groups same quiet =>
          refine iff_of_true (hby.of_same groups _) (hno ?_)
          rintro ⟨hcmd, hjoins⟩
          exact idle ((acts_inviteResp hcmd).mpr hjoins)

end Step

/-- Membership is by invitation throughout a run exactly when everyone who joins a group in it
was invited to it. -/
theorem membership_iff (credential : CredentialFile) (disk : Disk) (es : List Event) :
    Lts.Throughout step (Server.start credential disk) es ByInvitation ↔
      Lts.Along step (Server.start credential disk) es fun h s e =>
        (∃ sent s', step s e = .ok (sent, s')) → JoinsInvited h s e := by
  have hstart : ByInvitation [] (Server.start credential disk) := by
    intro gid l hl uid huid
    have hnil : l = [] := by
      have hmem := Vector.mem_of_getElem? hl
      exact (Vector.mem_replicate.mp hmem).2
    rw [hnil] at huid
    exact absurd huid List.not_mem_nil
  apply Lts.throughout_iff_along hstart hstart
  · intro h s e sent s' _ hby hstep
    exact byInvitation_step_iff hby hstep
  · intro h s e sent s' _ hby hjoins hstep
    exact (byInvitation_step_iff hby hstep).mpr hjoins

/-! ## A run in which nobody is invited -/

/-- `INVITE_RESP` that accepts. -/
def acceptPacket (gid : UInt8) (uid : UInt16) : Packet :=
  ⟨⟨INVITE_RESP, gid, uid, 6, [97, 99, 99, 101, 112, 116]⟩, rfl⟩

/-- `a` creates a group, and `b` answers an invitation that was never made. -/
def uninvited : List Event :=
  [.accept, .accept, .received 0 (loginPacket 97) (0, 0), .received 1 (loginPacket 98) (0, 0),
    .received 0 (createGroupPacket 1) (0, 0), .received 1 (acceptPacket 0 2) (0, 0)]

def isInvite : Event → Bool
  | .received _ recv _ => recv.cmd = INVITE
  | _ => false

theorem uninvited_joins :
    Lts.Along step (Server.start twoAccounts ∅) uninvited Truthful ∧
      ¬ Lts.Throughout step (Server.start twoAccounts ∅) uninvited ByInvitation := by
  constructor
  · have htruthful : Lts.AlongFrom step Truthful uninvited [] (Server.start twoAccounts ∅) := by
      decide +kernel
    intro h s e run hes
    exact Lts.along_of_alongFrom Lts.Run.start htruthful run List.nil_prefix hes
  · intro hby
    have hrun : Lts.returns (Lts.execute step uninvited [] (Server.start twoAccounts ∅))
        (fun r => r.2.groups[0]? = some [1, 2]) = true := by
      decide +kernel
    obtain ⟨⟨h, s⟩, hexec, hgroup⟩ := Lts.exists_of_returns hrun
    obtain ⟨run, hevents⟩ := Lts.Run.start.of_execute hexec
    have hprefix : Lts.events h <+: uninvited := hevents ▸ List.prefix_refl _
    obtain ⟨x, hx, c, recv, heap, peerData, hevent, hcmd, -⟩ :=
      hby h s run hprefix 0 [1, 2] (of_decide_eq_true hgroup) 2 List.mem_cons_self
    have hnone : ∀ e ∈ uninvited, isInvite e = false := by
      decide +kernel
    have hmem : x.event ∈ uninvited := hprefix.subset (List.mem_map_of_mem hx)
    have hinvite := hnone _ hmem
    rw [hevent] at hinvite
    exact absurd hcmd (of_decide_eq_false hinvite)

end GroupChat
