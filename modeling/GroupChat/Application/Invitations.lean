import GroupChat.Application.Login
import GroupChat.Application.Requests
import GroupChat.Server.Membership

/-!
# Invitations and their answers

The server keeps no record of the invitations that it forwards and lets anyone join who says to have
accepted one. The client program says so only when its user has accepted an invitation that the
reader has put into the queue of invitations, and it takes each of them off that queue once. So the
answers that the server gets on a connection belong to invitations that it has sent there, in the
same order, and in a run of the application membership is by invitation (`invitations_answered`).
-/

namespace GroupChat

open Posix

/-- The group of an answer to an invitation. -/
def answerOf (p : Packet) : Option UInt8 := if p.cmd = INVITE_RESP then some p.gid else none

/-- The group of an invitation. -/
def invitationOf : Sent → Option UInt8
  | .packet _ hdr => if hdr.cmd = INVITE then some hdr.gid else none
  | .file .. => none

/-- The invitations that the user has not been asked about. -/
def Process.invitations : Process → List UInt8
  | .dialogue _ => []
  | .chatting client => client.groupRequestQueue

structure InvitationsAnswered (h : List ApplicationTaken) (s : Application) : Prop where
  /-- the answers that are handled, on their way and queued, and the open invitations -/
  answers : ∀ c, ((handledOn c (serverSteps h) ++ s.network.toServer c ++
      (s.clients c).outgoing).filterMap answerOf ++ (s.clients c).invitations).Sublist
    ((readBy c (networkHistory h)).filterMap invitationOf)
  /-- as long as the accounts have a `uint16_t` -/
  members : (∀ p ∈ logins (serverSteps h), p.2 < 2 ^ 16) →
    ByInvitation (serverSteps h) s.network.server

/-! ## One step of a client -/

section Step

variable {client client' : Client} {fuel : Nat} {e : ProcessEvent} {act : Act}
  {incoming : Option Sent} {process process' : Process}

theorem answerOf_of_ne {p : Packet} (hcmd : p.cmd ≠ INVITE_RESP) : answerOf p = none := if_neg hcmd

theorem answerOf_response (inviteGid : UInt8) (uid : UInt16) (response : Byte) :
    answerOf (responsePacket inviteGid uid response) = some inviteGid := if_pos rfl

theorem answerOf_request (gid : UInt8) (uid : UInt16) (r : GroupRequest) :
    answerOf (r.packet gid uid) = none := by
  cases r with
  | invite username => exact if_neg (by decide : INVITE ≠ INVITE_RESP)
  | send message => exact if_neg (by decide : SEND_CHAT ≠ INVITE_RESP)
  | download filename => exact if_neg (by decide : DOWNLOAD_FILE ≠ INVITE_RESP)

/-- The answers that a step writes or leaves in the queue and the invitations it leaves come from
those that were there and from what it reads. -/
def Answered (before after : Process) (act : Act) : Prop :=
  ((act.written ++ after.outgoing).filterMap answerOf ++ after.invitations).Sublist
    (before.outgoing.filterMap answerOf ++ before.invitations ++ act.read.filterMap invitationOf)

/-- A step that has nothing to do with invitations. -/
theorem Answered.of_same (hread : act.read = [])
    (hout : (act.written ++ process'.outgoing).filterMap answerOf = process.outgoing.filterMap answerOf)
    (hinv : process'.invitations = process.invitations) : Answered process process' act := by
  rw [Answered, hread, hout, hinv, List.filterMap_nil, List.append_nil]

theorem answered_command {p : Packet} (hp : answerOf p = none)
    (h : Client.silent (client.command p) = .ok (act, client')) :
    Answered (.chatting client) (.chatting client') act := by
  obtain ⟨rfl, hcommand⟩ := Client.silent_eq_ok h
  rw [Client.command] at hcommand
  split at hcommand
  · cases hcommand
    refine .of_same rfl ?_ rfl
    change (client.outgoingMessageQueue ++ [p]).filterMap answerOf = _
    rw [List.filterMap_append, List.filterMap_cons_none hp, List.filterMap_nil, List.append_nil]
    rfl
  · cases hcommand

/-- The user is asked about the first invitation, and it is gone. -/
theorem answered_answer {answer : Byte}
    (h : Client.silent (client.answerInvite answer) = .ok (act, client')) :
    Answered (.chatting client) (.chatting client') act := by
  obtain ⟨rfl, hanswer⟩ := Client.silent_eq_ok h
  rw [Client.answerInvite] at hanswer
  split at hanswer
  · rename_i inviteGid rest hmain hqueue
    have hmoved : ∀ {client' : Client} (response : Byte),
        client'.outgoingMessageQueue =
          client.outgoingMessageQueue ++ [responsePacket inviteGid client.myUid response] →
        client'.groupRequestQueue = rest →
        Answered (.chatting client) (.chatting client') .silent := by
      intro client' response hout hinv
      rw [Answered, Act.written, Act.read, Process.outgoing, Process.outgoing, Process.invitations,
        Process.invitations, hout, hinv, hqueue, List.nil_append, List.filterMap_append,
        List.filterMap_cons_some (answerOf_response inviteGid client.myUid response),
        List.filterMap_nil, List.filterMap_nil, List.append_nil, List.append_assoc]
      exact List.Sublist.refl _
    simp only at hanswer
    split at hanswer
    · cases hanswer
      exact hmoved 97 rfl rfl
    · split at hanswer
      · cases hanswer
        exact hmoved 100 rfl rfl
      · cases hanswer
        rw [Answered, Act.written, Act.read, Process.invitations, Process.invitations, hqueue,
          List.nil_append, List.filterMap_nil, List.append_nil]
        exact (List.Sublist.refl _).append (List.sublist_cons_self inviteGid rest)
  · cases hanswer

theorem groupRequestQueue_register (h : client.register fuel = some client') :
    client'.outgoingMessageQueue = client.outgoingMessageQueue ∧
      client'.groupRequestQueue = client.groupRequestQueue := by
  rw [Client.register] at h
  split at h
  · split at h
    · cases h
      exact ⟨rfl, rfl⟩
    · rename_i hcreate
      cases h
      obtain ⟨r, -, rfl⟩ := Option.map_eq_some_iff.mp hcreate
      exact ⟨rfl, rfl⟩
  · cases h

/-- The reader puts an invitation at the end of the queue. -/
theorem groupRequestQueue_serverRead {x : Sent} (h : client.serverRead fuel x = .ok client') :
    client'.groupRequestQueue = client.groupRequestQueue ++ (invitationOf x).toList := by
  have hsame : client.groupRequestQueue = client.groupRequestQueue ++ [] :=
    (List.append_nil _).symm
  cases x with
  | file fd gid uid content =>
      cases h
      exact hsame
  | packet fd recv =>
      rw [Client.serverRead] at h
      by_cases hchat : recv.cmd = SEND_CHAT
      · have hnone : invitationOf (.packet fd recv) = none := by
          refine if_neg ?_
          rw [hchat]
          decide
        rw [hnone]
        rw [if_pos hchat] at h
        split at h
        · cases h
          exact hsame
        · simp only at h
          split at h
          · split at h
            · cases h
            · cases h
              exact hsame
          · cases h
            exact hsame
      rw [if_neg hchat] at h
      by_cases hinvite : recv.cmd = INVITE
      · have hsome : invitationOf (.packet fd recv) = some recv.gid := if_pos hinvite
        rw [if_pos hinvite] at h
        cases h
        rw [hsome]
        rfl
      have hnone : invitationOf (.packet fd recv) = none := if_neg hinvite
      rw [if_neg hinvite] at h
      rw [hnone]
      split at h
      · split at h
        · cases h
          exact hsame
        · rename_i hcreate
          cases h
          obtain ⟨r, -, rfl⟩ := Option.map_eq_some_iff.mp hcreate
          exact hsame
      · cases h
        exact hsame

theorem Client.answered_of_next (h : client.next fuel incoming e = .ok (act, client')) :
    Answered (.chatting client) (.chatting client') act := by
  cases e with
  | turn raw => cases h
  | answer answer => exact answered_answer h
  | register =>
      obtain ⟨rfl, hregister⟩ := silent_eq_ok h
      obtain ⟨hout, hinv⟩ := groupRequestQueue_register hregister
      exact .of_same rfl (congrArg (List.filterMap answerOf) hout) hinv
  | newGroup => exact answered_command (answerOf_of_ne (by decide : CREATE_GROUP ≠ INVITE_RESP)) h
  | activeList => exact answered_command (answerOf_of_ne (by decide : ACTIVE_LIST ≠ INVITE_RESP)) h
  | request gid r => exact answered_command (answerOf_request gid client.myUid r) h
  | typed window r =>
      obtain ⟨rfl, htyped⟩ := silent_eq_ok h
      obtain ⟨w, -, rfl⟩ := Option.map_eq_some_iff.mp htyped
      refine .of_same rfl ?_ rfl
      change (client.outgoingMessageQueue ++ [r.packet w.gid client.myUid]).filterMap answerOf = _
      rw [List.filterMap_append, List.filterMap_cons_none (answerOf_request _ _ r),
        List.filterMap_nil, List.append_nil]
      rfl
  | upload gid file =>
      cases h
      have hnone : answerOf (requestPacket SEND_FILE gid client.myUid file) = none :=
        answerOf_of_ne (by decide : SEND_FILE ≠ INVITE_RESP)
      exact .of_same rfl (List.filterMap_cons_none hnone) rfl
  | write =>
      simp only [next] at h
      split at h
      · cases h
      · rename_i hdr rest hqueue
        cases h
        refine .of_same rfl ?_ rfl
        rw [Process.outgoing, Process.outgoing, hqueue]
        rfl
  | read =>
      simp only [next] at h
      split at h
      · cases h
      · split at h
        · cases h
        · rename_i x
          split at h
          · cases h
          · rename_i hread
            cases h
            have hinv := groupRequestQueue_serverRead hread
            obtain ⟨-, hout⟩ := serverRead_same hread
            have hnew : [x].filterMap invitationOf = (invitationOf x).toList := by
              cases hx : invitationOf x with
              | none => exact List.filterMap_cons_none hx
              | some gid => exact List.filterMap_cons_some hx
            rw [Answered, Act.written, Act.read, Process.outgoing, Process.outgoing,
              Process.invitations, Process.invitations, hout, hinv, hnew, List.nil_append,
              List.append_assoc]
  | display window =>
      cases h
      exact .of_same rfl rfl rfl

/-- In the dialogue there are no invitations. -/
theorem Process.answered_of_next (h : process.next fuel incoming e = .ok (act, process')) :
    Answered process process' act := by
  cases process with
  | dialogue d =>
      have hnil : ∀ {process' : Process}, process'.outgoing = [] → process'.invitations = [] →
          act.written.filterMap answerOf = [] → Answered (.dialogue d) process' act := by
        intro process' hout hinv hwritten
        rw [Answered, hout, hinv, List.append_nil, List.append_nil, hwritten]
        exact List.nil_sublist _
      cases Process.next_stepped h with
      | dialogue _ _ _ turned =>
          cases turned with
          | idle d' before after => exact hnil rfl rfl rfl
          | requested p d' before awaits =>
              have hnone : answerOf p = none := by
                refine answerOf_of_ne ?_
                rcases awaits with ⟨-, hcmd⟩ | ⟨-, hcmd⟩
                · rw [hcmd]
                  decide
                · rw [hcmd]
                  decide
              exact hnil rfl rfl (List.filterMap_cons_none hnone)
          | created x d' next stage after => exact hnil rfl rfl rfl
          | refused x d' next fails after => exact hnil rfl rfl rfl
          | entered x next awaits status => exact hnil rfl rfl rfl
  | chatting client =>
      rw [Process.next] at h
      split at h
      · cases h
      · rename_i hnext
        cases h
        exact Client.answered_of_next hnext

end Step

/-! ## The server -/

section Server

variable {h : List Taken} {s s' : Server} {e : Event} {sent : List Sent} {c : ConnId} {hdr : Mainhdr}

/-- An invitation comes from the handler of `INVITE`. -/
theorem invitation_of_step (hstep : step s e = .ok (sent, s')) (hmem : .packet c hdr ∈ sent)
    (hcmd : hdr.cmd = INVITE) :
    ∃ d recv heap peerId, e = .received d recv heap ∧ recv.cmd = INVITE ∧ recv.gid = hdr.gid ∧
      Invites s recv.toMainhdr peerId c ∧
      sent = [.packet c (createAndFillHdr INVITE recv.gid recv.uid 0)] := by
  cases e with
  | accept =>
      obtain ⟨rfl, -⟩ := step_accept hstep
      exact absurd hmem List.not_mem_nil
  | closed d =>
      obtain ⟨me, -, rfl, -⟩ := step_closed hstep
      exact absurd hmem List.not_mem_nil
  | received d recv heap =>
      obtain ⟨me, -, hswitch⟩ := step_switch hstep
      cases switch_sentBy hswitch _ hmem with
      | reply reply =>
          obtain ⟨hdr', heq, -, hne⟩ := reply
          cases heq
          exact absurd hcmd hne
      | copy key d' hdr' online call cmd => exact absurd (cmd.symm.trans hcmd) (by decide)
      | invitation key peer hdr' request online cmd =>
          rw [switch_invite request] at hswitch
          cases onInvite_run hswitch with
          | refused idle => exact absurd hmem List.not_mem_nil
          | missed check member name find offline => exact absurd hmem List.not_mem_nil
          | passed check member name find pos online' =>
              have hpacket := List.mem_singleton.mp hmem
              cases hpacket
              exact ⟨d, recv, heap, _, rfl, request, rfl,
                ⟨check, member, _, _, name, find, pos, online'⟩, rfl⟩

/-- An invitation that is sent on a connection is one of the account that the connection has logged
in as, if it is the only one. -/
theorem invited_of_sent {credential : CredentialFile} {disk : Disk}
    (run : Lts.Run step (Server.start credential disk) h s) {k : Int}
    (hlogin : loginsOn c h = [(c, k)]) (hsmall : k < 2 ^ 16)
    (hmem : .packet c hdr ∈ sentTo c h) (hcmd : hdr.cmd = INVITE) :
    Invited h hdr.gid (UInt16.ofInt k) := by
  obtain ⟨x, hx, hpacket⟩ := List.mem_flatMap.mp hmem
  obtain ⟨h₁, h₂, rfl⟩ := List.append_of_mem hx
  obtain ⟨hbefore, htaken⟩ := run.before
  obtain ⟨d, recv, heap, peerId, hevent, hrequest, hgid, checked, hout⟩ :=
    invitation_of_step htaken (List.mem_filter.mp hpacket).1 hcmd
  obtain ⟨-, member, username, f, -, -, hpos, hlookup⟩ := id checked
  obtain ⟨k', hk', hkey⟩ := registered_of_run hbefore _ _ hlookup
  have hlater : (c, k') ∈ loginsOn c (h₁ ++ x :: h₂) := by
    rw [loginsOn, logins, List.filterMap_append, List.filter_append]
    exact List.mem_append_left _ hk'
  rw [hlogin] at hlater
  obtain rfl := (Prod.mk.inj (List.mem_singleton.mp hlater)).2
  have huid : ((UInt16.ofInt k').toNat : Int) = peerId := by
    rw [UInt16.ofInt, UInt16.toNat_ofNat']
    omega
  refine ⟨x, hx, d, recv, heap, c, hevent, hrequest, hgid, huid ▸ checked, hgid ▸ member, ?_⟩
  rw [← hgid]
  exact hout

end Server

/-! ## Runs -/

/-- The answers on a connection and the invitations that its client has read. -/
def AnsweredOn (c : ConnId) (h : List ApplicationTaken) (process : Process) : Prop :=
  ((writtenOn c (networkHistory h) ++ process.outgoing).filterMap answerOf ++
    process.invitations).Sublist ((readBy c (networkHistory h)).filterMap invitationOf)

section Runs

variable {fuel : Nat} {credential : CredentialFile} {disk : Disk}
  {input : ConnId → List Byte} {answer : ConnId → Byte} {h : List ApplicationTaken}
  {s : Application}

theorem answered_of_run
    (run : Lts.Run (Application.step fuel) (.start credential disk input answer) h s)
    (c : ConnId) : AnsweredOn c h (s.clients c) := by
  apply client_of_run run
  · exact List.Sublist.refl []
  · intro h x process _ unwritten unread answered
    rw [AnsweredOn, written_append, read_append, unwritten, unread, List.append_nil, List.append_nil]
    exact answered
  · intro h x pe act _ next written read answered
    have hstep : Answered _ _ act := Process.answered_of_next next
    rw [AnsweredOn, List.filterMap_append] at answered
    rw [AnsweredOn, written_append, read_append, written, read, List.append_assoc,
      List.filterMap_append (f := answerOf), List.filterMap_append (f := invitationOf),
      List.append_assoc]
    refine ((List.Sublist.refl _).append hstep).trans ?_
    rw [← List.append_assoc, ← List.append_assoc]
    exact answered.append (List.Sublist.refl _)

/-- The accounts that have logged in have a `uint16_t`. -/
def SmallAccounts (h : List Taken) : Prop := ∀ p ∈ logins h, p.2 < 2 ^ 16

/-- Whoever joins a group has read an invitation, and so was invited. -/
theorem joinsInvited_of_answered
    (run : Lts.Run (Application.step fuel) (.start credential disk input answer) h s)
    {c : ConnId} {recv : Packet} {rest : List Packet} (hnext : s.network.toServer c = recv :: rest)
    (hcmd : recv.cmd = INVITE_RESP) (hsmall : SmallAccounts (serverSteps h)) :
    Invited (serverSteps h) recv.gid recv.uid := by
  have hlinked := links (network_run run)
  have hwritten : recv ∈ writtenOn c (networkHistory h) := by
    rw [← hlinked.toServer, hnext]
    exact List.mem_append_right _ List.mem_cons_self
  have hanswer : recv.gid ∈ (writtenOn c (networkHistory h) ++ (s.clients c).outgoing).filterMap
      answerOf := by
    rw [List.filterMap_append]
    exact List.mem_append_left _ (List.mem_filterMap.mpr ⟨recv, hwritten, if_pos hcmd⟩)
  obtain ⟨y, hy, hgid⟩ := List.mem_filterMap.mp
    ((answered_of_run run c).subset (List.mem_append_left _ hanswer))
  have hsent : y ∈ sentTo c (serverSteps h) := by
    rw [serverSteps, ← hlinked.toClient]
    exact List.mem_append_left _ hy
  cases y with
  | file fd gid uid content => cases hgid
  | packet fd hdr =>
      rw [invitationOf] at hgid
      split at hgid
      · rename_i hinvite
        obtain ⟨x, -, hx⟩ := List.mem_flatMap.mp hsent
        obtain rfl : fd = c := of_decide_eq_true (List.mem_filter.mp hx).2
        have place := (placed_of_run run).place fd
        rw [hnext] at place
        rcases place.session with hcmd' | hcmd' | session
        · exact absurd (hcmd'.symm.trans hcmd) (by decide)
        · exact absurd (hcmd'.symm.trans hcmd) (by decide)
        · obtain ⟨k, hlogin, hk⟩ := session.login
          have hmem : (fd, k) ∈ loginsOn fd (serverSteps h) := hlogin ▸ List.mem_cons_self
          have hlt : k < 2 ^ 16 := hsmall (fd, k) (List.mem_filter.mp hmem).1
          have hinvited := invited_of_sent (serverSteps_run run) hlogin hlt hsent hinvite
          rw [hk, Option.some.inj hgid] at hinvited
          exact hinvited
      · cases hgid

/-- At the start there are no groups. -/
theorem byInvitation_start (credential : CredentialFile) (disk : Disk) :
    ByInvitation [] (Server.start credential disk) := by
  intro gid l hl uid huid
  have hnil : l = [] := (Vector.mem_replicate.mp (Vector.mem_of_getElem? hl)).2
  rw [hnil] at huid
  exact absurd huid List.not_mem_nil

theorem byInvitation_of_run
    (run : Lts.Run (Application.step fuel) (.start credential disk input answer) h s)
    (hsmall : SmallAccounts (serverSteps h)) : ByInvitation (serverSteps h) s.network.server := by
  have hjoins : Lts.Along step (Server.start credential disk) (Lts.events (serverSteps h))
      fun h s e => SmallAccounts h → JoinsInvited h s e := by
    refine along_serverSteps (fun h s e sent s' run taken hevent hsmall => ?_) run
    rintro c recv heap rfl hcmd -
    obtain ⟨rest, hnext⟩ := hevent c recv heap rfl
    exact joinsInvited_of_answered run hnext hcmd hsmall
  have hall : Lts.Throughout step (Server.start credential disk) (Lts.events (serverSteps h))
      fun h s => SmallAccounts h → ByInvitation h s := by
    refine Lts.throughout_of_along (fun _ => byInvitation_start credential disk) ?_ hjoins
    intro h s e sent s' _ hby hjoins taken hsmall
    have hsmall' : SmallAccounts h := by
      intro p hp
      refine hsmall p ?_
      rw [logins_append]
      exact List.mem_append_left _ hp
    exact (byInvitation_step_iff (hby hsmall') taken).mpr (hjoins hsmall')
  exact hall (serverSteps h) s.network.server (serverSteps_run run) (List.prefix_refl _) hsmall

/-- In every run of the application the answers to invitations belong to invitations that were read,
in their order and each of them to one, and membership is by invitation. -/
theorem invitations_answered (fuel : Nat) (credential : CredentialFile) (disk : Disk)
    (input : ConnId → List Byte) (answer : ConnId → Byte) (es : List ApplicationEvent) :
    Lts.Throughout (Application.step fuel) (.start credential disk input answer) es
      InvitationsAnswered := by
  intro h s run _
  constructor
  · intro c
    have answered := answered_of_run run c
    rw [AnsweredOn, ← (links (network_run run)).toServer] at answered
    exact answered
  · exact byInvitation_of_run run

end Runs

end GroupChat
