import GroupChat.Network
import GroupChat.Server.Delivery
import GroupChat.Server.Forwarding

/-!
# The chats of a group come in one order

The server puts the chats of a group, and the notices of its uploads, in one order, that of its
calls of `forward_to_group` (`chatLog`), and sends each of them to a connection as often as the
registry maps members of the group to it (`copies_of_run`). So what a client that is logged in as
one member reads of a group is in that order, without repetitions (`chats_in_order`), and clients
that are online over a part of a run get the same chats in it, all of them (`members_agree`).
-/

namespace GroupChat

open Posix

/-- The packet that a step passes to `forward_to_group`. -/
def forwarded (x : Taken) : Option Mainhdr :=
  match x.event with
  | .received _ recv _ =>
    if recv.cmd = SEND_CHAT then
      match chatCall x.pre recv.toMainhdr with
      | .ok (sendPacket, _) => sendPacket
      | .error _ => none
    else if recv.cmd = SEND_FILE then
      match fileCall x.pre recv.toMainhdr with
      | .ok (sendPacket, _) => sendPacket
      | .error _ => none
    else none
  | _ => none

/-- The packet that a step passes to `forward_to_group` for this group. -/
def forwardedTo (gid : UInt8) (x : Taken) : List Mainhdr :=
  ((forwarded x).filter fun hdr => hdr.gid = gid).toList

/-- The chats of a group in the order of the server. -/
def chatLog (gid : UInt8) (h : List Taken) : List Mainhdr := h.flatMap (forwardedTo gid)

/-- A chat of the group. -/
def chatOf (gid : UInt8) : Sent → Option Mainhdr
  | .packet _ hdr => if hdr.cmd = SEND_CHAT ∧ hdr.gid = gid then some hdr else none
  | .file .. => none

/-- The chats of a group that the server has sent on the connection. -/
def chatsTo (gid : UInt8) (d : ConnId) (h : List Taken) : List Mainhdr :=
  (sentTo d h).filterMap (chatOf gid)

/-- The chats of a group that the client has read. -/
def chatsRead (gid : UInt8) (d : ConnId) (h : List NetworkTaken) : List Mainhdr :=
  (readBy d h).filterMap (chatOf gid)

/-! ## One step of the server -/

section Step

variable {s s' : Server} {c d : ConnId} {me : ClientThread} {recv : Mainhdr} {heap : Byte × Byte}
  {sent : List Sent} {gid : UInt8} {sendPacket : Mainhdr} {members : List UInt16}

/-- The copies on a connection are as many as there are members mapped to it. -/
theorem copies_of_loop (hcmd : sendPacket.cmd = SEND_CHAT) (hgid : sendPacket.gid = gid)
    (members : List UInt16) (d : ConnId) :
    ((members.filterMap fun uid => (s.activeSockets.lookup uid.toNat).map fun d =>
        Sent.packet d sendPacket).filter fun x => x.connfd = d).filterMap (chatOf gid) =
      List.replicate (members.countP fun uid => s.activeSockets.lookup uid.toNat = some d)
        sendPacket := by
  induction members with
  | nil => rfl
  | cons uid next ih =>
      rw [List.filterMap_cons]
      by_cases hd : s.activeSockets.lookup uid.toNat = some d
      · have hchat : chatOf gid (.packet d sendPacket) = some sendPacket :=
          if_pos ⟨hcmd, hgid⟩
        rw [List.countP_cons_of_pos (by simpa using hd), List.replicate_succ, ← ih]
        simp only [hd, Option.map_some]
        have hconn : (Sent.packet d sendPacket).connfd = d := rfl
        rw [List.filter_cons_of_pos (by simpa using hconn), List.filterMap_cons_some hchat]
      · rw [List.countP_cons_of_neg (by simpa using hd), ← ih]
        cases hlookup : s.activeSockets.lookup uid.toNat with
        | none => rfl
        | some d' =>
            have hne : d' ≠ d := fun h => hd (h ▸ hlookup)
            simp only [Option.map_some]
            have hconn : (Sent.packet d' sendPacket).connfd ≠ d := hne
            rw [List.filter_cons_of_neg (by simpa using hconn)]

/-- Packets that are no chats of the group do not count. -/
theorem no_copies (hno : ∀ x ∈ sent, chatOf gid x = none) :
    (sent.filter fun x => x.connfd = d).filterMap (chatOf gid) = [] := by
  rw [List.filterMap_eq_nil_iff]
  exact fun x hx => hno x (List.mem_of_mem_filter hx)

theorem chatOf_of_ne {hdr : Mainhdr} (hcmd : hdr.cmd ≠ SEND_CHAT) :
    chatOf gid (.packet c hdr) = none := if_neg fun h => hcmd h.1

theorem chatOf_reply {x : Sent} (hreply : IsReply c x) : chatOf gid x = none := by
  obtain ⟨hdr, rfl, hchat, -⟩ := hreply
  exact chatOf_of_ne hchat

/-- A call of `forward_to_group` leaves the groups and the registry to the members as they are. -/
theorem forwardCall_copies {s₁ : Server} (hgroups : s₁.groups = s.groups)
    (hsockets : s₁.activeSockets = s.activeSockets)
    (hnodup : ∀ members, s.groups[gid.toNat]? = some members → members.Nodup)
    {call : Option Mainhdr} (hchat : ∀ hdr ∈ call, hdr.cmd = SEND_CHAT)
    (h : forwardCall (call, s₁) = .ok (sent, s')) (d : ConnId) :
    (sent.filter fun x => x.connfd = d).filterMap (chatOf gid) =
      ((call.filter fun hdr => hdr.gid = gid).toList).flatMap
        (List.replicate (membersOn s gid d).card) := by
  cases call with
  | none =>
      cases h
      rfl
  | some sendPacket =>
      obtain ⟨sent', hforward, h⟩ := bind_eq_ok.mp h
      cases h
      obtain ⟨members, hmembers, hloop⟩ := bind_eq_ok.mp hforward
      rw [groupAt_eq_ok, hgroups] at hmembers
      obtain ⟨-, rfl⟩ := forwardLoop_eq_ok.mp hloop
      rw [hsockets]
      by_cases hgid : sendPacket.gid = gid
      · subst hgid
        have hpassed : Option.filter (fun hdr : Mainhdr => hdr.gid = sendPacket.gid) (some sendPacket) =
            some sendPacket := Option.filter_some_pos (decide_eq_true rfl)
        rw [copies_of_loop (hchat _ rfl) rfl, countP_eq_card hmembers (hnodup members hmembers),
          hpassed]
        exact (List.flatMap_singleton _ _).symm
      · rw [no_copies]
        · simp [hgid]
        · intro x hx
          obtain ⟨uid, -, hx⟩ := List.mem_filterMap.mp hx
          obtain ⟨d', -, rfl⟩ := Option.map_eq_some_iff.mp hx
          exact if_neg fun h => hgid h.2

/-- A packet with any other command passes nothing to a group. -/
theorem forwardedTo_other (hchat : recv.cmd ≠ SEND_CHAT) (hfile : recv.cmd ≠ SEND_FILE)
    {p : Packet} (hp : p.toMainhdr = recv) (gid : UInt8) (sent : List Sent) (s' : Server) :
    forwardedTo gid ⟨s, .received c p heap, sent, s'⟩ = [] := by
  subst hp
  rw [forwardedTo, forwarded]
  dsimp only
  rw [if_neg hchat, if_neg hfile]
  rfl

/-- What its handler sends is no chat. -/
theorem chatOf_other (hchat : recv.cmd ≠ SEND_CHAT) (hfile : recv.cmd ≠ SEND_FILE)
    (h : switch s c me recv heap = .ok (sent, s')) (gid : UInt8) :
    ∀ x ∈ sent, chatOf gid x = none := by
  intro x hx
  cases switch_sentBy h x hx with
  | reply hreply => exact chatOf_reply hreply
  | invitation key peer hdr request online cmd =>
      have hcmd : INVITE ≠ SEND_CHAT := by decide
      exact chatOf_of_ne (cmd ▸ hcmd)
  | copy key d hdr online call cmd =>
      rcases call with hcall | hcall
      · exact absurd hcall hchat
      · exact absurd hcall hfile
  | file gid' uid content => rfl

/-- A step puts what it passes to the group on a connection once for each member mapped to it. -/
theorem copies_of_step {e : Event} (h : step s e = .ok (sent, s'))
    (hnodup : ∀ members, s.groups[gid.toNat]? = some members → members.Nodup) (d : ConnId) :
    (sent.filter fun x => x.connfd = d).filterMap (chatOf gid) =
      (forwardedTo gid ⟨s, e, sent, s'⟩).flatMap (List.replicate (membersOn s gid d).card) := by
  cases e with
  | accept =>
      obtain ⟨rfl, -⟩ := step_accept h
      rfl
  | closed c =>
      obtain ⟨me, -, rfl, -⟩ := step_closed h
      rfl
  | received c recv heap =>
      obtain ⟨me, -, hswitch⟩ := step_switch h
      by_cases hchat : recv.cmd = SEND_CHAT
      · rw [switch_sendChat hchat, onSendChat_eq] at hswitch
        obtain ⟨⟨call, s₁⟩, hcall, hforward⟩ := bind_eq_ok.mp hswitch
        obtain ⟨hgroups, hsockets, hcmd⟩ := chatCall_same hcall
        have hpassed : forwarded ⟨s, .received c recv heap, sent, s'⟩ = call := by
          rw [forwarded]
          dsimp only
          rw [if_pos hchat, hcall]
        rw [forwardedTo, hpassed]
        exact forwardCall_copies hgroups hsockets hnodup hcmd hforward d
      by_cases hfile : recv.cmd = SEND_FILE
      · rw [switch_sendFile hfile, onSendFile_eq] at hswitch
        obtain ⟨⟨call, s₁⟩, hcall, hforward⟩ := bind_eq_ok.mp hswitch
        obtain ⟨hgroups, hsockets, hcmd⟩ := fileCall_same hcall
        have hpassed : forwarded ⟨s, .received c recv heap, sent, s'⟩ = call := by
          rw [forwarded]
          dsimp only
          rw [if_neg hchat, if_pos hfile, hcall]
        rw [forwardedTo, hpassed]
        exact forwardCall_copies hgroups hsockets hnodup hcmd hforward d
      · rw [no_copies (chatOf_other hchat hfile hswitch gid),
          forwardedTo_other hchat hfile rfl gid sent s']
        rfl

end Step

/-! ## Runs -/

/-- What the calls of a run have put on a connection. -/
def copiesTo (gid : UInt8) (d : ConnId) (h : List Taken) : List Mainhdr :=
  h.flatMap fun x => (forwardedTo gid x).flatMap (List.replicate (membersOn x.pre gid d).card)

/-- The links of the network, and the chats of a group on them. -/
structure ChatsInOrder (h : List NetworkTaken) (s : Network) : Prop where
  linked : LinksKept h s
  /-- what a client has read and what is on its way to it -/
  copies : ∀ gid d,
    (readBy d h ++ s.toClient d).filterMap (chatOf gid) = copiesTo gid d (serverHistory h)
  /-- a client that is logged in as one member at most reads a part of the log, in its order -/
  ordered : ∀ gid d, (∀ x ∈ serverHistory h, (membersOn x.pre gid d).card ≤ 1) →
    (chatsRead gid d h).Sublist (chatLog gid (serverHistory h))
  /-- a client that has never been a member online reads nothing of the group -/
  outsider : ∀ gid d, (∀ x ∈ serverHistory h, membersOn x.pre gid d = ∅) →
    chatsRead gid d h = []

/-- Where a client is online as one member, it gets the log. -/
def MembersAgree (h : List NetworkTaken) (s : Network) : Prop :=
  ∀ gid c h₁ h₂, h = h₁ ++ h₂ → (∀ x ∈ serverHistory h₂, (membersOn x.pre gid c).card = 1) →
    (readBy c h ++ s.toClient c).filterMap (chatOf gid) =
      chatsTo gid c (serverHistory h₁) ++ chatLog gid (serverHistory h₂)

section Runs

variable {credential : CredentialFile} {disk : Disk}
  {gid : UInt8} {d : ConnId}

theorem chatsTo_append (gid : UInt8) (d : ConnId) (h h' : List Taken) :
    chatsTo gid d (h ++ h') = chatsTo gid d h ++ chatsTo gid d h' := by
  rw [chatsTo, sentTo_append, List.filterMap_append]
  rfl

theorem copiesTo_append (gid : UInt8) (d : ConnId) (h h' : List Taken) :
    copiesTo gid d (h ++ h') = copiesTo gid d h ++ copiesTo gid d h' := List.flatMap_append

theorem copies_of_run {h : List Taken} {s : Server}
    (run : Lts.Run step (Server.start credential disk) h s) (gid : UInt8) (d : ConnId) :
    chatsTo gid d h = copiesTo gid d h := by
  induction run with
  | start => rfl
  | @next h s s' e sent run taken ih =>
      have hnodup : ∀ members, s.groups[gid.toNat]? = some members → members.Nodup :=
        fun members hg => nodup_of_run run hg
      have hone := copies_of_step taken hnodup d
      have hsent : chatsTo gid d [⟨s, e, sent, s'⟩] =
          (sent.filter fun x => x.connfd = d).filterMap (chatOf gid) :=
        congrArg (List.filterMap (chatOf gid)) (List.flatMap_singleton _ _)
      have hcopies : copiesTo gid d [⟨s, e, sent, s'⟩] =
          (forwardedTo gid ⟨s, e, sent, s'⟩).flatMap (List.replicate (membersOn s gid d).card) :=
        List.flatMap_singleton _ _
      rw [chatsTo_append, copiesTo_append, ih, hsent, hcopies, hone]

theorem flatMap_replicate_sublist {n : Nat} (hn : n ≤ 1) (l : List Mainhdr) :
    (l.flatMap (List.replicate n)).Sublist l := by
  induction l with
  | nil => exact List.Sublist.refl []
  | cons hdr l ih =>
      rw [List.flatMap_cons]
      have hone : (List.replicate n hdr).Sublist [hdr] :=
        List.replicate_sublist_replicate hdr |>.mpr hn
      exact hone.append ih

theorem flatMap_replicate_one (l : List Mainhdr) : l.flatMap (List.replicate 1) = l := by
  induction l with
  | nil => rfl
  | cons hdr l ih =>
      rw [List.flatMap_cons, ih]
      rfl

theorem copiesTo_sublist {h : List Taken} (hone : ∀ x ∈ h, (membersOn x.pre gid d).card ≤ 1) :
    (copiesTo gid d h).Sublist (chatLog gid h) := by
  induction h with
  | nil => exact List.Sublist.refl []
  | cons x h ih =>
      rw [copiesTo, chatLog, List.flatMap_cons, List.flatMap_cons]
      exact (flatMap_replicate_sublist (hone x List.mem_cons_self) _).append
        (ih fun y hy => hone y (List.mem_cons_of_mem _ hy))

theorem copiesTo_online {h : List Taken} (hone : ∀ x ∈ h, (membersOn x.pre gid d).card = 1) :
    copiesTo gid d h = chatLog gid h :=
  List.flatMap_congr fun x hx => by rw [hone x hx, flatMap_replicate_one]

theorem copiesTo_offline {h : List Taken} (hnone : ∀ x ∈ h, membersOn x.pre gid d = ∅) :
    copiesTo gid d h = [] := by
  refine List.flatMap_eq_nil_iff.mpr fun x hx => ?_
  rw [hnone x hx, Finset.card_empty]
  exact List.flatMap_eq_nil_iff.mpr fun hdr _ => rfl

/-- In every run of the network the chats of a group come in the order of the server, on every
connection as often as members of the group are mapped to it. -/
theorem chats_in_order (credential : CredentialFile) (disk : Disk) (es : List NetworkEvent) :
    Lts.Throughout Network.step (.start credential disk) es ChatsInOrder := by
  intro h s run _
  have hlinked := links run
  have hcopies : ∀ gid d, (readBy d h ++ s.toClient d).filterMap (chatOf gid) =
      copiesTo gid d (serverHistory h) := by
    intro gid d
    rw [hlinked.toClient]
    exact copies_of_run (server_run run) gid d
  have hread : ∀ gid d, (chatsRead gid d h).Sublist (copiesTo gid d (serverHistory h)) := by
    intro gid d
    rw [← hcopies, List.filterMap_append]
    exact List.sublist_append_left _ _
  refine ⟨hlinked, hcopies, fun gid d hone => ?_, fun gid d hnone => ?_⟩
  · exact (hread gid d).trans (copiesTo_sublist hone)
  · exact List.sublist_nil.mp (copiesTo_offline hnone ▸ hread gid d)

/-- In every run of the network, over every part of it: whoever is online as one member gets all
chats of the group in that part, in the order of the server. -/
theorem members_agree (credential : CredentialFile) (disk : Disk) (es : List NetworkEvent) :
    Lts.Throughout Network.step (.start credential disk) es MembersAgree := by
  rintro h s run - gid c h₁ h₂ rfl hone
  have hbefore : chatsTo gid c (serverHistory h₁) = copiesTo gid c (serverHistory h₁) := by
    cases h₂ with
    | nil => exact copies_of_run (server_run (List.append_nil h₁ ▸ run)) gid c
    | cons x h₂ => exact copies_of_run (server_run run.before.1) gid c
  have hall : chatsTo gid c (serverHistory (h₁ ++ h₂)) = copiesTo gid c (serverHistory (h₁ ++ h₂)) :=
    copies_of_run (server_run run) gid c
  rw [serverHistory_append, copiesTo_append, copiesTo_online hone, ← hbefore,
    ← serverHistory_append] at hall
  rw [(links run).toClient]
  exact hall

end Runs

end GroupChat
