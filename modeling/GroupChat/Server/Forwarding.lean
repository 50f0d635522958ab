import GroupChat.Server.Identity
import GroupChat.Server.Store

/-!
# Who speaks to a group

Two handlers call `forward_to_group`: `chatCall` and `fileCall` are what they do up to the call,
with the packet they pass. The handler of `SEND_CHAT` looks for the sender in the group first,
that of `SEND_FILE` does not, so a chat always comes from a member (`chatCall_member`) and an
upload may come from anyone. `membersSpeak_iff` says that only members speak to a group in
exactly the runs in which every upload comes from a member.
-/

namespace GroupChat

open Posix

/-- The `SEND_CHAT` case up to the call of `forward_to_group`, with the packet passed if it is
called. -/
def chatCall (s : Server) (recv : Mainhdr) : Except Fault (Option Mainhdr × Server) :=
  if checkHeaderChat recv ≠ 0 then .ok (none, s)
  else do
    let group ← s.groupAt recv.gid
    if group = [] then return (none, s)
    else if (← checkUserInGroup recv.uid recv.gid s) ≠ 0 then return (none, s)
    else
      let (len, username, credential) ←
        findUsername recv.uid (List.replicate MAX_CHAR_USERID 0) s.credential
      let s := { s with credential := credential }
      if len ≤ 0 then return (none, s)
      else if 2 ^ 32 ≤ recv.len.toNat + len.toNat + 1 then throw .outOfBounds
      else return (some (chatPacket recv (← cstr username)), s)

/-- The `SEND_FILE` case up to the call of `forward_to_group`. -/
def fileCall (s : Server) (recv : Mainhdr) : Except Fault (Option Mainhdr × Server) := do
  let filename := fileFormat recv.gid s.fileCnt
  let s ← storeUpload s recv
  let (len, username, credential) ←
    findUsername recv.uid (List.replicate MAX_CHAR_USERID 0) s.credential
  return (some (filePacket recv len (← cstr username) filename),
    { s with credential := credential })

/-- The rest of the two handlers. -/
def forwardCall (call : Option Mainhdr × Server) : Except Fault (List Sent × Server) :=
  match call.1 with
  | none => .ok ([], call.2)
  | some sendPacket => do
    let sent ← forwardToGroup call.2 sendPacket.gid sendPacket
    return (sent, call.2)

section Calls

variable {s s' : Server} {recv : Mainhdr} {sendPacket : Mainhdr} {sent : List Sent}

theorem onSendChat_eq (s : Server) (recv : Mainhdr) :
    onSendChat s recv = chatCall s recv >>= forwardCall := by
  rw [onSendChat, chatCall]
  by_cases hcheck : checkHeaderChat recv ≠ 0
  · rw [if_pos hcheck, if_pos hcheck]
    rfl
  rw [if_neg hcheck, if_neg hcheck]
  cases hgroup : s.groupAt recv.gid with
  | error fault => rfl
  | ok group =>
      simp only [bind, Except.bind]
      by_cases hnil : group = []
      · simp only [if_pos hnil]
        rfl
      · simp only [if_neg hnil]
        cases checkUserInGroup recv.uid recv.gid s with
        | error fault => rfl
        | ok found =>
            simp only
            by_cases hfound : found ≠ 0
            · simp only [if_pos hfound]
              rfl
            · simp only [if_neg hfound]
              cases findUsername recv.uid (List.replicate MAX_CHAR_USERID 0) s.credential with
              | error fault => rfl
              | ok result =>
                  obtain ⟨len, username, credential⟩ := result
                  simp only
                  by_cases hlen : len ≤ 0
                  · simp only [if_pos hlen]
                    rfl
                  · simp only [if_neg hlen]
                    by_cases hwrap : 2 ^ 32 ≤ recv.len.toNat + len.toNat + 1
                    · simp only [if_pos hwrap]
                      rfl
                    · simp only [if_neg hwrap]
                      cases cstr username <;> rfl

theorem onSendFile_eq (s : Server) (recv : Mainhdr) :
    onSendFile s recv = fileCall s recv >>= forwardCall := by
  rw [onSendFile, fileCall]
  cases storeUpload s recv with
  | error fault => rfl
  | ok s₁ =>
      simp only [bind, Except.bind]
      cases findUsername recv.uid (List.replicate MAX_CHAR_USERID 0) s₁.credential with
      | error fault => rfl
      | ok result =>
          obtain ⟨len, username, credential⟩ := result
          simp only
          cases cstr username <;> rfl

/-- What the handler of an upload has done when it comes to the call. -/
theorem fileCall_run {call : Option Mainhdr} {s₁ : Server} (h : fileCall s recv = .ok (call, s₁)) :
    ∃ len buf username credential, s.fileCnt + 1 < 2 ^ 31 ∧
      findUsername recv.uid (List.replicate MAX_CHAR_USERID 0) s.credential =
        .ok (len, buf, credential) ∧ cstr buf = .ok username ∧
      call = some (filePacket recv len username (fileFormat recv.gid s.fileCnt)) ∧
      s₁ = { s with
        fileCnt := s.fileCnt + 1
        files := s.files.insert (fileFormat recv.gid s.fileCnt) (storedContent recv)
        credential := credential } := by
  obtain ⟨stored, hstore, h⟩ := bind_eq_ok.mp h
  obtain ⟨hfits, rfl⟩ := storeUpload_eq_ok.mp hstore
  obtain ⟨⟨len, buf, credential⟩, hfind, h⟩ := bind_eq_ok.mp h
  obtain ⟨username, hstring, h⟩ := bind_eq_ok.mp h
  cases h
  exact ⟨len, buf, username, credential, hfits, hfind, hstring, rfl, rfl⟩

/-- The check of the sender's place in a group finds out whether it is a member. -/
theorem member_of_check {uid : UInt16} {gid : UInt8} {found : Int}
    (h : checkUserInGroup uid gid s = .ok found) : found = 0 ↔ Member s gid uid := by
  obtain ⟨g, hg, -⟩ := bind_eq_ok.mp h
  rw [groupAt_eq_ok] at hg
  rw [checkUserInGroup_of_group hg] at h
  rw [member_iff hg, ← Except.ok.inj h]
  by_cases hmem : uid ∈ g
  · rw [if_pos hmem]
    exact iff_of_true rfl hmem
  · rw [if_neg hmem]
    exact iff_of_false (by decide) hmem

/-- What the handler of a chat has found when it comes to the call. -/
theorem chatCall_run {s₁ : Server} (h : chatCall s recv = .ok (some sendPacket, s₁)) :
    ∃ len buf username credential, Member s recv.gid recv.uid ∧
      findUsername recv.uid (List.replicate MAX_CHAR_USERID 0) s.credential =
        .ok (len, buf, credential) ∧ 0 < len ∧ cstr buf = .ok username ∧
      sendPacket = chatPacket recv username := by
  rw [chatCall] at h
  split at h
  · cases h
  · obtain ⟨group, -, h⟩ := bind_eq_ok.mp h
    split at h
    · cases h
    · obtain ⟨found, hfound, h⟩ := bind_eq_ok.mp h
      split at h
      · cases h
      · rename_i hzero
        obtain ⟨⟨len, buf, credential⟩, hfind, h⟩ := bind_eq_ok.mp h
        simp only at h
        split at h
        · cases h
        · rename_i hpos
          split at h
          · cases h
          · obtain ⟨username, hstring, h⟩ := bind_eq_ok.mp h
            cases h
            exact ⟨len, buf, username, credential, (member_of_check hfound).mp (not_not.mp hzero),
              hfind, Int.not_le.mp hpos, hstring, rfl⟩

/-- A chat is passed on for a member of the group only. -/
theorem chatCall_member {s₁ : Server} (h : chatCall s recv = .ok (some sendPacket, s₁)) :
    sendPacket.gid = recv.gid ∧ Member s recv.gid recv.uid := by
  obtain ⟨len, buf, username, credential, hmember, -, -, -, rfl⟩ := chatCall_run h
  exact ⟨rfl, hmember⟩

/-- An upload is always passed on. -/
theorem fileCall_some {call : Option Mainhdr × Server} (h : fileCall s recv = .ok call) :
    ∃ sendPacket, call.1 = some sendPacket ∧ sendPacket.gid = recv.gid := by
  obtain ⟨passed, s₁⟩ := call
  obtain ⟨len, buf, username, credential, -, -, -, rfl, -⟩ := fileCall_run h
  exact ⟨_, rfl, rfl⟩

/-- Up to the call the groups and the registry stay as they are, and the packet is a chat. -/
theorem chatCall_same {call : Option Mainhdr} {s₁ : Server} (h : chatCall s recv = .ok (call, s₁)) :
    s₁.groups = s.groups ∧ s₁.activeSockets = s.activeSockets ∧
      ∀ hdr ∈ call, hdr.cmd = SEND_CHAT := by
  have hnone : ∀ hdr ∈ (none : Option Mainhdr), hdr.cmd = SEND_CHAT := fun _ hmem => (nomatch hmem)
  rw [chatCall] at h
  split at h
  · cases h
    exact ⟨rfl, rfl, hnone⟩
  · obtain ⟨group, -, h⟩ := bind_eq_ok.mp h
    split at h
    · cases h
      exact ⟨rfl, rfl, hnone⟩
    · obtain ⟨found, -, h⟩ := bind_eq_ok.mp h
      split at h
      · cases h
        exact ⟨rfl, rfl, hnone⟩
      · obtain ⟨⟨len, username, credential⟩, -, h⟩ := bind_eq_ok.mp h
        simp only at h
        split at h
        · cases h
          exact ⟨rfl, rfl, hnone⟩
        · split at h
          · cases h
          · obtain ⟨name, -, h⟩ := bind_eq_ok.mp h
            cases h
            refine ⟨rfl, rfl, fun hdr hmem => ?_⟩
            cases hmem
            rfl

theorem fileCall_same {call : Option Mainhdr} {s₁ : Server} (h : fileCall s recv = .ok (call, s₁)) :
    s₁.groups = s.groups ∧ s₁.activeSockets = s.activeSockets ∧
      ∀ hdr ∈ call, hdr.cmd = SEND_CHAT := by
  obtain ⟨len, buf, username, credential, -, -, -, rfl, rfl⟩ := fileCall_run h
  refine ⟨rfl, rfl, fun hdr hmem => ?_⟩
  cases hmem
  rfl

/-- What is sent then is the packet, on connections in the registry. -/
theorem forwardCall_sent {s₁ : Server} {call : Option Mainhdr}
    (hsockets : s₁.activeSockets = s.activeSockets)
    (h : forwardCall (call, s₁) = .ok (sent, s')) :
    ∀ x ∈ sent, ∃ key d hdr, s.activeSockets.lookup key = some d ∧ hdr ∈ call ∧
      x = .packet d hdr := by
  cases call with
  | none =>
      cases h
      exact fun x hx => absurd hx List.not_mem_nil
  | some sendPacket =>
      obtain ⟨sent', hforward, h⟩ := bind_eq_ok.mp h
      cases h
      obtain ⟨members, -, hloop⟩ := bind_eq_ok.mp hforward
      obtain ⟨-, rfl⟩ := forwardLoop_eq_ok.mp hloop
      intro x hx
      obtain ⟨uid, -, hx⟩ := List.mem_filterMap.mp hx
      obtain ⟨d, hd, rfl⟩ := Option.map_eq_some_iff.mp hx
      exact ⟨uid.toNat, d, sendPacket, hsockets ▸ hd, rfl, rfl⟩

end Calls

/-! ## Only members -/

/-- The handler of the packet passes this one to `forward_to_group`. -/
def PassesToGroup (s : Server) (recv sendPacket : Mainhdr) : Prop :=
  ∃ s₁, recv.cmd = SEND_CHAT ∧ chatCall s recv = .ok (some sendPacket, s₁) ∨
    recv.cmd = SEND_FILE ∧ fileCall s recv = .ok (some sendPacket, s₁)

/-- An answer on the connection of the request. -/
def IsReply (c : ConnId) (x : Sent) : Prop :=
  ∃ hdr, x = .packet c hdr ∧ hdr.cmd ≠ SEND_CHAT ∧ hdr.cmd ≠ INVITE

/-- The handler of the packet creates the file of an upload, whether or not it comes to its end. -/
def CreatesFile (s : Server) (recv : Mainhdr) : Prop :=
  recv.cmd = SEND_FILE ∧ ∃ stored, storeUpload s recv = .ok stored

/-- What is passed to a group comes from a member, and a request of anyone else creates no file,
sends nothing but the answer to itself and leaves the files of the group alone. -/
def OnlyMembersSpeak (_ : List Taken) (s : Server) (e : Event) : Prop :=
  ∀ c recv heap, e = .received c recv heap → (s.thread c).isSome →
    (∀ sendPacket, PassesToGroup s recv.toMainhdr sendPacket → Member s sendPacket.gid recv.uid) ∧
    (¬ Member s recv.gid recv.uid → ¬ CreatesFile s recv.toMainhdr ∧
      ∀ sent s', step s e = .ok (sent, s') → (∀ x ∈ sent, IsReply c x) ∧
        ∀ k, s'.files.lookup (fileFormat recv.gid k) = s.files.lookup (fileFormat recv.gid k))

/-- An upload comes from a member of the group, as long as the number of files is an `int`. -/
def UploadsByMember (_ : List Taken) (s : Server) (e : Event) : Prop :=
  ∀ c recv heap, e = .received c recv heap → (s.thread c).isSome → recv.cmd = SEND_FILE →
    s.fileCnt + 1 < 2 ^ 31 → Member s recv.gid recv.uid

section Replies

variable {s s' : Server} {c : ConnId} {me : ClientThread} {recv : Mainhdr} {heap : Byte × Byte}
  {sent : List Sent}

theorem isReply_of_singleton {hdr : Mainhdr} (cmd : UInt8) (hcmd : hdr.cmd = cmd)
    (hchat : cmd ≠ SEND_CHAT) (hinvite : cmd ≠ INVITE) : ∀ x ∈ [Sent.packet c hdr], IsReply c x := by
  intro x hx
  rw [List.mem_singleton.mp hx]
  exact ⟨hdr, rfl, hcmd ▸ hchat, hcmd ▸ hinvite⟩

theorem isReply_nil : ∀ x ∈ ([] : List Sent), IsReply c x :=
  fun _ hx => absurd hx List.not_mem_nil

theorem onUsrCreate_reply (hcmd : recv.cmd = USR_CREATE)
    (h : onUsrCreate s c recv = .ok (sent, s')) : ∀ x ∈ sent, IsReply c x := by
  obtain ⟨⟨newUid, status, credential⟩, -, h⟩ := bind_eq_ok.mp h
  cases h
  exact isReply_of_singleton _ hcmd (by decide) (by decide)

theorem onUsrLogin_reply (h : onUsrLogin s c me recv = .ok (sent, s')) :
    ∀ x ∈ sent, IsReply c x := by
  cases onUsrLogin_run h with
  | refused login fails => exact isReply_of_singleton USR_LOGIN rfl (by decide) (by decide)
  | entered login pos => exact isReply_of_singleton USR_LOGIN rfl (by decide) (by decide)

theorem onCreateGroup_reply (h : onCreateGroup s c recv = .ok (sent, s')) :
    ∀ x ∈ sent, IsReply c x := by
  cases onCreateGroup_run h with
  | refused zero => exact isReply_of_singleton CREATE_GROUP rfl (by decide) (by decide)
  | created pos k scan => exact isReply_of_singleton CREATE_GROUP rfl (by decide) (by decide)

theorem onActiveList_reply (h : onActiveList s c recv = .ok (sent, s')) :
    ∀ x ∈ sent, IsReply c x := by
  obtain ⟨text, -, h⟩ := bind_eq_ok.mp h
  cases h
  exact isReply_of_singleton ACTIVE_LIST rfl (by decide) (by decide)

/-- An invitation of someone who is not in the group sends nothing. -/
theorem onInvite_silent (hno : ¬ Member s recv.gid recv.uid)
    (h : onInvite s recv = .ok (sent, s')) : sent = [] := by
  cases onInvite_run h with
  | refused idle => rfl
  | missed check member name find offline => rfl
  | passed check member name find pos online => exact absurd member hno

theorem onInviteResp_silent (h : onInviteResp s recv = .ok (sent, s')) : sent = [] :=
  (onInviteResp_run h).1

theorem onSendChat_silent (hno : ¬ Member s recv.gid recv.uid)
    (h : onSendChat s recv = .ok (sent, s')) : sent = [] := by
  cases onSendChat_run h with
  | refused idle => rfl
  | unnamed check member find nameless => rfl
  | forwarded check member find pos string run => exact absurd member hno

theorem onDownloadFile_silent (hno : ¬ Member s recv.gid recv.uid)
    (h : onDownloadFile s c me recv heap = .ok (sent, s')) : sent = [] := by
  cases onDownloadFile_run h with
  | refused outsider => rfl
  | missing member fileId name opened => rfl
  | lists member fileId name opened => exact absurd member hno
  | sends member fileId name opened => exact absurd member hno

/-- How a handler comes to send something. -/
inductive SentBy (s : Server) (c : ConnId) (recv : Mainhdr) : Sent → Prop
  | reply {x : Sent} (reply : IsReply c x) : SentBy s c recv x
  | invitation (key : Nat) (peer : ConnId) (hdr : Mainhdr) (request : recv.cmd = INVITE)
      (online : s.activeSockets.lookup key = some peer) (cmd : hdr.cmd = INVITE) :
      SentBy s c recv (.packet peer hdr)
  /-- `forward_to_group` sends a copy -/
  | copy (key : Nat) (d : ConnId) (hdr : Mainhdr) (online : s.activeSockets.lookup key = some d)
      (call : recv.cmd = SEND_CHAT ∨ recv.cmd = SEND_FILE) (cmd : hdr.cmd = SEND_CHAT) :
      SentBy s c recv (.packet d hdr)
  | file (gid : UInt8) (uid : UInt16) (content : List Byte) (request : recv.cmd = DOWNLOAD_FILE) :
      SentBy s c recv (.file c gid uid content)

theorem switch_sentBy (h : switch s c me recv heap = .ok (sent, s')) :
    ∀ x ∈ sent, SentBy s c recv x := by
  have hreply : (∀ x ∈ sent, IsReply c x) → ∀ x ∈ sent, SentBy s c recv x :=
    fun hall x hx => .reply (hall x hx)
  have hcopy : ∀ {call : Option Mainhdr} {s₁ : Server},
      (s₁.groups = s.groups ∧ s₁.activeSockets = s.activeSockets ∧
        ∀ hdr ∈ call, hdr.cmd = SEND_CHAT) → (recv.cmd = SEND_CHAT ∨ recv.cmd = SEND_FILE) →
      forwardCall (call, s₁) = .ok (sent, s') → ∀ x ∈ sent, SentBy s c recv x := by
    rintro call s₁ ⟨-, hsockets, hchat⟩ hcall hforward x hx
    obtain ⟨key, d, hdr, hd, hmem, rfl⟩ := forwardCall_sent hsockets hforward x hx
    exact .copy key d hdr hd hcall (hchat hdr hmem)
  cases switch_handled h with
  | usrCreate cmd run => exact hreply (onUsrCreate_reply cmd run)
  | usrLogin cmd run => exact hreply (onUsrLogin_reply run)
  | createGroup cmd run => exact hreply (onCreateGroup_reply run)
  | invite cmd run =>
      cases onInvite_run run with
      | refused idle => exact hreply isReply_nil
      | missed check member name find offline => exact hreply isReply_nil
      | passed check member name find pos online =>
          intro x hx
          rw [List.mem_singleton.mp hx]
          exact .invitation _ _ _ cmd online rfl
  | inviteResp cmd run => exact hreply (onInviteResp_silent run ▸ isReply_nil)
  | sendChat cmd run =>
      rw [onSendChat_eq] at run
      obtain ⟨⟨call, s₁⟩, hcall, hforward⟩ := bind_eq_ok.mp run
      exact hcopy (chatCall_same hcall) (Or.inl cmd) hforward
  | activeList cmd run => exact hreply (onActiveList_reply run)
  | sendFile cmd run =>
      rw [onSendFile_eq] at run
      obtain ⟨⟨call, s₁⟩, hcall, hforward⟩ := bind_eq_ok.mp run
      exact hcopy (fileCall_same hcall) (Or.inr cmd) hforward
  | downloadFile cmd run =>
      cases onDownloadFile_run run with
      | refused outsider => exact hreply isReply_nil
      | missing member fileId name opened => exact hreply isReply_nil
      | lists member fileId name opened =>
          exact hreply (isReply_of_singleton SEND_FILE rfl (by decide) (by decide))
      | sends member fileId name opened =>
          intro x hx
          rw [List.mem_singleton.mp hx]
          exact .file _ _ _ cmd
  | unknown login upload idle sent_nil same => exact hreply (sent_nil ▸ isReply_nil)

end Replies

/-! ## The files of a group -/

/-- The name of an upload starts with a digit. -/
theorem fileFormat_ne {b : Byte} (hb : isDigit b = false) (name : List Byte) (gid : UInt8)
    (fileCnt : Nat) : fileFormat gid fileCnt ≠ b :: name := by
  obtain ⟨d, ds, hdecimal⟩ := List.exists_cons_of_ne_nil (decimal_ne_nil gid.toNat)
  intro h
  rw [fileFormat, hdecimal, List.cons_append] at h
  have hd : isDigit d = true := isDigit_of_mem_decimal d (hdecimal ▸ List.mem_cons_self)
  rw [(List.cons.inj h).1, hb] at hd
  cases hd

/-- Nothing but an upload writes a file of a group. -/
theorem Stores.lookup_of_ne {s s' : Server} {recv : Mainhdr} (h : Stores s recv s')
    (hcmd : recv.cmd ≠ SEND_FILE) (gid : UInt8) (k : Nat) :
    s'.files.lookup (fileFormat gid k) = s.files.lookup (fileFormat gid k) := by
  cases h with
  | creates cmd pos scan groups fileCnt files => rw [files]
  | uploads cmd => exact absurd cmd hcmd
  | lists cmd groupCnt fileCnt text files =>
      rw [files]
      exact AList.lookup_insert_ne (fileFormat_ne (by decide) _ gid k)
  | same upload group same => rw [same.files]

/-! ## Runs -/

/-- A request of someone who is not in the group is silent towards the group, unless it is an
upload. -/
theorem outsider_reply {s s' : Server} {c : ConnId} {me : ClientThread} {recv : Mainhdr}
    {heap : Byte × Byte} {sent : List Sent} (hcmd : recv.cmd ≠ SEND_FILE)
    (hno : ¬ Member s recv.gid recv.uid) (h : switch s c me recv heap = .ok (sent, s')) :
    ∀ x ∈ sent, IsReply c x := by
  cases switch_handled h with
  | usrCreate cmd run => exact onUsrCreate_reply cmd run
  | usrLogin cmd run => exact onUsrLogin_reply run
  | createGroup cmd run => exact onCreateGroup_reply run
  | invite cmd run => exact onInvite_silent hno run ▸ isReply_nil
  | inviteResp cmd run => exact onInviteResp_silent run ▸ isReply_nil
  | sendChat cmd run => exact onSendChat_silent hno run ▸ isReply_nil
  | activeList cmd run => exact onActiveList_reply run
  | sendFile cmd run => exact absurd cmd hcmd
  | downloadFile cmd run => exact onDownloadFile_silent hno run ▸ isReply_nil
  | unknown login upload idle sent_nil same => exact sent_nil ▸ isReply_nil

/-- An upload creates its file as long as the number of files is an `int`. -/
theorem createsFile_iff {s : Server} {recv : Mainhdr} :
    CreatesFile s recv ↔ recv.cmd = SEND_FILE ∧ s.fileCnt + 1 < 2 ^ 31 := by
  constructor
  · rintro ⟨hcmd, stored, hstore⟩
    exact ⟨hcmd, (storeUpload_eq_ok.mp hstore).1⟩
  · rintro ⟨hcmd, hfits⟩
    exact ⟨hcmd, _, storeUpload_eq_ok.mpr ⟨hfits, rfl⟩⟩

/-- An upload that is handled has created its file. -/
theorem switch_createsFile {s s' : Server} {c : ConnId} {me : ClientThread} {recv : Mainhdr}
    {heap : Byte × Byte} {sent : List Sent} (hcmd : recv.cmd = SEND_FILE)
    (h : switch s c me recv heap = .ok (sent, s')) : CreatesFile s recv := by
  rw [switch_sendFile hcmd] at h
  obtain ⟨stored, hstore, -⟩ := bind_eq_ok.mp h
  exact ⟨hcmd, stored, hstore⟩

theorem onlyMembersSpeak_iff (h : List Taken) (s : Server) (e : Event) :
    OnlyMembersSpeak h s e ↔ UploadsByMember h s e := by
  constructor
  · rintro hspeak c recv heap rfl hopen hcmd hfits
    by_contra hno
    exact ((hspeak c recv heap rfl hopen).2 hno).1 (createsFile_iff.mpr ⟨hcmd, hfits⟩)
  · rintro hupload c recv heap rfl hopen
    have hcreates : CreatesFile s recv.toMainhdr → Member s recv.gid recv.uid := by
      intro hcreates
      obtain ⟨hcmd, hfits⟩ := createsFile_iff.mp hcreates
      exact hupload c recv heap rfl hopen hcmd hfits
    refine ⟨?_, fun hno => ⟨fun hcreated => hno (hcreates hcreated), ?_⟩⟩
    · rintro sendPacket ⟨s₁, ⟨hcmd, hcall⟩ | ⟨hcmd, hcall⟩⟩
      · obtain ⟨hgid, hmember⟩ := chatCall_member hcall
        exact hgid ▸ hmember
      · obtain ⟨sendPacket', hsome, hgid⟩ := fileCall_some hcall
        obtain rfl := Option.some.inj hsome
        obtain ⟨stored, hstore, -⟩ := bind_eq_ok.mp hcall
        exact hgid ▸ hcreates ⟨hcmd, stored, hstore⟩
    · intro sent s' hstep
      obtain ⟨me, -, hswitch⟩ := step_switch hstep
      have hcmd : recv.cmd ≠ SEND_FILE := fun hcmd =>
        hno (hcreates (switch_createsFile hcmd hswitch))
      exact ⟨outsider_reply hcmd hno hswitch,
        fun k => (switch_stores hswitch).lookup_of_ne hcmd recv.gid k⟩

/-- Only members speak to a group throughout a run exactly when every upload in it comes from a
member. -/
theorem membersSpeak_iff (credential : CredentialFile) (disk : Disk) (es : List Event) :
    Lts.Along step (Server.start credential disk) es OnlyMembersSpeak ↔
      Lts.Along step (Server.start credential disk) es UploadsByMember := by
  constructor
  · intro hspeak h s e run hes
    exact (onlyMembersSpeak_iff h s e).mp (hspeak h s e run hes)
  · intro hupload h s e run hes
    exact (onlyMembersSpeak_iff h s e).mpr (hupload h s e run hes)

/-! ## An upload of an outsider -/

/-- `SEND_FILE` of one byte. -/
def uploadPacket (gid : UInt8) (uid : UInt16) (b : Byte) : Packet :=
  ⟨⟨SEND_FILE, gid, uid, 1, [b]⟩, rfl⟩

/-- `a` creates a group while `b` is online. -/
def groupOfOne : List Event :=
  [.accept, .accept, .received 0 (loginPacket 97) (0, 0), .received 1 (loginPacket 98) (0, 0),
    .received 0 (createGroupPacket 1) (0, 0)]

/-- `b` is not in the group and sends it a file. -/
def outsiderUploads : List Event := groupOfOne ++ [.received 1 (uploadPacket 0 2 120) (0, 0)]

theorem outsider_speaks :
    Lts.Along step (Server.start twoAccounts ∅) outsiderUploads Truthful ∧
      ¬ Lts.Along step (Server.start twoAccounts ∅) outsiderUploads OnlyMembersSpeak := by
  constructor
  · have htruthful : Lts.AlongFrom step Truthful outsiderUploads []
        (Server.start twoAccounts ∅) := by
      decide +kernel
    intro h s e run hes
    exact Lts.along_of_alongFrom Lts.Run.start htruthful run List.nil_prefix hes
  · intro hspeak
    have hrun : Lts.returns (Lts.execute step groupOfOne [] (Server.start twoAccounts ∅))
        (fun r => r.2.groups[0]? = some [1] ∧ (r.2.thread 1).isSome ∧ r.2.fileCnt = 1) = true := by
      decide +kernel
    obtain ⟨⟨h, s⟩, hexec, htest⟩ := Lts.exists_of_returns hrun
    obtain ⟨hgroup, hopen, hcnt⟩ := of_decide_eq_true htest
    have hfits : s.fileCnt + 1 < 2 ^ 31 := by
      change s.fileCnt = 1 at hcnt
      omega
    obtain ⟨run, hevents⟩ := Lts.Run.start.of_execute hexec
    have hprefix : Lts.events h ++ [.received 1 (uploadPacket 0 2 120) (0, 0)] <+: outsiderUploads :=
      hevents ▸ List.prefix_refl _
    have hupload := (onlyMembersSpeak_iff h s _).mp (hspeak h s _ run hprefix)
    obtain ⟨g, hg, hmem⟩ := hupload 1 (uploadPacket 0 2 120) (0, 0) rfl hopen rfl hfits
    obtain rfl : g = [1] := Option.some.inj (hg.symm.trans hgroup)
    exact absurd hmem (by decide)

end GroupChat
