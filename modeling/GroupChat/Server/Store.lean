import GroupChat.Server.Outcome

/-!
# What handling a packet does to the counters and the disk

`switch_stores` is the inversion lemma for the parts of the server that `Outcome` leaves out:
the slot counter, the file counter and the files. Only `CREATE_GROUP` moves the first, only
`SEND_FILE` the second, and only `SEND_FILE` and `ACTIVE_LIST` write a file.
-/

namespace GroupChat

open Posix

structure SameStore (s s' : Server) : Prop where
  groupCnt : s'.groupCnt = s.groupCnt
  fileCnt : s'.fileCnt = s.fileCnt
  files : s'.files = s.files

theorem SameStore.refl (s : Server) : SameStore s s := ⟨rfl, rfl, rfl⟩

inductive Stores (s : Server) (recv : Mainhdr) (s' : Server) : Prop
  /-- the slot counter goes to the slot of the new group -/
  | creates (cmd : recv.cmd = CREATE_GROUP) (pos : 0 < recv.uid)
      (scan : scanGroups s.groups s.groupCnt = .ok s'.groupCnt)
      (groups : s'.groups = s.groups.setIfInBounds s'.groupCnt [recv.uid])
      (fileCnt : s'.fileCnt = s.fileCnt) (files : s'.files = s.files)
  /-- an upload is stored under the next number -/
  | uploads (cmd : recv.cmd = SEND_FILE) (groupCnt : s'.groupCnt = s.groupCnt)
      (fileCnt : s'.fileCnt = s.fileCnt + 1)
      (files : s'.files = s.files.insert (fileFormat recv.gid s.fileCnt) (storedContent recv))
  /-- the names of the users online are written to their file -/
  | lists (cmd : recv.cmd = ACTIVE_LIST) (groupCnt : s'.groupCnt = s.groupCnt)
      (fileCnt : s'.fileCnt = s.fileCnt) (text : List Byte)
      (files : s'.files = s.files.insert ACTIVE_USER_FILE_NAME text)
  | same (upload : recv.cmd ≠ SEND_FILE) (group : recv.cmd = CREATE_GROUP → ¬ 0 < recv.uid)
      (same : SameStore s s')

theorem Stores.of_cmd {s s' : Server} {recv : Mainhdr} {cmd : UInt8} (hcmd : recv.cmd = cmd)
    (hupload : cmd ≠ SEND_FILE) (hgroup : cmd ≠ CREATE_GROUP) (same : SameStore s s') :
    Stores s recv s' :=
  .same (hcmd ▸ hupload) (fun h => absurd (hcmd.symm.trans h) hgroup) same

theorem Stores.groupCnt_of_ne {s s' : Server} {recv : Mainhdr} (h : Stores s recv s')
    (hcmd : recv.cmd ≠ CREATE_GROUP) : s'.groupCnt = s.groupCnt := by
  cases h with
  | creates cmd => exact absurd cmd hcmd
  | uploads cmd groupCnt => exact groupCnt
  | lists cmd groupCnt => exact groupCnt
  | same upload group same => exact same.groupCnt

section Cases

variable {s s' : Server} {c : ConnId} {me : ClientThread} {recv : Mainhdr} {sent : List Sent}

theorem onUsrCreate_same (h : onUsrCreate s c recv = .ok (sent, s')) : SameStore s s' := by
  obtain ⟨⟨newUid, status, credential⟩, -, h⟩ := bind_eq_ok.mp h
  cases h
  exact ⟨rfl, rfl, rfl⟩

theorem onUsrLogin_same (h : onUsrLogin s c me recv = .ok (sent, s')) : SameStore s s' := by
  cases onUsrLogin_run h with
  | refused login fails => exact ⟨rfl, rfl, rfl⟩
  | entered login pos => exact ⟨rfl, rfl, rfl⟩

theorem onInvite_same (h : onInvite s recv = .ok (sent, s')) : SameStore s s' := by
  cases onInvite_run h with
  | refused idle => exact .refl s
  | missed check member name find offline => exact ⟨rfl, rfl, rfl⟩
  | passed check member name find pos online => exact ⟨rfl, rfl, rfl⟩

theorem onInviteResp_same (h : onInviteResp s recv = .ok (sent, s')) : SameStore s s' := by
  obtain ⟨-, ⟨-, rfl⟩ | ⟨-, g, -, rfl⟩⟩ := onInviteResp_run h
  · exact .refl s'
  · exact ⟨rfl, rfl, rfl⟩

theorem onSendChat_same (h : onSendChat s recv = .ok (sent, s')) : SameStore s s' := by
  cases onSendChat_run h with
  | refused idle => exact .refl s
  | unnamed check member find nameless => exact ⟨rfl, rfl, rfl⟩
  | forwarded check member find pos string run => exact ⟨rfl, rfl, rfl⟩

theorem onDownloadFile_same {heap : Byte × Byte}
    (h : onDownloadFile s c me recv heap = .ok (sent, s')) : SameStore s s' := by
  cases onDownloadFile_run h with
  | refused outsider => exact .refl s
  | missing member fileId name opened => exact ⟨rfl, rfl, rfl⟩
  | lists member fileId name opened => exact ⟨rfl, rfl, rfl⟩
  | sends member fileId name opened => exact ⟨rfl, rfl, rfl⟩

theorem onCreateGroup_stores (hcmd : recv.cmd = CREATE_GROUP)
    (h : onCreateGroup s c recv = .ok (sent, s')) : Stores s recv s' := by
  cases onCreateGroup_run h with
  | refused zero => exact .same (by rw [hcmd]; decide) (fun _ => zero) (.refl s)
  | created pos k scan => exact .creates hcmd pos scan rfl rfl rfl

theorem onActiveList_stores (hcmd : recv.cmd = ACTIVE_LIST)
    (h : onActiveList s c recv = .ok (sent, s')) : Stores s recv s' := by
  obtain ⟨text, -, h⟩ := bind_eq_ok.mp h
  cases h
  exact .lists hcmd rfl rfl text rfl

theorem onSendFile_stores (hcmd : recv.cmd = SEND_FILE)
    (h : onSendFile s recv = .ok (sent, s')) : Stores s recv s' := by
  obtain ⟨len, buf, username, credential, run⟩ := onSendFile_run h
  rw [run.post]
  exact .uploads hcmd rfl rfl rfl

end Cases

/-- When the handler of a packet returns, it has done one of the things `Stores` lists. -/
theorem switch_stores {s s' : Server} {c : ConnId} {me : ClientThread} {recv : Mainhdr}
    {heap : Byte × Byte} {sent : List Sent} (h : switch s c me recv heap = .ok (sent, s')) :
    Stores s recv s' := by
  cases switch_handled h with
  | usrCreate cmd run => exact .of_cmd cmd (by decide) (by decide) (onUsrCreate_same run)
  | usrLogin cmd run => exact .of_cmd cmd (by decide) (by decide) (onUsrLogin_same run)
  | createGroup cmd run => exact onCreateGroup_stores cmd run
  | invite cmd run => exact .of_cmd cmd (by decide) (by decide) (onInvite_same run)
  | inviteResp cmd run => exact .of_cmd cmd (by decide) (by decide) (onInviteResp_same run)
  | sendChat cmd run => exact .of_cmd cmd (by decide) (by decide) (onSendChat_same run)
  | activeList cmd run => exact onActiveList_stores cmd run
  | sendFile cmd run => exact onSendFile_stores cmd run
  | downloadFile cmd run => exact .of_cmd cmd (by decide) (by decide) (onDownloadFile_same run)
  | unknown login upload idle sent_nil same =>
      rw [same]
      exact .same upload (fun h hpos => idle ((acts_createGroup h).mpr hpos)) (.refl s)

end GroupChat
