import GroupChat.Credential.Ledger
import GroupChat.Server.Forwarding

/-!
# What a packet does to the credential file

`switch_accesses` is the inversion lemma for the credential file: a registration runs
`create_user` on it, a chat of a member and an upload open it in `find_username`, and everything
else leaves it as it is. `find_uid`, `match_user_pw` and `create_user` close what they open, on
every path; `find_username` never does. `handlesClosed_iff` says that no handle stays open in
exactly the runs in which no request calls `find_username`.
-/

namespace GroupChat

open Posix

/-! ## The scanners -/

section Scanners

variable {username password : List Byte} {f f' : CredentialFile} {k : Int}

theorem findUid_file (h : findUid username f = .ok (k, f')) : f' = f := by
  rw [findUid_eq] at h
  cases hloop : findUidLoop username f.lines 0 with
  | error fault =>
      rw [hloop] at h
      cases h
  | ok found =>
      rw [hloop] at h
      cases h
      rfl

theorem matchUserPw_file (h : matchUserPw username password f = .ok (k, f')) : f' = f := by
  rw [matchUserPw_eq] at h
  cases hloop : matchUserPwLoop username password f.lines 0 with
  | error fault =>
      rw [hloop] at h
      cases h
  | ok found =>
      rw [hloop] at h
      cases h
      rfl

/-- `find_username` opens the file and does not close it, whatever it finds. -/
theorem findUsername_file {inId : UInt16} {found : List Byte}
    (h : findUsername inId username f = .ok (k, found, f')) : f' = f.fopen := by
  rw [findUsername_eq] at h
  cases hloop : findUsernameLoop inId username f.lines 0 with
  | error fault =>
      rw [hloop] at h
      cases h
  | ok r =>
      rw [hloop] at h
      cases h
      rfl

theorem createUser_handles (h : createUser username password f = .ok (k, f')) :
    f'.handles = f.handles := by
  rw [createUser_eq] at h
  obtain ⟨found, -, h⟩ := bind_eq_ok.mp h
  cases found with
  | none =>
      cases h
      rfl
  | some count =>
      obtain ⟨u, -, h⟩ := bind_eq_ok.mp h
      obtain ⟨p, -, h⟩ := bind_eq_ok.mp h
      cases h
      rfl

theorem usrLogin_file {payload : List Byte} {len : UInt32}
    (h : usrLogin payload len f = .ok (username, k, f')) : f' = f := by
  obtain ⟨⟨ret, name, word⟩, -, h⟩ := bind_eq_ok.mp h
  obtain ⟨⟨status, f''⟩, hmatch, h⟩ := bind_eq_ok.mp h
  cases h
  exact matchUserPw_file hmatch

theorem usrCreate_handles {payload : List Byte} {len : UInt32} {newUid : UInt16} {status : UInt8}
    (h : usrCreate payload len f = .ok (newUid, status, f')) : f'.handles = f.handles := by
  obtain ⟨⟨ret, name, word⟩, -, h⟩ := bind_eq_ok.mp h
  obtain ⟨u, -, h⟩ := bind_eq_ok.mp h
  obtain ⟨p, -, h⟩ := bind_eq_ok.mp h
  obtain ⟨⟨created, f₁⟩, hcreate, h⟩ := bind_eq_ok.mp h
  simp only at h
  split at h
  · obtain ⟨⟨found, f₂⟩, hmatch, h⟩ := bind_eq_ok.mp h
    cases h
    rw [matchUserPw_file hmatch, createUser_handles hcreate]
  · cases h
    exact createUser_handles hcreate

end Scanners

/-! ## The handlers -/

/-- The handler of the packet calls `find_username`. -/
def CallsFindUsername (s : Server) (recv : Mainhdr) : Prop :=
  (recv.cmd = SEND_CHAT ∧ checkHeaderChat recv = 0 ∧ Member s recv.gid recv.uid) ∨
    recv.cmd = SEND_FILE

inductive Accesses (s : Server) (recv : Mainhdr) (s' : Server) : Prop
  /-- an account is registered, or refused -/
  | registers (cmd : recv.cmd = USR_CREATE) (newUid : UInt16) (status : UInt8)
      (run : usrCreate recv.payload recv.len s.credential = .ok (newUid, status, s'.credential))
  /-- a name is looked up by its uid, and the file stays open -/
  | opens (calls : CallsFindUsername s recv) (credential : s'.credential = s.credential.fopen)
  | same (cmd : recv.cmd ≠ USR_CREATE) (silent : ¬ CallsFindUsername s recv)
      (credential : s'.credential = s.credential)

section Cases

variable {s s' : Server} {c : ConnId} {me : ClientThread} {recv : Mainhdr} {sent : List Sent}

theorem not_callsFindUsername {cmd : UInt8} (hcmd : recv.cmd = cmd) (hchat : cmd ≠ SEND_CHAT)
    (hfile : cmd ≠ SEND_FILE) : ¬ CallsFindUsername s recv := by
  rintro (⟨h, -⟩ | h)
  · exact hchat (hcmd.symm.trans h)
  · exact hfile (hcmd.symm.trans h)

theorem Accesses.of_cmd {cmd : UInt8} (hcmd : recv.cmd = cmd) (hcreate : cmd ≠ USR_CREATE)
    (hchat : cmd ≠ SEND_CHAT) (hfile : cmd ≠ SEND_FILE)
    (credential : s'.credential = s.credential) : Accesses s recv s' :=
  .same (hcmd ▸ hcreate) (not_callsFindUsername hcmd hchat hfile) credential

theorem onUsrCreate_accesses (hcmd : recv.cmd = USR_CREATE)
    (h : onUsrCreate s c recv = .ok (sent, s')) : Accesses s recv s' := by
  obtain ⟨⟨newUid, status, credential⟩, hrun, h⟩ := bind_eq_ok.mp h
  cases h
  exact .registers hcmd newUid status hrun

theorem onUsrLogin_credential (h : onUsrLogin s c me recv = .ok (sent, s')) :
    s'.credential = s.credential := by
  cases onUsrLogin_run h with
  | refused login fails => exact usrLogin_file login
  | entered login pos => exact usrLogin_file login

theorem onCreateGroup_credential (h : onCreateGroup s c recv = .ok (sent, s')) :
    s'.credential = s.credential := by
  cases onCreateGroup_run h with
  | refused zero => rfl
  | created pos k scan => rfl

theorem onInvite_credential (h : onInvite s recv = .ok (sent, s')) :
    s'.credential = s.credential := by
  cases onInvite_run h with
  | refused idle => rfl
  | missed check member name find offline => exact findUid_file find
  | passed check member name find pos online => exact findUid_file find

theorem onInviteResp_credential (h : onInviteResp s recv = .ok (sent, s')) :
    s'.credential = s.credential := by
  obtain ⟨-, ⟨-, rfl⟩ | ⟨-, g, -, rfl⟩⟩ := onInviteResp_run h
  · rfl
  · rfl

theorem onDownloadFile_credential {heap : Byte × Byte}
    (h : onDownloadFile s c me recv heap = .ok (sent, s')) : s'.credential = s.credential := by
  cases onDownloadFile_run h with
  | refused outsider => rfl
  | missing member fileId name opened => rfl
  | lists member fileId name opened => rfl
  | sends member fileId name opened => rfl

theorem onSendFile_accesses (hcmd : recv.cmd = SEND_FILE)
    (h : onSendFile s recv = .ok (sent, s')) : Accesses s recv s' := by
  refine .opens (Or.inr hcmd) ?_
  obtain ⟨len, buf, username, credential, run⟩ := onSendFile_run h
  rw [run.post]
  exact findUsername_file run.find

theorem onSendChat_accesses (hcmd : recv.cmd = SEND_CHAT)
    (h : onSendChat s recv = .ok (sent, s')) : Accesses s recv s' := by
  have hcreate : recv.cmd ≠ USR_CREATE := by
    rw [hcmd]
    decide
  have hcalls : CallsFindUsername s recv ↔
      checkHeaderChat recv = 0 ∧ Member s recv.gid recv.uid := by
    simp [CallsFindUsername, hcmd, SEND_CHAT, SEND_FILE]
  cases onSendChat_run h with
  | refused idle => exact .same hcreate (mt hcalls.mp idle) rfl
  | unnamed check member find nameless =>
      exact .opens (hcalls.mpr ⟨check, member⟩) (findUsername_file find)
  | forwarded check member find pos string run =>
      exact .opens (hcalls.mpr ⟨check, member⟩) (findUsername_file find)

end Cases

/-- When the handler of a packet returns, it has done one of the things `Accesses` lists. -/
theorem switch_accesses {s s' : Server} {c : ConnId} {me : ClientThread} {recv : Mainhdr}
    {heap : Byte × Byte} {sent : List Sent} (h : switch s c me recv heap = .ok (sent, s')) :
    Accesses s recv s' := by
  cases switch_handled h with
  | usrCreate cmd run => exact onUsrCreate_accesses cmd run
  | usrLogin cmd run =>
      exact .of_cmd cmd (by decide) (by decide) (by decide) (onUsrLogin_credential run)
  | createGroup cmd run =>
      exact .of_cmd cmd (by decide) (by decide) (by decide) (onCreateGroup_credential run)
  | invite cmd run =>
      exact .of_cmd cmd (by decide) (by decide) (by decide) (onInvite_credential run)
  | inviteResp cmd run =>
      exact .of_cmd cmd (by decide) (by decide) (by decide) (onInviteResp_credential run)
  | sendChat cmd run => exact onSendChat_accesses cmd run
  | activeList cmd run =>
      obtain ⟨text, -, run⟩ := bind_eq_ok.mp run
      cases run
      exact .of_cmd cmd (by decide) (by decide) (by decide) rfl
  | sendFile cmd run => exact onSendFile_accesses cmd run
  | downloadFile cmd run =>
      exact .of_cmd cmd (by decide) (by decide) (by decide) (onDownloadFile_credential run)
  | unknown login upload idle sent_nil same =>
      by_cases hcreate : recv.cmd = USR_CREATE
      · rw [switch, if_pos hcreate] at h
        exact onUsrCreate_accesses hcreate h
      · by_cases hchat : recv.cmd = SEND_CHAT
        · exact onSendChat_accesses hchat (switch_sendChat hchat ▸ h)
        · rw [same]
          exact .same hcreate (not_callsFindUsername rfl hchat upload) rfl

/-! ## Runs -/

/-- A request that is handled to its end does not call `find_username`. -/
def SparesFindUsername (_ : List Taken) (s : Server) (e : Event) : Prop :=
  ∀ c recv heap, e = .received c recv heap → ¬ CallsFindUsername s recv.toMainhdr

/-- A step opens a handle for good if it calls `find_username`, and none otherwise. -/
theorem handles_step {s s' : Server} {e : Event} {sent : List Sent} (h : List Taken)
    (hstep : step s e = .ok (sent, s')) :
    (SparesFindUsername h s e ∧ s'.credential.handles = s.credential.handles) ∨
      (¬ SparesFindUsername h s e ∧ s'.credential.handles = s.credential.handles + 1) := by
  cases e with
  | accept =>
      obtain ⟨-, rfl⟩ := step_accept hstep
      exact Or.inl ⟨fun c recv heap he => (by cases he), rfl⟩
  | closed c =>
      obtain ⟨me, -, -, rfl⟩ := step_closed hstep
      exact Or.inl ⟨fun c recv heap he => (by cases he), rfl⟩
  | received c recv heap =>
      obtain ⟨me, -, hswitch⟩ := step_switch hstep
      have hspares : SparesFindUsername h s (.received c recv heap) ↔
          ¬ CallsFindUsername s recv.toMainhdr := by
        constructor
        · exact fun hspares => hspares c recv heap rfl
        · rintro hsilent c' recv' heap' he
          cases he
          exact hsilent
      rw [hspares]
      cases switch_accesses hswitch with
      | registers cmd newUid status run =>
          exact Or.inl ⟨not_callsFindUsername cmd (by decide) (by decide), usrCreate_handles run⟩
      | opens calls credential => exact Or.inr ⟨not_not.mpr calls, by rw [credential]; rfl⟩
      | same cmd silent credential => exact Or.inl ⟨silent, by rw [credential]⟩

/-- In a run no handle on the credential file stays open exactly when no request that is handled
to its end calls `find_username`. -/
theorem handlesClosed_iff (content : List Byte) (disk : Disk) (es : List Event) :
    Lts.Throughout step (Server.start ⟨content, 0⟩ disk) es (fun _ s => s.credential.handles = 0) ↔
      Lts.Along step (Server.start ⟨content, 0⟩ disk) es fun h s e =>
        (∃ sent s', step s e = .ok (sent, s')) → SparesFindUsername h s e := by
  let Closed : List Taken → Server → Prop := fun _ s => s.credential.handles = 0
  have hstart : Closed [] (Server.start ⟨content, 0⟩ disk) := rfl
  refine Lts.throughout_iff_along hstart hstart ?_ ?_ es
  · intro h s e sent s' _ hclosed taken
    obtain ⟨hspares, hsame⟩ | ⟨hcalls, hmore⟩ := handles_step h taken
    · exact iff_of_true (hsame.trans hclosed) hspares
    · refine iff_of_false ?_ hcalls
      change s'.credential.handles ≠ 0
      rw [hmore]
      exact Nat.succ_ne_zero _
  · intro h s e sent s' _ hclosed hspares taken
    obtain ⟨-, hsame⟩ | ⟨hcalls, -⟩ := handles_step h taken
    · exact hsame.trans hclosed
    · exact absurd hspares hcalls

/-- An upload leaves a handle behind. -/
theorem upload_leaves_handle :
    ¬ Lts.Throughout step (Server.start twoAccounts ∅)
      [.accept, .received 0 (uploadPacket 0 1 120) (0, 0)]
      (fun _ s => s.credential.handles = 0) := by
  intro hclosed
  have hrun : Lts.returns (Lts.execute step [.accept, .received 0 (uploadPacket 0 1 120) (0, 0)] []
      (Server.start twoAccounts ∅)) (fun r => r.2.credential.handles = 1) = true := by
    decide +kernel
  obtain ⟨⟨h, s⟩, hexec, htest⟩ := Lts.exists_of_returns hrun
  obtain ⟨run, hevents⟩ := Lts.Run.start.of_execute hexec
  have hzero : s.credential.handles = 0 := hclosed h s run (hevents ▸ List.prefix_refl _)
  exact absurd (hzero.symm.trans (of_decide_eq_true htest)) (by decide)

end GroupChat
