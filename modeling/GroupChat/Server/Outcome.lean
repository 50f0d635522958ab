import GroupChat.Server

/-!
# What handling a packet can do

`switch_outcome` is the inversion lemma of the server: when the handler of a packet returns,
it has done exactly one of the things that `Outcome` lists. Either the packet acts for the uid
in its header (it creates a group, joins one, invites or speaks), or it logs its connection
in, or it does none of these and leaves groups, registry and sessions as they were. The
conditions are on the state before the packet, so that they decide what the handler does.

The handlers are inverted one by one first: `LoginRun`, `CreateRun`, `InviteRun`, `ChatRun` and
`DownloadRun` list what each of them has sent and changed when it returns.
-/

namespace GroupChat

open Posix

namespace Server

/-- The uid in the struct of an open connection. -/
def uidOf (s : Server) (c : ConnId) : Option UInt16 := (s.thread c).map fun me => me.data.uid

theorem uidOf_of_thread {s : Server} {c : ConnId} {me : ClientThread} (hme : s.thread c = some me) :
    s.uidOf c = some me.data.uid := by
  rw [uidOf, hme]
  rfl

theorem thread_set (s : Server) {c : ConnId} {me : ClientThread} (hme : s.thread c = some me)
    (x : Option ClientThread) (d : ConnId) :
    ({ s with clients := s.clients.set c x } : Server).thread d =
      if d = c then x else s.thread d := by
  have hlt : c < s.clients.length := by
    by_contra hge
    rw [thread, List.getElem?_eq_none (Nat.le_of_not_lt hge)] at hme
    cases hme
  by_cases h : d = c
  · subst h
    rw [if_pos rfl, thread, List.getElem?_set_self hlt]
    rfl
  · rw [if_neg h, thread, List.getElem?_set_ne (Ne.symm h)]
    rfl

end Server

/-! ## Conditions on the state before the packet -/

/-- The account a packet logs its connection in as. -/
def loginResult (s : Server) (recv : Mainhdr) : Option Int :=
  if recv.cmd = USR_LOGIN then
    match usrLogin recv.payload recv.len s.credential with
    | .ok (_, status, _) => if status > 0 then some status else none
    | .error _ => none
  else none

/-- `uid` is in `groups[gid]`. -/
def Member (s : Server) (gid : UInt8) (uid : UInt16) : Prop :=
  ∃ g, s.groups[gid.toNat]? = some g ∧ uid ∈ g

/-- Some member of `groups[gid]` is in the registry. -/
def SomeoneOnline (s : Server) (gid : UInt8) : Prop :=
  ∃ g, s.groups[gid.toNat]? = some g ∧ ∃ uid ∈ g, ∃ c, s.activeSockets.lookup uid.toNat = some c

/-- The invitation passes the checks and its target `peerId` is online as `peerData`. -/
def Invites (s : Server) (recv : Mainhdr) (peerId : Int) (peerData : ConnId) : Prop :=
  checkHeaderInvite recv = 0 ∧ Member s recv.gid recv.uid ∧
    ∃ username f, inviteName recv = .ok username ∧ findUid username s.credential = .ok (peerId, f) ∧
      0 < peerId ∧ s.activeSockets.lookup peerId.toNat = some peerData

/-- The answer to an invitation passes the checks and accepts. -/
def Joins (s : Server) (recv : Mainhdr) : Prop :=
  checkHeaderInvite recv = 0 ∧
    (∃ g, s.groups[recv.gid.toNat]? = some g ∧ g ≠ [] ∧ recv.uid ∉ g) ∧
    (recv.payload ++ [0]).head? = some 97

/-- The chat message passes the checks. -/
def Chats (s : Server) (recv : Mainhdr) : Prop :=
  checkHeaderChat recv = 0 ∧ Member s recv.gid recv.uid ∧
    ∃ len username f, 0 < len ∧
      findUsername recv.uid (List.replicate MAX_CHAR_USERID 0) s.credential = .ok (len, username, f)

/-- The packet has an effect for the uid in its header. -/
def Acts (s : Server) (recv : Mainhdr) : Prop :=
  (recv.cmd = CREATE_GROUP ∧ 0 < recv.uid) ∨
  (recv.cmd = INVITE ∧ ∃ peerId peerData, Invites s recv peerId peerData) ∨
  (recv.cmd = INVITE_RESP ∧ Joins s recv) ∨
  (recv.cmd = SEND_CHAT ∧ Chats s recv ∧ SomeoneOnline s recv.gid) ∨
  (recv.cmd = SEND_FILE ∧ SomeoneOnline s recv.gid)

/-! ## Outcomes -/

/-- An `INVITE` or `SEND_CHAT` packet with this uid is sent. -/
def Speaks (sent : List Sent) (uid : UInt16) : Prop :=
  ∃ fd hdr, .packet fd hdr ∈ sent ∧ (hdr.cmd = INVITE ∨ hdr.cmd = SEND_CHAT) ∧ hdr.uid = uid

structure SameSessions (s s' : Server) : Prop where
  activeSockets : s'.activeSockets = s.activeSockets
  uidOf : ∀ d, s'.uidOf d = s.uidOf d
  count : s'.clients.length = s.clients.length

inductive Outcome (s : Server) (c : ConnId) (recv : Mainhdr) (sent : List Sent) (s' : Server) :
    Prop
  /-- the connection is logged in as account `k` -/
  | login (k : Int) (result : loginResult s recv = some k)
      (activeSockets : s'.activeSockets = s.activeSockets.insert k.toNat c)
      (uidOf : ∀ d, s'.uidOf d = if d = c then some (UInt16.ofInt k) else s.uidOf d)
      (count : s'.clients.length = s.clients.length)
      (groups : s'.groups = s.groups) (quiet : ∀ uid, ¬ Speaks sent uid)
  /-- a group is created in a free slot -/
  | creates (gid : UInt8) (cmd : recv.cmd = CREATE_GROUP) (pos : 0 < recv.uid)
      (free : s.groups[gid.toNat]? = some [])
      (groups : s'.groups = s.groups.setIfInBounds gid.toNat [recv.uid])
      (same : SameSessions s s') (quiet : ∀ uid, ¬ Speaks sent uid)
  /-- the uid is appended to a group -/
  | joins (g : List UInt16) (cmd : recv.cmd = INVITE_RESP) (checked : Joins s recv)
      (group : s.groups[recv.gid.toNat]? = some g) (ne : g ≠ []) (fresh : recv.uid ∉ g)
      (groups : s'.groups = s.groups.setIfInBounds recv.gid.toNat (g ++ [recv.uid]))
      (same : SameSessions s s') (quiet : ∀ uid, ¬ Speaks sent uid)
  /-- an invitation is forwarded -/
  | invites (peerId : Int) (peerData : ConnId) (cmd : recv.cmd = INVITE)
      (checked : Invites s recv peerId peerData)
      (out : sent = [.packet peerData (createAndFillHdr INVITE recv.gid recv.uid 0)])
      (groups : s'.groups = s.groups) (same : SameSessions s s')
  /-- a message of the sender is forwarded to those online -/
  | speaks (acts : (recv.cmd = SEND_CHAT ∧ Chats s recv ∨ recv.cmd = SEND_FILE) ∧
        SomeoneOnline s recv.gid)
      (out : ∃ uid, Speaks sent uid) (own : ∀ uid, Speaks sent uid → uid = recv.uid)
      (groups : s'.groups = s.groups) (same : SameSessions s s')
  /-- nothing happens that concerns groups, registry or sessions -/
  | quiet (result : loginResult s recv = none) (idle : ¬ Acts s recv)
      (groups : s'.groups = s.groups) (same : SameSessions s s')
      (quiet : ∀ uid, ¬ Speaks sent uid)

theorem not_speaks_nil (uid : UInt16) : ¬ Speaks [] uid := by
  rintro ⟨fd, hdr, hmem, -⟩
  exact absurd hmem List.not_mem_nil

theorem not_speaks_reply {fd : ConnId} {hdr : Mainhdr} (cmd : UInt8) (hcmd : hdr.cmd = cmd)
    (hinvite : cmd ≠ INVITE) (hchat : cmd ≠ SEND_CHAT) (uid : UInt16) :
    ¬ Speaks [.packet fd hdr] uid := by
  rintro ⟨fd', hdr', hmem, hcmd', -⟩
  cases List.mem_singleton.mp hmem
  rw [hcmd] at hcmd'
  rcases hcmd' with hcmd' | hcmd'
  · exact hinvite hcmd'
  · exact hchat hcmd'

theorem SameSessions.of_eq {s s' : Server} (hsockets : s'.activeSockets = s.activeSockets)
    (hclients : s'.clients = s.clients) : SameSessions s s' where
  activeSockets := hsockets
  uidOf d := by rw [Server.uidOf, Server.thread, hclients, Server.uidOf, Server.thread]
  count := congrArg List.length hclients

theorem SameSessions.refl (s : Server) : SameSessions s s := .of_eq rfl rfl

theorem loginResult_of_ne {s : Server} {recv : Mainhdr} (h : recv.cmd ≠ USR_LOGIN) :
    loginResult s recv = none := if_neg h

theorem loginResult_of_cmd {s : Server} {recv : Mainhdr} {cmd : UInt8} (hcmd : recv.cmd = cmd)
    (hne : cmd ≠ USR_LOGIN) : loginResult s recv = none :=
  loginResult_of_ne (hcmd ▸ hne)

/-! ## A change of one group -/

section Groups

variable {s s' : Server}

theorem getElem?_set {i g : Nat} {l new x : List UInt16} (hl : s.groups[i]? = some l)
    (h : s'.groups = s.groups.setIfInBounds i new) (hset : s'.groups[g]? = some x) :
    (g = i ∧ x = new) ∨ s.groups[g]? = some x := by
  rw [h] at hset
  by_cases hg : i = g
  · subst hg
    have hlt : i < GROUP_NUM_MAX := (Vector.getElem?_eq_some_iff.mp hl).1
    rw [Vector.getElem?_setIfInBounds_self_of_lt hlt] at hset
    exact Or.inl ⟨rfl, (Option.some.inj hset).symm⟩
  · rw [Vector.getElem?_setIfInBounds_ne hg] at hset
    exact Or.inr hset

theorem getElem?_set_self {i : Nat} {l new : List UInt16} (hl : s.groups[i]? = some l)
    (h : s'.groups = s.groups.setIfInBounds i new) : s'.groups[i]? = some new := by
  have hlt : i < GROUP_NUM_MAX := (Vector.getElem?_eq_some_iff.mp hl).1
  rw [h, Vector.getElem?_setIfInBounds_self_of_lt hlt]

end Groups

/-! ## The cases of the switch -/

section Cases

variable {s s' : Server} {c : ConnId} {me : ClientThread} {recv : Mainhdr} {sent : List Sent}

theorem acts_createGroup (hcmd : recv.cmd = CREATE_GROUP) : Acts s recv ↔ 0 < recv.uid := by
  simp [Acts, hcmd, CREATE_GROUP, INVITE, INVITE_RESP, SEND_CHAT, SEND_FILE]

theorem acts_invite (hcmd : recv.cmd = INVITE) :
    Acts s recv ↔ ∃ peerId peerData, Invites s recv peerId peerData := by
  simp [Acts, hcmd, CREATE_GROUP, INVITE, INVITE_RESP, SEND_CHAT, SEND_FILE]

theorem acts_inviteResp (hcmd : recv.cmd = INVITE_RESP) : Acts s recv ↔ Joins s recv := by
  simp [Acts, hcmd, CREATE_GROUP, INVITE, INVITE_RESP, SEND_CHAT, SEND_FILE]

theorem acts_sendChat (hcmd : recv.cmd = SEND_CHAT) :
    Acts s recv ↔ Chats s recv ∧ SomeoneOnline s recv.gid := by
  simp [Acts, hcmd, CREATE_GROUP, INVITE, INVITE_RESP, SEND_CHAT, SEND_FILE]

theorem acts_sendFile (hcmd : recv.cmd = SEND_FILE) :
    Acts s recv ↔ SomeoneOnline s recv.gid := by
  simp [Acts, hcmd, CREATE_GROUP, INVITE, INVITE_RESP, SEND_CHAT, SEND_FILE]

theorem onUsrCreate_outcome (hcmd : recv.cmd = USR_CREATE)
    (h : onUsrCreate s c recv = .ok (sent, s')) : Outcome s c recv sent s' := by
  obtain ⟨⟨newUid, status, credential⟩, -, h⟩ := bind_eq_ok.mp h
  cases h
  refine .quiet (loginResult_of_cmd hcmd (by decide)) ?_ rfl (.of_eq rfl rfl) ?_
  · simp [Acts, hcmd, USR_CREATE, CREATE_GROUP, INVITE, INVITE_RESP, SEND_CHAT, SEND_FILE]
  · exact not_speaks_reply USR_CREATE hcmd (by decide) (by decide)

/-- What the handler of a login has done when it returns. -/
inductive LoginRun (s : Server) (c : ConnId) (me : ClientThread) (recv : Mainhdr) :
    List Sent → Server → Prop
  /-- no account matches -/
  | refused {username : List Byte} {status : Int} {credential : CredentialFile}
      (login : usrLogin recv.payload recv.len s.credential = .ok (username, status, credential))
      (fails : ¬ status > 0) :
      LoginRun s c me recv [.packet c (statusReply USR_LOGIN 0 0 (UInt8.ofInt ERR_GENERIC))]
        { s with credential := credential }
  /-- the connection is the session of account `status` -/
  | entered {username name : List Byte} {status : Int} {credential : CredentialFile}
      (login : usrLogin recv.payload recv.len s.credential = .ok (username, status, credential))
      (pos : status > 0) :
      LoginRun s c me recv [.packet c (statusReply USR_LOGIN 0 (UInt16.ofInt status) 0)]
        { s with
          credential := credential
          clients := s.clients.set c (some ⟨⟨UInt16.ofInt status, name⟩, me.fileId⟩)
          activeSockets := s.activeSockets.insert status.toNat c }

theorem onUsrLogin_run (h : onUsrLogin s c me recv = .ok (sent, s')) :
    LoginRun s c me recv sent s' := by
  obtain ⟨⟨username, status, credential⟩, hlogin, h⟩ := bind_eq_ok.mp h
  by_cases hpos : status > 0
  · simp only [if_pos hpos] at h
    obtain ⟨name, -, h⟩ := bind_eq_ok.mp h
    cases h
    exact .entered hlogin hpos
  · simp only [if_neg hpos] at h
    cases h
    exact .refused hlogin hpos

theorem loginResult_of_login {username : List Byte} {status : Int} {credential : CredentialFile}
    (hcmd : recv.cmd = USR_LOGIN)
    (hlogin : usrLogin recv.payload recv.len s.credential = .ok (username, status, credential)) :
    loginResult s recv = if status > 0 then some status else none := by
  rw [loginResult, if_pos hcmd, hlogin]

theorem onUsrLogin_outcome (hme : s.thread c = some me) (hcmd : recv.cmd = USR_LOGIN)
    (h : onUsrLogin s c me recv = .ok (sent, s')) : Outcome s c recv sent s' := by
  cases onUsrLogin_run h with
  | refused login fails =>
      have hresult := loginResult_of_login hcmd login
      rw [if_neg fails] at hresult
      refine .quiet hresult ?_ rfl (.of_eq rfl rfl)
        (not_speaks_reply USR_LOGIN rfl (by decide) (by decide))
      simp [Acts, hcmd, USR_LOGIN, CREATE_GROUP, INVITE, INVITE_RESP, SEND_CHAT, SEND_FILE]
  | @entered username name status credential login pos =>
      have hresult := loginResult_of_login hcmd login
      rw [if_pos pos] at hresult
      refine .login status hresult rfl ?_ List.length_set rfl
        (not_speaks_reply USR_LOGIN rfl (by decide) (by decide))
      intro d
      have hthread := s.thread_set hme (some ⟨⟨UInt16.ofInt status, name⟩, me.fileId⟩) d
      rw [Server.uidOf]
      change Option.map _ (({ s with clients := _ } : Server).thread d) = _
      rw [hthread]
      by_cases hd : d = c
      · rw [if_pos hd, if_pos hd]
        rfl
      · rw [if_neg hd, if_neg hd]
        rfl

theorem scanGroups_spec {groups : Vector (List UInt16) GROUP_NUM_MAX} {n : Nat} :
    ∀ {groupCnt k : Nat}, GROUP_NUM_MAX - groupCnt ≤ n → scanGroups groups groupCnt = .ok k →
      groupCnt ≤ k ∧ k < GROUP_NUM_MAX ∧ groups[k]? = some [] := by
  induction n with
  | zero =>
      intro groupCnt k hn h
      rw [scanGroups, dif_neg (by omega)] at h
      cases h
  | succ n ih =>
      intro groupCnt k hn h
      rw [scanGroups] at h
      split at h
      · rename_i hlt
        split at h
        · obtain ⟨hle, hk, hfree⟩ := ih (by omega) h
          exact ⟨by omega, hk, hfree⟩
        · rename_i hnull
          cases h
          refine ⟨le_refl _, hlt, ?_⟩
          rw [Vector.getElem?_eq_getElem hlt, not_not.mp hnull]
      · cases h

/-- A slot that the search returns has a gid. -/
theorem toNat_gid {k : Nat} (hscan : scanGroups s.groups s.groupCnt = .ok k) :
    (UInt8.ofNat k).toNat = k := by
  obtain ⟨-, hlt, -⟩ := scanGroups_spec (le_refl _) hscan
  rw [UInt8.toNat_ofNat']
  exact Nat.mod_eq_of_lt (Nat.lt_trans hlt (by decide))

/-- What the handler of a `CREATE_GROUP` has done when it returns. -/
inductive CreateRun (s : Server) (c : ConnId) (recv : Mainhdr) : List Sent → Server → Prop
  /-- nobody is logged in -/
  | refused (zero : ¬ 0 < recv.uid) :
      CreateRun s c recv
        [.packet c (statusReply CREATE_GROUP 0 recv.uid (UInt8.ofInt ERR_NEED_LOGIN))] s
  /-- the free slot that the search has found is taken -/
  | created (pos : 0 < recv.uid) (k : Nat) (scan : scanGroups s.groups s.groupCnt = .ok k) :
      CreateRun s c recv [.packet c (statusReply CREATE_GROUP (UInt8.ofNat k) recv.uid 0)]
        { s with groupCnt := k, groups := s.groups.setIfInBounds k [recv.uid] }

theorem onCreateGroup_run (h : onCreateGroup s c recv = .ok (sent, s')) :
    CreateRun s c recv sent s' := by
  rw [onCreateGroup] at h
  by_cases huid : recv.uid ≤ 0
  · rw [if_pos huid] at h
    cases h
    exact .refused (UInt16.not_lt.mpr huid)
  · rw [if_neg huid] at h
    obtain ⟨k, hscan, h⟩ := bind_eq_ok.mp h
    obtain ⟨-, hlt, -⟩ := scanGroups_spec (le_refl _) hscan
    simp only [if_neg (show ¬ k > GROUP_NUM_MAX by omega), toNat_gid hscan] at h
    cases h
    exact .created (UInt16.not_le.mp huid) k hscan

theorem onCreateGroup_outcome (hcmd : recv.cmd = CREATE_GROUP)
    (h : onCreateGroup s c recv = .ok (sent, s')) : Outcome s c recv sent s' := by
  cases onCreateGroup_run h with
  | refused zero =>
      exact .quiet (loginResult_of_cmd hcmd (by decide)) (mt (acts_createGroup hcmd).mp zero) rfl
        (.refl s) (not_speaks_reply CREATE_GROUP rfl (by decide) (by decide))
  | created pos k scan =>
      obtain ⟨-, -, hfree⟩ := scanGroups_spec (le_refl _) scan
      have hgid := toNat_gid scan
      refine .creates (UInt8.ofNat k) hcmd pos ?_ ?_ (.of_eq rfl rfl)
        (not_speaks_reply CREATE_GROUP rfl (by decide) (by decide))
      · rw [hgid]
        exact hfree
      · rw [hgid]

theorem groupAt_eq_ok {gid : UInt8} {g : List UInt16} :
    s.groupAt gid = .ok g ↔ s.groups[gid.toNat]? = some g := by
  rw [Server.groupAt]
  cases s.groups[gid.toNat]? with
  | none => simp
  | some g' => simp

/-- The check of a header's group and of the sender's place in it. -/
theorem checkUserInGroup_of_group {gid : UInt8} {g : List UInt16}
    (hg : s.groups[gid.toNat]? = some g) (uid : UInt16) :
    checkUserInGroup uid gid s = .ok (if uid ∈ g then 0 else ERR_GENERIC) := by
  rw [checkUserInGroup, groupAt_eq_ok.mpr hg]
  rfl

theorem member_iff {gid : UInt8} {g : List UInt16} (hg : s.groups[gid.toNat]? = some g)
    (uid : UInt16) : Member s gid uid ↔ uid ∈ g := by
  constructor
  · rintro ⟨g', hg', hmem⟩
    rw [hg] at hg'
    exact Option.some.inj hg' ▸ hmem
  · exact fun hmem => ⟨g, hg, hmem⟩

/-- A handler that checks the sender's place in the group stops where there is none. -/
theorem member_guard {rest : Except Fault (List Sent × Server)}
    (h : (do
      let group ← s.groupAt recv.gid
      if group = [] then return ([], s)
      else if (← checkUserInGroup recv.uid recv.gid s) ≠ 0 then return ([], s)
      else rest) = .ok (sent, s')) :
    (¬ Member s recv.gid recv.uid ∧ sent = [] ∧ s' = s) ∨
      (Member s recv.gid recv.uid ∧ rest = .ok (sent, s')) := by
  obtain ⟨g, hg, h⟩ := bind_eq_ok.mp h
  rw [groupAt_eq_ok] at hg
  by_cases hmem : recv.uid ∈ g
  · rw [if_neg (List.ne_nil_of_mem hmem), checkUserInGroup_of_group hg, if_pos hmem, ok_bind,
      if_neg (not_not.mpr rfl)] at h
    exact Or.inr ⟨⟨g, hg, hmem⟩, h⟩
  · refine Or.inl ⟨mt (member_iff hg _).mp hmem, ?_⟩
    by_cases hnil : g = []
    · rw [if_pos hnil] at h
      cases h
      exact ⟨rfl, rfl⟩
    · rw [if_neg hnil, checkUserInGroup_of_group hg, if_neg hmem, ok_bind, if_pos (by decide)] at h
      cases h
      exact ⟨rfl, rfl⟩

/-- What the handler of an invitation has done when it returns. -/
inductive InviteRun (s : Server) (recv : Mainhdr) : List Sent → Server → Prop
  /-- the header or its uid is refused -/
  | refused (idle : ¬ (checkHeaderInvite recv = 0 ∧ Member s recv.gid recv.uid)) :
      InviteRun s recv [] s
  /-- nobody with the name is online -/
  | missed (check : checkHeaderInvite recv = 0) (member : Member s recv.gid recv.uid)
      {username : List Byte} {peerId : Int} {credential : CredentialFile}
      (name : inviteName recv = .ok username)
      (find : findUid username s.credential = .ok (peerId, credential))
      (offline : 0 < peerId → s.activeSockets.lookup peerId.toNat = none) :
      InviteRun s recv [] { s with credential := credential }
  /-- the invitation is passed on -/
  | passed (check : checkHeaderInvite recv = 0) (member : Member s recv.gid recv.uid)
      {username : List Byte} {peerId : Int} {credential : CredentialFile} {peerData : ConnId}
      (name : inviteName recv = .ok username)
      (find : findUid username s.credential = .ok (peerId, credential)) (pos : 0 < peerId)
      (online : s.activeSockets.lookup peerId.toNat = some peerData) :
      InviteRun s recv [.packet peerData (createAndFillHdr INVITE recv.gid recv.uid 0)]
        { s with credential := credential }

theorem onInvite_run (h : onInvite s recv = .ok (sent, s')) : InviteRun s recv sent s' := by
  rw [onInvite] at h
  by_cases hcheck : checkHeaderInvite recv = 0
  · rw [if_neg (not_not.mpr hcheck)] at h
    rcases member_guard h with ⟨hno, rfl, rfl⟩ | ⟨hmember, h⟩
    · exact .refused fun hboth => hno hboth.2
    · obtain ⟨username, hname, h⟩ := bind_eq_ok.mp h
      obtain ⟨⟨peerId, credential⟩, hfind, h⟩ := bind_eq_ok.mp h
      by_cases hpos : peerId ≤ 0
      · simp only [if_pos hpos] at h
        cases h
        exact .missed hcheck hmember hname hfind fun hlt => absurd hlt (by omega)
      · simp only [if_neg hpos] at h
        cases hlookup : s.activeSockets.lookup peerId.toNat with
        | none =>
            rw [hlookup] at h
            cases h
            exact .missed hcheck hmember hname hfind fun _ => hlookup
        | some peerData =>
            rw [hlookup] at h
            obtain ⟨fd, hfd, h⟩ := bind_eq_ok.mp h
            rw [Server.connfd] at hfd
            split at hfd
            · cases hfd
            · cases hfd
              cases h
              exact .passed hcheck hmember hname hfind (by omega) hlookup
  · rw [if_pos hcheck] at h
    cases h
    exact .refused fun hboth => hcheck hboth.1

theorem onInvite_outcome (hcmd : recv.cmd = INVITE) (h : onInvite s recv = .ok (sent, s')) :
    Outcome s c recv sent s' := by
  have hresult : loginResult s recv = none := loginResult_of_cmd hcmd (by decide)
  have hidle : (∀ peerId peerData, ¬ Invites s recv peerId peerData) → ¬ Acts s recv := by
    intro hno hacts
    obtain ⟨peerId, peerData, hinvites⟩ := (acts_invite hcmd).mp hacts
    exact hno peerId peerData hinvites
  cases onInvite_run h with
  | refused idle =>
      refine .quiet hresult (hidle ?_) rfl (.refl _) not_speaks_nil
      rintro peerId peerData ⟨hcheck, hmember, -⟩
      exact idle ⟨hcheck, hmember⟩
  | missed check member name find offline =>
      refine .quiet hresult (hidle ?_) rfl (.of_eq rfl rfl) not_speaks_nil
      rintro peerId' peerData ⟨-, -, username', f, hname', hfind', hpos, hlookup⟩
      cases name.symm.trans hname'
      cases find.symm.trans hfind'
      rw [offline hpos] at hlookup
      cases hlookup
  | passed check member name find pos online =>
      exact .invites _ _ hcmd ⟨check, member, _, _, name, find, pos, online⟩ rfl rfl (.of_eq rfl rfl)

/-- What the answer to an invitation has done when its handler returns: the uid is appended to the
group, or nothing is changed. -/
theorem onInviteResp_run (h : onInviteResp s recv = .ok (sent, s')) :
    sent = [] ∧ ((¬ Joins s recv ∧ s' = s) ∨
      (Joins s recv ∧ ∃ g, s.groups[recv.gid.toNat]? = some g ∧ s' =
        { s with groups := s.groups.setIfInBounds recv.gid.toNat (g ++ [recv.uid]) })) := by
  rw [onInviteResp] at h
  by_cases hjoins : Joins s recv
  · obtain ⟨hcheck, ⟨g, hg, hnil, hfresh⟩, haccept⟩ := hjoins
    have hadd : addUserToGroup recv.uid recv.gid s =
        .ok { s with groups := s.groups.setIfInBounds recv.gid.toNat (g ++ [recv.uid]) } := by
      rw [addUserToGroup, groupAt_eq_ok.mpr hg, ok_bind, groupAddTail, if_neg hnil]
      rfl
    rw [if_neg (not_not.mpr hcheck), groupAt_eq_ok.mpr hg, ok_bind, if_neg hnil,
      checkUserInGroup_of_group hg, if_neg hfresh, ok_bind, if_neg (by decide), if_pos haccept,
      hadd] at h
    cases h
    exact ⟨rfl, Or.inr ⟨⟨hcheck, ⟨g, hg, hnil, hfresh⟩, haccept⟩, g, hg, rfl⟩⟩
  · have hstay : sent = [] ∧ s' = s := by
      by_cases hcheck : checkHeaderInvite recv = 0
      · rw [if_neg (not_not.mpr hcheck)] at h
        obtain ⟨g, hg, h⟩ := bind_eq_ok.mp h
        rw [groupAt_eq_ok] at hg
        by_cases hnil : g = []
        · rw [if_pos hnil] at h
          cases h
          exact ⟨rfl, rfl⟩
        · rw [if_neg hnil, checkUserInGroup_of_group hg] at h
          obtain ⟨r, hr, h⟩ := bind_eq_ok.mp h
          cases hr
          by_cases hmem : recv.uid ∈ g
          · rw [if_pos hmem, if_pos rfl] at h
            cases h
            exact ⟨rfl, rfl⟩
          · rw [if_neg hmem, if_neg (by decide)] at h
            have hdecline : ¬ (recv.payload ++ [0]).head? = some 97 :=
              fun haccept => hjoins ⟨hcheck, ⟨g, hg, hnil, hmem⟩, haccept⟩
            rw [if_neg hdecline] at h
            cases h
            exact ⟨rfl, rfl⟩
      · rw [if_pos hcheck] at h
        cases h
        exact ⟨rfl, rfl⟩
    exact ⟨hstay.1, Or.inl ⟨hjoins, hstay.2⟩⟩

theorem onInviteResp_outcome (hcmd : recv.cmd = INVITE_RESP)
    (h : onInviteResp s recv = .ok (sent, s')) : Outcome s c recv sent s' := by
  obtain ⟨rfl, ⟨hno, rfl⟩ | ⟨hjoins, g, hg, rfl⟩⟩ := onInviteResp_run h
  · exact .quiet (loginResult_of_cmd hcmd (by decide))
      (fun hacts => hno ((acts_inviteResp hcmd).mp hacts)) rfl (.refl _) not_speaks_nil
  · have hgroup := hjoins.2.1
    obtain ⟨g', hg', hnil, hfresh⟩ := hgroup
    cases hg.symm.trans hg'
    exact .joins g hcmd hjoins hg hnil hfresh rfl (.of_eq rfl rfl) not_speaks_nil

/-- The loop of `forward_to_group` ends if the connections of the members in the registry are open,
and has sent the packet to each of these members then. -/
theorem forwardLoop_eq_ok {sendPacket : Mainhdr} {members : List UInt16} :
    forwardLoop s sendPacket members = .ok sent ↔
      (∀ uid ∈ members, ∀ d, s.activeSockets.lookup uid.toNat = some d → (s.thread d).isSome) ∧
        sent = members.filterMap fun uid =>
          (s.activeSockets.lookup uid.toNat).map fun d => .packet d sendPacket := by
  induction members generalizing sent with
  | nil =>
      rw [forwardLoop, List.filterMap_nil, Except.ok.injEq, eq_comm]
      exact (and_iff_right fun uid hmem => absurd hmem List.not_mem_nil).symm
  | cons uid next ih =>
      rw [forwardLoop, List.filterMap_cons, List.forall_mem_cons]
      cases hlookup : s.activeSockets.lookup uid.toNat with
      | none =>
          refine ih.trans (and_congr_left fun _ => ?_)
          exact (and_iff_right fun d hd => (nomatch hd)).symm
      | some data =>
          constructor
          · intro h
            obtain ⟨fd, hfd, h⟩ := bind_eq_ok.mp h
            obtain ⟨rest, hrest, h⟩ := bind_eq_ok.mp h
            cases h
            obtain ⟨hopen, rfl⟩ := ih.mp hrest
            rw [Server.connfd] at hfd
            split at hfd
            · cases hfd
            · rename_i me hme
              cases hfd
              refine ⟨⟨fun d hd => ?_, hopen⟩, rfl⟩
              cases hd
              rw [hme]
              rfl
          · rintro ⟨⟨hdata, hopen⟩, rfl⟩
            obtain ⟨me, hme⟩ := Option.isSome_iff_exists.mp (hdata data rfl)
            refine bind_eq_ok.mpr ⟨data, ?_, bind_eq_ok.mpr ⟨_, ih.mpr ⟨hopen, rfl⟩, rfl⟩⟩
            rw [Server.connfd, hme]

/-- `forward_to_group` sends nothing but the packet, and sends it when some member is online. -/
theorem forwardLoop_spec {sendPacket : Mainhdr} {members : List UInt16}
    (h : forwardLoop s sendPacket members = .ok sent) :
    (∀ x ∈ sent, ∃ fd, x = .packet fd sendPacket) ∧
      (sent ≠ [] ↔ ∃ uid ∈ members, ∃ data, s.activeSockets.lookup uid.toNat = some data) := by
  obtain ⟨-, rfl⟩ := forwardLoop_eq_ok.mp h
  constructor
  · intro x hx
    obtain ⟨uid, -, hx⟩ := List.mem_filterMap.mp hx
    obtain ⟨d, -, rfl⟩ := Option.map_eq_some_iff.mp hx
    exact ⟨d, rfl⟩
  · rw [Ne, List.filterMap_eq_nil_iff]
    simp only [Option.map_eq_none_iff, not_forall, Option.ne_none_iff_exists', exists_prop]

/-- What `forward_to_group` sends is said by the uid of the packet, if anyone is online. -/
theorem forwardToGroup_speaks {gid : UInt8} {sendPacket : Mainhdr}
    (hcmd : sendPacket.cmd = SEND_CHAT) (h : forwardToGroup s gid sendPacket = .ok sent) :
    (∀ uid, Speaks sent uid → uid = sendPacket.uid) ∧
      ((∃ uid, Speaks sent uid) ↔ SomeoneOnline s gid) := by
  obtain ⟨g, hg, h⟩ := bind_eq_ok.mp h
  rw [groupAt_eq_ok] at hg
  obtain ⟨hall, hiff⟩ := forwardLoop_spec h
  have honline : SomeoneOnline s gid ↔ sent ≠ [] := by
    rw [hiff]
    constructor
    · rintro ⟨g', hg', honline⟩
      rw [hg] at hg'
      exact Option.some.inj hg' ▸ honline
    · exact fun honline => ⟨g, hg, honline⟩
  rw [honline]
  refine ⟨?_, ?_, ?_⟩
  · rintro uid ⟨fd, hdr, hmem, -, huid⟩
    obtain ⟨fd', heq⟩ := hall _ hmem
    cases heq
    exact huid.symm
  · rintro ⟨uid, fd, hdr, hmem, -⟩
    exact List.ne_nil_of_mem hmem
  · intro hne
    obtain ⟨x, rest, rfl⟩ := List.exists_cons_of_ne_nil hne
    obtain ⟨fd, rfl⟩ := hall x List.mem_cons_self
    exact ⟨sendPacket.uid, fd, sendPacket, List.mem_cons_self, Or.inr hcmd, rfl⟩

/-- What the handler of a chat has done when it returns. -/
inductive ChatRun (s : Server) (recv : Mainhdr) : List Sent → Server → Prop
  /-- the header or its uid is refused -/
  | refused (idle : ¬ (checkHeaderChat recv = 0 ∧ Member s recv.gid recv.uid)) :
      ChatRun s recv [] s
  /-- the sender has no name in the credential file -/
  | unnamed (check : checkHeaderChat recv = 0) (member : Member s recv.gid recv.uid)
      {len : Int} {username : List Byte} {credential : CredentialFile}
      (find : findUsername recv.uid (List.replicate MAX_CHAR_USERID 0) s.credential =
        .ok (len, username, credential))
      (nameless : len ≤ 0) : ChatRun s recv [] { s with credential := credential }
  /-- the message is forwarded under the name of its sender -/
  | forwarded (check : checkHeaderChat recv = 0) (member : Member s recv.gid recv.uid)
      {len : Int} {username name : List Byte} {credential : CredentialFile} {sent : List Sent}
      (find : findUsername recv.uid (List.replicate MAX_CHAR_USERID 0) s.credential =
        .ok (len, username, credential))
      (pos : 0 < len) (string : cstr username = .ok name)
      (run : forwardToGroup { s with credential := credential } recv.gid (chatPacket recv name) =
        .ok sent) : ChatRun s recv sent { s with credential := credential }

theorem onSendChat_run (h : onSendChat s recv = .ok (sent, s')) : ChatRun s recv sent s' := by
  rw [onSendChat] at h
  by_cases hcheck : checkHeaderChat recv = 0
  · rw [if_neg (not_not.mpr hcheck)] at h
    rcases member_guard h with ⟨hno, rfl, rfl⟩ | ⟨hmember, h⟩
    · exact .refused fun hboth => hno hboth.2
    · obtain ⟨⟨len, username, credential⟩, hfind, h⟩ := bind_eq_ok.mp h
      by_cases hlen : len ≤ 0
      · simp only [if_pos hlen] at h
        cases h
        exact .unnamed hcheck hmember hfind hlen
      · simp only [if_neg hlen] at h
        split at h
        · cases h
        · obtain ⟨name, hname, h⟩ := bind_eq_ok.mp h
          obtain ⟨sent', hforward, h⟩ := bind_eq_ok.mp h
          cases h
          exact .forwarded hcheck hmember hfind (by omega) hname hforward
  · rw [if_pos hcheck] at h
    cases h
    exact .refused fun hboth => hcheck hboth.1

theorem onSendChat_outcome (hcmd : recv.cmd = SEND_CHAT)
    (h : onSendChat s recv = .ok (sent, s')) : Outcome s c recv sent s' := by
  have hresult : loginResult s recv = none := loginResult_of_cmd hcmd (by decide)
  have hidle : ¬ Chats s recv → ¬ Acts s recv :=
    fun hno hacts => hno ((acts_sendChat hcmd).mp hacts).1
  cases onSendChat_run h with
  | refused idle =>
      exact .quiet hresult (hidle fun hchats => idle ⟨hchats.1, hchats.2.1⟩) rfl (.refl _)
        not_speaks_nil
  | unnamed check member find nameless =>
      refine .quiet hresult (hidle ?_) rfl (.of_eq rfl rfl) not_speaks_nil
      rintro ⟨-, -, len', buf', f, hpos, hfind'⟩
      cases find.symm.trans hfind'
      omega
  | forwarded check member find pos string run =>
      have hchats : Chats s recv := ⟨check, member, _, _, _, pos, find⟩
      obtain ⟨hown, honline⟩ := forwardToGroup_speaks rfl run
      by_cases hsome : SomeoneOnline s recv.gid
      · exact .speaks ⟨Or.inl ⟨hcmd, hchats⟩, hsome⟩ (honline.mpr hsome) hown rfl (.of_eq rfl rfl)
      · refine .quiet hresult ?_ rfl (.of_eq rfl rfl) ?_
        · exact fun hacts => hsome ((acts_sendChat hcmd).mp hacts).2
        · exact fun uid hspeaks => hsome (honline.mp ⟨uid, hspeaks⟩)

theorem onActiveList_outcome (hcmd : recv.cmd = ACTIVE_LIST)
    (h : onActiveList s c recv = .ok (sent, s')) : Outcome s c recv sent s' := by
  obtain ⟨text, -, h⟩ := bind_eq_ok.mp h
  cases h
  refine .quiet (loginResult_of_cmd hcmd (by decide)) ?_ rfl (.of_eq rfl rfl)
    (not_speaks_reply ACTIVE_LIST rfl (by decide) (by decide))
  simp [Acts, hcmd, ACTIVE_LIST, CREATE_GROUP, INVITE, INVITE_RESP, SEND_CHAT, SEND_FILE]

theorem storeUpload_eq_ok {s₁ : Server} :
    storeUpload s recv = .ok s₁ ↔ s.fileCnt + 1 < 2 ^ 31 ∧ s₁ = { s with
      fileCnt := s.fileCnt + 1
      files := s.files.insert (fileFormat recv.gid s.fileCnt) (storedContent recv) } := by
  rw [storeUpload]
  by_cases hcnt : 2 ^ 31 ≤ s.fileCnt + 1
  · rw [if_pos hcnt]
    refine iff_of_false (fun h => ?_) fun h => absurd h.1 (Nat.not_lt.mpr hcnt)
    cases h
  · rw [if_neg hcnt]
    constructor
    · intro h
      cases h
      exact ⟨Nat.not_le.mp hcnt, rfl⟩
    · rintro ⟨-, rfl⟩
      rfl

/-- What the handler of an upload has done when it returns. -/
structure SendFileRun (s : Server) (recv : Mainhdr) (sent : List Sent) (s' : Server) (len : Int)
    (buf username : List Byte) (credential : CredentialFile) : Prop where
  fits : s.fileCnt + 1 < 2 ^ 31
  find : findUsername recv.uid (List.replicate MAX_CHAR_USERID 0) s.credential =
    .ok (len, buf, credential)
  string : cstr buf = .ok username
  post : s' = { s with
    fileCnt := s.fileCnt + 1
    files := s.files.insert (fileFormat recv.gid s.fileCnt) (storedContent recv)
    credential := credential }
  forward : forwardToGroup s' recv.gid
    (filePacket recv len username (fileFormat recv.gid s.fileCnt)) = .ok sent

theorem onSendFile_run (h : onSendFile s recv = .ok (sent, s')) :
    ∃ len buf username credential, SendFileRun s recv sent s' len buf username credential := by
  obtain ⟨s₁, hstore, h⟩ := bind_eq_ok.mp h
  obtain ⟨hfits, rfl⟩ := storeUpload_eq_ok.mp hstore
  obtain ⟨⟨len, buf, credential⟩, hfind, h⟩ := bind_eq_ok.mp h
  obtain ⟨username, hstring, h⟩ := bind_eq_ok.mp h
  obtain ⟨sent', hforward, h⟩ := bind_eq_ok.mp h
  cases h
  exact ⟨len, buf, username, credential, hfits, hfind, hstring, rfl, hforward⟩

theorem onSendFile_outcome (hcmd : recv.cmd = SEND_FILE)
    (h : onSendFile s recv = .ok (sent, s')) : Outcome s c recv sent s' := by
  obtain ⟨len, buf, username, credential, run⟩ := onSendFile_run h
  obtain rfl := run.post
  obtain ⟨hown, honline⟩ := forwardToGroup_speaks rfl run.forward
  by_cases hsome : SomeoneOnline s recv.gid
  · exact .speaks ⟨Or.inr hcmd, hsome⟩ (honline.mpr hsome) hown rfl (.of_eq rfl rfl)
  · refine .quiet (loginResult_of_cmd hcmd (by decide)) ?_ rfl (.of_eq rfl rfl) ?_
    · exact fun hacts => hsome ((acts_sendFile hcmd).mp hacts)
    · exact fun uid hspeaks => hsome (honline.mp ⟨uid, hspeaks⟩)

/-- What the handler of a download has done when it returns. -/
inductive DownloadRun (s : Server) (c : ConnId) (me : ClientThread) (recv : Mainhdr) :
    List Sent → Server → Prop
  /-- the uid in the header is refused -/
  | refused (outsider : ¬ Member s recv.gid recv.uid) : DownloadRun s c me recv [] s
  /-- there is no such file -/
  | missing (member : Member s recv.gid recv.uid) {text : List Byte} (fileId : Int)
      (name : cstr (recv.payload ++ [0]) = .ok text)
      (opened : s.fopen (46 :: 47 :: text.take 97) = .failed) :
      DownloadRun s c me recv []
        { s with clients := s.clients.set c (some { me with fileId := fileId }) }
  /-- the path leads to a directory, of which only a header is sent -/
  | lists (member : Member s recv.gid recv.uid) {text : List Byte} (fileId : Int)
      (name : cstr (recv.payload ++ [0]) = .ok text)
      (opened : s.fopen (46 :: 47 :: text.take 97) = .directory) :
      DownloadRun s c me recv [.packet c (directoryHeader recv.gid (UInt16.ofInt fileId))]
        { s with clients := s.clients.set c (some { me with fileId := fileId }) }
  /-- the file is sent -/
  | sends (member : Member s recv.gid recv.uid) {text : List Byte} (fileId : Int)
      (name : cstr (recv.payload ++ [0]) = .ok text) {data : List Byte}
      (opened : s.fopen (46 :: 47 :: text.take 97) = .file data) :
      DownloadRun s c me recv [.file c recv.gid (UInt16.ofInt fileId) data]
        { s with clients := s.clients.set c (some { me with fileId := fileId }) }

theorem onDownloadFile_run {heap : Byte × Byte} (h : onDownloadFile s c me recv heap = .ok (sent, s')) :
    DownloadRun s c me recv sent s' := by
  obtain ⟨text, htext, h⟩ := bind_eq_ok.mp h
  rcases member_guard h with ⟨hno, rfl, rfl⟩ | ⟨hmember, h⟩
  · exact .refused hno
  · split at h
    · cases h
    · obtain ⟨input, -, h⟩ := bind_eq_ok.mp h
      obtain ⟨number, -, h⟩ := bind_eq_ok.mp h
      obtain ⟨scanned, -, h⟩ := bind_eq_ok.mp h
      simp only at h
      split at h
      · rename_i hopened
        cases h
        exact .missing hmember _ htext hopened
      · rename_i hopened
        cases h
        exact .lists hmember _ htext hopened
      · rename_i content hopened
        cases h
        exact .sends hmember _ htext hopened

theorem onDownloadFile_outcome {heap : Byte × Byte} (hme : s.thread c = some me)
    (hcmd : recv.cmd = DOWNLOAD_FILE)
    (h : onDownloadFile s c me recv heap = .ok (sent, s')) : Outcome s c recv sent s' := by
  have hquiet : s'.groups = s.groups → SameSessions s s' → (∀ uid, ¬ Speaks sent uid) →
      Outcome s c recv sent s' := by
    intro hgroups hsame hspeaks
    refine .quiet (loginResult_of_cmd hcmd (by decide)) ?_ hgroups hsame hspeaks
    simp [Acts, hcmd, DOWNLOAD_FILE, CREATE_GROUP, INVITE, INVITE_RESP, SEND_CHAT, SEND_FILE]
  have hsame : ∀ fileId, SameSessions s
      { s with clients := s.clients.set c (some { me with fileId := fileId }) } := by
    intro fileId
    refine ⟨rfl, fun d => ?_, List.length_set⟩
    rw [Server.uidOf, s.thread_set hme]
    by_cases hd : d = c
    · rw [if_pos hd, hd, Server.uidOf, hme]
      rfl
    · rw [if_neg hd, Server.uidOf]
  cases onDownloadFile_run h with
  | refused outsider => exact hquiet rfl (.refl _) not_speaks_nil
  | missing member fileId name opened => exact hquiet rfl (hsame fileId) not_speaks_nil
  | lists member fileId name opened =>
      exact hquiet rfl (hsame fileId)
        (not_speaks_reply SEND_FILE rfl (by decide) (by decide))
  | sends member fileId name opened =>
      refine hquiet rfl (hsame fileId) ?_
      rintro uid ⟨fd, hdr, hmem, -⟩
      cases List.mem_singleton.mp hmem

end Cases

section Commands

variable {s : Server} {c : ConnId} {me : ClientThread} {recv : Mainhdr} {heap : Byte × Byte}

theorem switch_createGroup (hcmd : recv.cmd = CREATE_GROUP) :
    switch s c me recv heap = onCreateGroup s c recv := by
  simp [switch, hcmd, USR_CREATE, USR_LOGIN, CREATE_GROUP]

theorem switch_invite (hcmd : recv.cmd = INVITE) :
    switch s c me recv heap = onInvite s recv := by
  simp [switch, hcmd, USR_CREATE, USR_LOGIN, CREATE_GROUP, INVITE]

theorem switch_inviteResp (hcmd : recv.cmd = INVITE_RESP) :
    switch s c me recv heap = onInviteResp s recv := by
  simp [switch, hcmd, USR_CREATE, USR_LOGIN, CREATE_GROUP, INVITE, INVITE_RESP]

theorem switch_sendChat (hcmd : recv.cmd = SEND_CHAT) :
    switch s c me recv heap = onSendChat s recv := by
  simp [switch, hcmd, USR_CREATE, USR_LOGIN, CREATE_GROUP, INVITE, INVITE_RESP, SEND_CHAT]

theorem switch_sendFile (hcmd : recv.cmd = SEND_FILE) :
    switch s c me recv heap = onSendFile s recv := by
  simp [switch, hcmd, USR_CREATE, USR_LOGIN, CREATE_GROUP, INVITE, INVITE_RESP, SEND_CHAT,
    ACTIVE_LIST, SEND_FILE]

theorem switch_downloadFile (hcmd : recv.cmd = DOWNLOAD_FILE) :
    switch s c me recv heap = onDownloadFile s c me recv heap := by
  simp [switch, hcmd, USR_CREATE, USR_LOGIN, CREATE_GROUP, INVITE, INVITE_RESP, SEND_CHAT,
    ACTIVE_LIST, SEND_FILE, DOWNLOAD_FILE]

end Commands

/-- The handler that has run for a packet. -/
inductive Handled (s : Server) (c : ConnId) (me : ClientThread) (recv : Mainhdr)
    (heap : Byte × Byte) (sent : List Sent) (s' : Server) : Prop
  | usrCreate (cmd : recv.cmd = USR_CREATE) (run : onUsrCreate s c recv = .ok (sent, s'))
  | usrLogin (cmd : recv.cmd = USR_LOGIN) (run : onUsrLogin s c me recv = .ok (sent, s'))
  | createGroup (cmd : recv.cmd = CREATE_GROUP) (run : onCreateGroup s c recv = .ok (sent, s'))
  | invite (cmd : recv.cmd = INVITE) (run : onInvite s recv = .ok (sent, s'))
  | inviteResp (cmd : recv.cmd = INVITE_RESP) (run : onInviteResp s recv = .ok (sent, s'))
  | sendChat (cmd : recv.cmd = SEND_CHAT) (run : onSendChat s recv = .ok (sent, s'))
  | activeList (cmd : recv.cmd = ACTIVE_LIST) (run : onActiveList s c recv = .ok (sent, s'))
  | sendFile (cmd : recv.cmd = SEND_FILE) (run : onSendFile s recv = .ok (sent, s'))
  | downloadFile (cmd : recv.cmd = DOWNLOAD_FILE)
      (run : onDownloadFile s c me recv heap = .ok (sent, s'))
  | unknown (login : recv.cmd ≠ USR_LOGIN) (upload : recv.cmd ≠ SEND_FILE)
      (idle : ¬ Acts s recv) (sent_nil : sent = []) (same : s' = s)

theorem switch_handled {s s' : Server} {c : ConnId} {me : ClientThread} {recv : Mainhdr}
    {heap : Byte × Byte} {sent : List Sent} (h : switch s c me recv heap = .ok (sent, s')) :
    Handled s c me recv heap sent s' := by
  rw [switch] at h
  by_cases hcreate : recv.cmd = USR_CREATE
  · rw [if_pos hcreate] at h
    exact .usrCreate hcreate h
  rw [if_neg hcreate] at h
  by_cases hlogin : recv.cmd = USR_LOGIN
  · rw [if_pos hlogin] at h
    exact .usrLogin hlogin h
  rw [if_neg hlogin] at h
  by_cases hgroup : recv.cmd = CREATE_GROUP
  · rw [if_pos hgroup] at h
    exact .createGroup hgroup h
  rw [if_neg hgroup] at h
  by_cases hinvite : recv.cmd = INVITE
  · rw [if_pos hinvite] at h
    exact .invite hinvite h
  rw [if_neg hinvite] at h
  by_cases hresp : recv.cmd = INVITE_RESP
  · rw [if_pos hresp] at h
    exact .inviteResp hresp h
  rw [if_neg hresp] at h
  by_cases hchat : recv.cmd = SEND_CHAT
  · rw [if_pos hchat] at h
    exact .sendChat hchat h
  rw [if_neg hchat] at h
  by_cases hlist : recv.cmd = ACTIVE_LIST
  · rw [if_pos hlist] at h
    exact .activeList hlist h
  rw [if_neg hlist] at h
  by_cases hfile : recv.cmd = SEND_FILE
  · rw [if_pos hfile] at h
    exact .sendFile hfile h
  rw [if_neg hfile] at h
  by_cases hdownload : recv.cmd = DOWNLOAD_FILE
  · rw [if_pos hdownload] at h
    exact .downloadFile hdownload h
  rw [if_neg hdownload] at h
  cases h
  exact .unknown hlogin hfile (by simp [Acts, hgroup, hinvite, hresp, hchat, hfile]) rfl rfl

/-- When the handler of a packet returns, it has done one of the things `Outcome` lists. -/
theorem switch_outcome {s s' : Server} {c : ConnId} {me : ClientThread} {recv : Mainhdr}
    {heap : Byte × Byte} {sent : List Sent} (hme : s.thread c = some me)
    (h : switch s c me recv heap = .ok (sent, s')) : Outcome s c recv sent s' := by
  cases switch_handled h with
  | usrCreate cmd run => exact onUsrCreate_outcome cmd run
  | usrLogin cmd run => exact onUsrLogin_outcome hme cmd run
  | createGroup cmd run => exact onCreateGroup_outcome cmd run
  | invite cmd run => exact onInvite_outcome cmd run
  | inviteResp cmd run => exact onInviteResp_outcome cmd run
  | sendChat cmd run => exact onSendChat_outcome cmd run
  | activeList cmd run => exact onActiveList_outcome cmd run
  | sendFile cmd run => exact onSendFile_outcome cmd run
  | downloadFile cmd run => exact onDownloadFile_outcome hme cmd run
  | unknown login upload idle sent_nil same =>
      rw [sent_nil, same]
      exact .quiet (loginResult_of_ne login) idle rfl (.refl _) not_speaks_nil

/-- What an outcome means for the sessions: a login, or nothing. -/
theorem Outcome.sessions {s s' : Server} {c : ConnId} {recv : Mainhdr} {sent : List Sent}
    (h : Outcome s c recv sent s') :
    (∃ k, loginResult s recv = some k ∧ s'.activeSockets = s.activeSockets.insert k.toNat c ∧
      (∀ d, s'.uidOf d = if d = c then some (UInt16.ofInt k) else s.uidOf d) ∧
      s'.clients.length = s.clients.length) ∨
    (loginResult s recv = none ∧ SameSessions s s') := by
  cases h with
  | login k result activeSockets uidOf count groups quiet =>
      exact Or.inl ⟨k, result, activeSockets, uidOf, count⟩
  | creates gid cmd pos free groups same quiet =>
      exact Or.inr ⟨loginResult_of_cmd cmd (by decide), same⟩
  | joins g cmd checked group ne fresh groups same quiet =>
      exact Or.inr ⟨loginResult_of_cmd cmd (by decide), same⟩
  | invites peerId peerData cmd checked out groups same =>
      exact Or.inr ⟨loginResult_of_cmd cmd (by decide), same⟩
  | speaks acts out own groups same =>
      rcases acts.1 with ⟨cmd, -⟩ | cmd
      · exact Or.inr ⟨loginResult_of_cmd cmd (by decide), same⟩
      · exact Or.inr ⟨loginResult_of_cmd cmd (by decide), same⟩
  | quiet result idle groups same quiet => exact Or.inr ⟨result, same⟩

/-- What a packet does to the groups. -/
inductive GroupChange (s : Server) (recv : Mainhdr) (s' : Server) : Prop
  | creates (gid : UInt8) (cmd : recv.cmd = CREATE_GROUP) (pos : 0 < recv.uid)
      (free : s.groups[gid.toNat]? = some [])
      (groups : s'.groups = s.groups.setIfInBounds gid.toNat [recv.uid])
  | joins (g : List UInt16) (cmd : recv.cmd = INVITE_RESP) (checked : Joins s recv)
      (group : s.groups[recv.gid.toNat]? = some g) (ne : g ≠ []) (fresh : recv.uid ∉ g)
      (groups : s'.groups = s.groups.setIfInBounds recv.gid.toNat (g ++ [recv.uid]))
  | same (stays : recv.cmd = INVITE_RESP → ¬ Joins s recv) (groups : s'.groups = s.groups)

theorem Outcome.groupChange {s s' : Server} {c : ConnId} {recv : Mainhdr} {sent : List Sent}
    (h : Outcome s c recv sent s') : GroupChange s recv s' := by
  cases h with
  | login k result activeSockets uidOf count groups quiet =>
      refine .same (fun cmd => ?_) groups
      rw [loginResult_of_cmd cmd (by decide)] at result
      cases result
  | creates gid cmd pos free groups same quiet => exact .creates gid cmd pos free groups
  | joins g cmd checked group ne fresh groups same quiet =>
      exact .joins g cmd checked group ne fresh groups
  | invites peerId peerData cmd checked out groups same =>
      exact .same (fun cmd' => absurd (cmd.symm.trans cmd') (by decide)) groups
  | speaks acts out own groups same =>
      refine .same (fun cmd' => ?_) groups
      rcases acts.1 with ⟨cmd, -⟩ | cmd
      · exact absurd (cmd.symm.trans cmd') (by decide)
      · exact absurd (cmd.symm.trans cmd') (by decide)
  | quiet result idle groups same quiet =>
      exact .same (fun cmd hjoins => idle ((acts_inviteResp cmd).mpr hjoins)) groups

end GroupChat
