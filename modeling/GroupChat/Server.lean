import GroupChat.Credential
import GroupChat.Posix.Path
import GroupChat.Wire.Send
import Mathlib.Data.List.AList

/-!
# The server

The state of `chat-server.c` and one step of it. A connection is a number, the index of its
`client_thread_data_t` in `clients`; the entry is `none` once the thread has closed the socket
and freed the struct, and a use of it after that is a fault. `active_sockets` is a finite map
from uids to connections.

A step is one accepted connection, one received packet with everything the handler does, or
one closed connection: the threads of the connections take turns, a request at a time. It returns
what is put on the sockets. `switch` has a definition for each case of the `switch` in
`client_thread_function`; a `break` without an answer sends nothing. Where a path leads from the
directory of the server is a parameter (`Paths`), so that a path may pass through any directories
and leave this one. The message queue of the struct, which the server never uses, the texts for
`stdout` and the results of `malloc` and of writing a file, which are taken to succeed, are left
out.
-/

namespace GroupChat

open Posix

def GROUP_NUM_MAX : Nat := 255

/-- A connection, which is also its socket. -/
abbrev ConnId := Nat

structure ClientThreadData where
  uid : UInt16
  username : List Byte
  deriving DecidableEq, Repr

/-- A client thread: its struct and the local variable `file_id`, which lives as long. -/
structure ClientThread where
  data : ClientThreadData
  fileId : Int
  deriving DecidableEq, Repr

/-- What is put on a socket, by `send_main_header` or by `send_file`. -/
inductive Sent
  | packet (connfd : ConnId) (hdr : Mainhdr)
  | file (connfd : ConnId) (gid : UInt8) (uid : UInt16) (content : List Byte)
  deriving DecidableEq, Repr

/-- `%d_%d.file` -/
def fileFormat (gid : UInt8) (fileCnt : Nat) : List Byte :=
  decimal gid.toNat ++ 95 :: (decimal fileCnt ++ [46, 102, 105, 108, 101])

theorem underscore_mem_fileFormat (gid : UInt8) (fileCnt : Nat) : 95 ∈ fileFormat gid fileCnt :=
  List.mem_append_right _ List.mem_cons_self

theorem slash_not_mem_fileFormat (gid : UInt8) (fileCnt : Nat) : 47 ∉ fileFormat gid fileCnt := by
  have hslash : ∀ k : Nat, (47 : Byte) ∉ decimal k := not_mem_decimal (by decide)
  rw [fileFormat, List.mem_append, List.mem_cons, List.mem_append, not_or, not_or, not_or]
  exact ⟨hslash _, by decide, hslash _, by decide⟩

/-- Where the paths lead that `fopen` is given. A name that the server gives to an upload is that of
no directory. -/
structure Paths where
  target : List Byte → Target
  uploads : ∀ gid fileCnt,
    target (46 :: 47 :: fileFormat gid fileCnt) = .entry (fileFormat gid fileCnt)

/-- The disk that the server is started on: what is in its directory, and the paths from there. -/
structure Disk where
  files : AList fun _ : List Byte => List Byte
  paths : Paths

/-- The paths from a directory in a tree that has no directories with the names of uploads there. -/
def Paths.ofTree (t : FileTree) (hcwd : t.isDirectory t.cwd = true)
    (huploads : ∀ gid fileCnt, t.isDirectory (t.cwd ++ [fileFormat gid fileCnt]) = false) :
    Paths where
  target := t.target
  uploads := by
    intro gid fileCnt
    have hmem := underscore_mem_fileFormat gid fileCnt
    refine FileTree.target_name hcwd (slash_not_mem_fileFormat gid fileCnt) ⟨?_, ?_, ?_⟩
      (huploads gid fileCnt)
    all_goals
      intro h
      rw [h] at hmem
      exact absurd hmem (by decide)

/-- An empty directory `/d`, and nothing else on the machine. -/
def bareTree : FileTree := ⟨[[100]], fun place => place = [] ∨ place = [[100]], fun _ => none⟩

instance : EmptyCollection Disk :=
  ⟨∅, .ofTree bareTree (by decide) fun _ _ => by simp [bareTree]⟩

structure Server where
  groupCnt : Nat
  groups : Vector (List UInt16) GROUP_NUM_MAX
  fileCnt : Nat
  activeSockets : AList fun _ : Nat => ConnId
  clients : List (Option ClientThread)
  credential : CredentialFile
  files : AList fun _ : List Byte => List Byte
  paths : Paths

namespace Server

/-- The server when `main` has initialised it, with what is on the disk. -/
def start (credential : CredentialFile) (disk : Disk) : Server where
  groupCnt := 0
  groups := Vector.replicate GROUP_NUM_MAX []
  fileCnt := 1
  activeSockets := ∅
  clients := []
  credential := credential
  files := disk.files
  paths := disk.paths

/-- The thread of a connection that is open. -/
def thread (s : Server) (c : ConnId) : Option ClientThread := s.clients[c]?.join

/-- `data->connfd`. -/
def connfd (s : Server) (data : ConnId) : Except Fault ConnId :=
  match s.thread data with
  | none => .error .useAfterFree
  | some _ => .ok data

/-- `groups[gid]`; the empty list is `NULL`. -/
def groupAt (s : Server) (gid : UInt8) : Except Fault (List UInt16) :=
  match s.groups[gid.toNat]? with
  | none => .error .outOfBounds
  | some g => .ok g

end Server

/-! ## Groups -/

def checkUserInGroup (uid : UInt16) (gid : UInt8) (s : Server) : Except Fault Int := do
  let current ← s.groupAt gid
  return if uid ∈ current then 0 else ERR_GENERIC

def groupAddTail (head : List UInt16) (uid : UInt16) : Except Fault (List UInt16) :=
  if head = [] then .error .nullPointer else .ok (head ++ [uid])

def addUserToGroup (uid : UInt16) (gid : UInt8) (s : Server) : Except Fault Server := do
  let group ← groupAddTail (← s.groupAt gid) uid
  return { s with groups := s.groups.setIfInBounds gid.toNat group }

def checkHeaderInvite (packet : Mainhdr) : Int :=
  if packet.uid ≤ 0 ∨ packet.len.toNat > MAX_CHAR_USERID - 1 then -1 else 0

def checkHeaderChat (packet : Mainhdr) : Int := if packet.uid ≤ 0 then -1 else 0

/-- The loop of `forward_to_group` over the members of the group. -/
def forwardLoop (s : Server) (sendPacket : Mainhdr) : List UInt16 → Except Fault (List Sent)
  | [] => .ok []
  | uid :: next =>
    match s.activeSockets.lookup uid.toNat with
    | none => forwardLoop s sendPacket next
    | some data => do
      let fd ← s.connfd data
      let sent ← forwardLoop s sendPacket next
      return .packet fd sendPacket :: sent

def forwardToGroup (s : Server) (gid : UInt8) (sendPacket : Mainhdr) :
    Except Fault (List Sent) := do
  let head ← s.groupAt gid
  forwardLoop s sendPacket head

/-! ## The cases of the switch -/

/-- A reply of one status byte. -/
def statusReply (cmd gid : UInt8) (uid : UInt16) (status : UInt8) : Mainhdr :=
  { createAndFillHdr cmd gid uid 1 with payload := [status] }

def onUsrCreate (s : Server) (c : ConnId) (recv : Mainhdr) : Except Fault (List Sent × Server) := do
  let (newUid, status, credential) ← usrCreate recv.payload recv.len s.credential
  return ([.packet c (statusReply recv.cmd 0 newUid status)], { s with credential := credential })

def onUsrLogin (s : Server) (c : ConnId) (me : ClientThread) (recv : Mainhdr) :
    Except Fault (List Sent × Server) := do
  let (username, status, credential) ← usrLogin recv.payload recv.len s.credential
  let s := { s with credential := credential }
  if status > 0 then
    let name ← strncpy me.data.username username MAX_CHAR_USERID
    let me := { me with data := { uid := UInt16.ofInt status, username := name } }
    return ([.packet c (statusReply USR_LOGIN 0 (UInt16.ofInt status) 0)],
      { s with
        clients := s.clients.set c (some me)
        activeSockets := s.activeSockets.insert status.toNat c })
  else
    return ([.packet c (statusReply USR_LOGIN 0 0 (UInt8.ofInt ERR_GENERIC))], s)

/-- The scan for a slot, which reads `groups` past its end when there is none. -/
def scanGroups (groups : Vector (List UInt16) GROUP_NUM_MAX) (groupCnt : Nat) :
    Except Fault Nat :=
  if h : groupCnt < GROUP_NUM_MAX then
    if groups[groupCnt] ≠ [] then scanGroups groups (groupCnt + 1) else .ok groupCnt
  else .error .outOfBounds
termination_by GROUP_NUM_MAX - groupCnt

def onCreateGroup (s : Server) (c : ConnId) (recv : Mainhdr) :
    Except Fault (List Sent × Server) :=
  if recv.uid ≤ 0 then
    .ok ([.packet c (statusReply CREATE_GROUP 0 recv.uid (UInt8.ofInt ERR_NEED_LOGIN))], s)
  else do
    let groupCnt ← scanGroups s.groups s.groupCnt
    let s := { s with groupCnt := groupCnt }
    if groupCnt > GROUP_NUM_MAX then
      return ([.packet c (statusReply CREATE_GROUP 0 recv.uid (UInt8.ofInt ERR_OUT_MEM))], s)
    else
      let gid := UInt8.ofNat groupCnt
      return ([.packet c (statusReply CREATE_GROUP gid recv.uid 0)],
        { s with groups := s.groups.setIfInBounds gid.toNat [recv.uid] })

/-- The array `username` of the `INVITE` case. -/
def inviteName (recv : Mainhdr) : Except Fault (List Byte) :=
  strncpy (List.replicate MAX_CHAR_USERID 0) (recv.payload ++ [0]) recv.len.toNat

def onInvite (s : Server) (recv : Mainhdr) : Except Fault (List Sent × Server) :=
  if checkHeaderInvite recv ≠ 0 then .ok ([], s)
  else do
    let group ← s.groupAt recv.gid
    if group = [] then return ([], s)
    else if (← checkUserInGroup recv.uid recv.gid s) ≠ 0 then return ([], s)
    else
      let username ← inviteName recv
      let (peerId, credential) ← findUid username s.credential
      let s := { s with credential := credential }
      if peerId ≤ 0 then return ([], s)
      else
        match s.activeSockets.lookup peerId.toNat with
        | none => return ([], s)
        | some peerData =>
          let fd ← s.connfd peerData
          return ([.packet fd (createAndFillHdr INVITE recv.gid recv.uid 0)], s)

def onInviteResp (s : Server) (recv : Mainhdr) : Except Fault (List Sent × Server) :=
  if checkHeaderInvite recv ≠ 0 then .ok ([], s)
  else do
    let group ← s.groupAt recv.gid
    if group = [] then return ([], s)
    else if (← checkUserInGroup recv.uid recv.gid s) = 0 then return ([], s)
    else if (recv.payload ++ [0]).head? = some 97 then
      return ([], ← addUserToGroup recv.uid recv.gid s)
    else return ([], s)

/-- The packet a chat message is forwarded in. -/
def chatPacket (recv : Mainhdr) (username : List Byte) : Mainhdr :=
  { createAndFillHdr SEND_CHAT recv.gid recv.uid (UInt32.ofNat (recv.len.toNat + username.length + 1))
    with payload := username ++ 58 :: recv.payload }

def onSendChat (s : Server) (recv : Mainhdr) : Except Fault (List Sent × Server) :=
  if checkHeaderChat recv ≠ 0 then .ok ([], s)
  else do
    let group ← s.groupAt recv.gid
    if group = [] then return ([], s)
    else if (← checkUserInGroup recv.uid recv.gid s) ≠ 0 then return ([], s)
    else
      let (len, username, credential) ←
        findUsername recv.uid (List.replicate MAX_CHAR_USERID 0) s.credential
      let s := { s with credential := credential }
      if len ≤ 0 then return ([], s)
      -- the length wraps, and the copies run past the packet
      else if 2 ^ 32 ≤ recv.len.toNat + len.toNat + 1 then throw .outOfBounds
      else
        let sendPacket := chatPacket recv (← cstr username)
        let sent ← forwardToGroup s sendPacket.gid sendPacket
        return (sent, s)

/-- `active_socket_walk` over the entries of the registry. -/
def activeSocketWalk (s : Server) : List ConnId → Except Fault (List Byte)
  | [] => .ok []
  | c :: rest =>
    match s.thread c with
    | none => .error .useAfterFree
    | some thread => do
      let name ← cstr thread.data.username
      let others ← activeSocketWalk s rest
      return name ++ 44 :: others

/-- `./active_name.txt` -/
def ACTIVE_USER_FILE_NAME : List Byte :=
  [97, 99, 116, 105, 118, 101, 95, 110, 97, 109, 101, 46, 116, 120, 116]

/-- The names come in the order of the entries, in the source in that of the slots of the hash map.
The order is left open: nothing is to depend on it. -/
def onActiveList (s : Server) (c : ConnId) (recv : Mainhdr) :
    Except Fault (List Sent × Server) := do
  let text ← activeSocketWalk s (s.activeSockets.entries.map Sigma.snd)
  let activeStr := (fgetsLines 1024 text).headD []
  let len := UInt32.ofNat activeStr.length
  return ([.packet c { createAndFillHdr ACTIVE_LIST 0 recv.uid len with payload := activeStr }],
    { s with files := s.files.insert ACTIVE_USER_FILE_NAME text })

/-- `%s just send file %s`, cut or padded to the announced length. -/
def filePacket (recv : Mainhdr) (len : Int) (username filename : List Byte) : Mainhdr :=
  let sendLen := UInt32.ofInt (len + filename.length + 17)
  let text := username ++ [32, 106, 117, 115, 116, 32, 115, 101, 110, 100, 32, 102, 105, 108,
    101, 32] ++ filename
  { createAndFillHdr SEND_CHAT recv.gid recv.uid sendLen with
    payload := text.take sendLen.toNat ++ List.replicate (sendLen.toNat - text.length) 0 }

/-- What `receive_to_file` puts in the file of an upload: the payload is what it takes off the
socket. -/
def storedContent (recv : Mainhdr) : List Byte :=
  if toInt32 recv.len.toNat > 0 then recv.payload else []

/-- The `SEND_FILE` case as far as `receive_to_file`. -/
def storeUpload (s : Server) (recv : Mainhdr) : Except Fault Server := do
  let filename := fileFormat recv.gid s.fileCnt
  if 2 ^ 31 ≤ s.fileCnt + 1 then throw .overflow
  return { s with
    fileCnt := s.fileCnt + 1
    files := s.files.insert filename (storedContent recv) }

def onSendFile (s : Server) (recv : Mainhdr) : Except Fault (List Sent × Server) := do
  let filename := fileFormat recv.gid s.fileCnt
  let s ← storeUpload s recv
  let (len, username, credential) ←
    findUsername recv.uid (List.replicate MAX_CHAR_USERID 0) s.credential
  let s := { s with credential := credential }
  let sendPacket := filePacket recv len (← cstr username) filename
  let sent ← forwardToGroup s sendPacket.gid sendPacket
  return (sent, s)

/-- `split`: the arrays of the tokens. The last one has no terminator but whatever `malloc`
left in its last byte. -/
def split (str : List Byte) (c heap : Byte) : List (List Byte) :=
  (str.splitOn c).dropLast.map (· ++ [0]) ++ [(str.splitOn c).getLastD [] ++ [heap]]

/-- `./credential.txt` -/
def CREDENTIAL_FILE_NAME : List Byte :=
  [99, 114, 101, 100, 101, 110, 116, 105, 97, 108, 46, 116, 120, 116]

/-- What `fopen` opens for reading. -/
inductive Opened
  | failed
  | directory
  | file (content : List Byte)
  deriving DecidableEq, Repr

def Server.fopen (s : Server) (filename : List Byte) : Opened :=
  match s.paths.target filename with
  | .nothing => .failed
  | .directory => .directory
  | .elsewhere content => .file content
  | .entry name =>
    if name = CREDENTIAL_FILE_NAME then .file s.credential.content
    else
      match s.files.lookup name with
      | none => .failed
      | some content => .file content

def LONG_MAX : Int := 2 ^ 63 - 1

/-- What `send_file` sends of a directory, which opens for reading: `ftell` returns `LONG_MAX` at
its end, and as an `int` that is negative. -/
def directoryHeader (gid : UInt8) (uid : UInt16) : Mainhdr :=
  { createAndFillHdr SEND_FILE gid uid 0 with len := UInt32.ofInt (toInt32 LONG_MAX) }

/-- `heap` is what the two calls of `split` find in the last bytes of their last tokens. -/
def onDownloadFile (s : Server) (c : ConnId) (me : ClientThread) (recv : Mainhdr)
    (heap : Byte × Byte) : Except Fault (List Sent × Server) := do
  let name := (← cstr (recv.payload ++ [0])).take 97
  let filename := 46 :: 47 :: name
  let group ← s.groupAt recv.gid
  if group = [] then return ([], s)
  else if (← checkUserInGroup recv.uid recv.gid s) ≠ 0 then return ([], s)
  else
    match (split filename 95 heap.1)[1]? with
    | none => throw .outOfBounds
    | some input =>
      let number ← cstr ((split (← cstr input) 46 heap.2).headD [])
      let fileId := (← scanInt number).getD me.fileId
      let s := { s with clients := s.clients.set c (some { me with fileId := fileId }) }
      match s.fopen filename with
      | .failed => return ([], s)
      | .directory => return ([.packet c (directoryHeader recv.gid (UInt16.ofInt fileId))], s)
      | .file content => return ([.file c recv.gid (UInt16.ofInt fileId) content], s)

/-- The `switch` of `client_thread_function`. -/
def switch (s : Server) (c : ConnId) (me : ClientThread) (recv : Mainhdr) (heap : Byte × Byte) :
    Except Fault (List Sent × Server) :=
  if recv.cmd = USR_CREATE then onUsrCreate s c recv
  else if recv.cmd = USR_LOGIN then onUsrLogin s c me recv
  else if recv.cmd = CREATE_GROUP then onCreateGroup s c recv
  else if recv.cmd = INVITE then onInvite s recv
  else if recv.cmd = INVITE_RESP then onInviteResp s recv
  else if recv.cmd = SEND_CHAT then onSendChat s recv
  else if recv.cmd = ACTIVE_LIST then onActiveList s c recv
  else if recv.cmd = SEND_FILE then onSendFile s recv
  else if recv.cmd = DOWNLOAD_FILE then onDownloadFile s c me recv heap
  else .ok ([], s)

/-! ## Steps -/

inductive Event
  /-- `main` accepts a connection and starts its thread -/
  | accept
  /-- the thread of a connection has received a packet -/
  | received (c : ConnId) (recv : Packet) (heap : Byte × Byte)
  /-- `read_main_header` returns `NULL` and the thread ends -/
  | closed (c : ConnId)

/-- Why there is no next state. -/
inductive Stop
  | undefined (fault : Fault)
  | notOpen
  deriving DecidableEq, Repr

/-- `client_arg->uid = -1`; the name is not set before the first login. -/
def freshThread : ClientThread := ⟨⟨UInt16.ofInt (-1), List.replicate MAX_CHAR_USERID 0⟩, 0⟩

/-- The end of `client_thread_function`. -/
def onClosed (s : Server) (c : ConnId) (me : ClientThread) : Server :=
  { s with
    activeSockets :=
      if me.data.uid > 0 then s.activeSockets.erase me.data.uid.toNat else s.activeSockets
    clients := s.clients.set c none }

def step (s : Server) : Event → Except Stop (List Sent × Server)
  | .accept => .ok ([], { s with clients := s.clients ++ [some freshThread] })
  | .received c recv heap =>
    match s.thread c with
    | none => .error .notOpen
    | some me => (switch s c me recv.toMainhdr heap).mapError Stop.undefined
  | .closed c =>
    match s.thread c with
    | none => .error .notOpen
    | some me => .ok ([], onClosed s c me)

end GroupChat
