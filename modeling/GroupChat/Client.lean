import GroupChat.Hashmap
import GroupChat.Server

/-!
# The client and its connection

The threads of `chat-client.c` after the login: the main thread in `handle_user_input`, the
writer, the reader and one window for each group. They share the outgoing queue, the queue of
invitations and `group_mapping`, a hash map from gids to the message queues of the windows.

A `Session` is one client with the server and what is between them: the connection keeps the
order of the packets in each direction. An event is one step of one thread, up to the next
queue, map or socket it uses. Parsing what the user types, the texts for `stdout` and the
drawing of the windows are left out; allocation and the creation of threads succeed.
-/

namespace GroupChat

open Posix

/-- Where the main thread is. -/
inductive MainThread
  /-- at a prompt -/
  | prompting
  /-- it has queued its acceptance and calls `create_new_group` next -/
  | accepted (inviteGid : UInt8)
  /-- in a `hashmap_put` that does not return -/
  | waiting
  deriving DecidableEq, Repr

/-- A message queue of a group, with the window that shows its messages. -/
structure GroupWindow where
  gid : UInt8
  gidQueue : List Mainhdr
  deriving DecidableEq, Repr

/-- The pointers in `group_mapping` are indices of `windows`. -/
structure Client where
  myUid : UInt16
  groupMapping : HashmapMap Nat
  windows : List GroupWindow
  outgoingMessageQueue : List Packet
  groupRequestQueue : List UInt8
  main : MainThread
  /-- the reader is in a call on `group_mapping` that does not return -/
  readerWaits : Bool

/-! ## Requests -/

/-- What a user types that becomes the payload of a packet. -/
structure Line where
  text : List Byte
  short : text.length < 2 ^ 32

/-- `create_and_fill_hdr` and the `strncpy` into the payload that follows it. -/
def requestPacket (cmd gid : UInt8) (uid : UInt16) (line : Line) : Packet :=
  ⟨{ createAndFillHdr cmd gid uid (UInt32.ofNat line.text.length) with payload := line.text }, by
    change line.text.length = (UInt32.ofNat line.text.length).toNat
    rw [UInt32.toNat_ofNat', Nat.mod_eq_of_lt line.short]⟩

/-- A request for a group, from the main thread or from a window. -/
inductive GroupRequest
  | invite (username : Line)
  | send (message : Line)
  | download (filename : Line)

def GroupRequest.packet (gid : UInt8) (uid : UInt16) : GroupRequest → Packet
  | .invite username => requestPacket INVITE gid uid username
  | .send message => requestPacket SEND_CHAT gid uid message
  | .download filename => requestPacket DOWNLOAD_FILE gid uid filename

def newGroupPacket (uid : UInt16) : Packet := ⟨createAndFillHdr CREATE_GROUP 0 uid 0, rfl⟩

def activeListPacket (uid : UInt16) : Packet := ⟨createAndFillHdr ACTIVE_LIST 0 uid 0, rfl⟩

/-- The answer to an invitation; `response` is `'a'` or `'d'`. -/
def responsePacket (inviteGid : UInt8) (uid : UInt16) (response : Byte) : Packet :=
  ⟨{ createAndFillHdr INVITE_RESP inviteGid uid 1 with payload := [response] }, rfl⟩

/-- `uid%d_%d_%d.file`, the name under which a client stores what it has downloaded. -/
def cfileFormat (myUid : UInt16) (gid : UInt8) (fileId : UInt16) : List Byte :=
  [117, 105, 100] ++ decimal myUid.toNat ++ 95 :: (decimal gid.toNat ++
    95 :: (decimal fileId.toNat ++ [46, 102, 105, 108, 101]))

/-! ## The threads -/

namespace Client

/-- The client when `handle_user_input` starts. -/
def start (myUid : UInt16) : Client where
  myUid := myUid
  groupMapping := hashmapNew
  windows := []
  outgoingMessageQueue := []
  groupRequestQueue := []
  main := .prompting
  readerWaits := false

/-- `thread_queue_add` on the outgoing queue. -/
def queue (client : Client) (p : Packet) : Client :=
  { client with outgoingMessageQueue := client.outgoingMessageQueue ++ [p] }

/-- `create_new_group`, or nothing if its `hashmap_put` does not return. -/
def createNewGroup (fuel : Nat) (client : Client) (gid : UInt8) : Option Client :=
  (hashmapPut true fuel client.groupMapping gid.toUInt64 (some client.windows.length)).map
    fun r => { client with groupMapping := r.2, windows := client.windows ++ [⟨gid, []⟩] }

/-- A `hashmap_put` that does not return has the lock. -/
def hold (client : Client) : Client :=
  { client with groupMapping := { client.groupMapping with lock := true } }

/-- One turn of the invitation loop of `handle_user_input`, up to `create_new_group`. -/
def answerInvite (client : Client) (answer : Byte) : Option Client :=
  match client.main, client.groupRequestQueue with
  | .prompting, inviteGid :: rest =>
    let client := { client with groupRequestQueue := rest }
    if answer = 121 ∨ answer = 89 then
      some { client.queue (responsePacket inviteGid client.myUid 97) with
        main := .accepted inviteGid }
    else if answer = 110 ∨ answer = 78 then
      some (client.queue (responsePacket inviteGid client.myUid 100))
    else some client
  | _, _ => none

/-- The rest of that turn. -/
def register (fuel : Nat) (client : Client) : Option Client :=
  match client.main with
  | .accepted inviteGid =>
    match client.createNewGroup fuel inviteGid with
    | none => some { client.hold with main := .waiting }
    | some client => some { client with main := .prompting }
  | _ => none

/-- A command that the main thread puts on the outgoing queue. -/
def command (client : Client) (p : Packet) : Option Client :=
  match client.main with
  | .prompting => some (client.queue p)
  | _ => none

/-- `thread_queue_add` on the message queue of a window. -/
def addMessage (client : Client) (groupQueue : Nat) (recv : Mainhdr) : Client :=
  { client with
    windows := client.windows.modify groupQueue fun w =>
      { w with gidQueue := w.gidQueue ++ [recv] } }

/-- One turn of `server_read_function`. -/
def serverRead (fuel : Nat) (client : Client) : Sent → Except Fault Client
  | .packet _ recv =>
    if recv.cmd = SEND_CHAT then
      match hashmapGet client.groupMapping recv.gid.toUInt64 with
      | none => .ok { client with readerWaits := true }
      | some (status, groupQueue, groupMapping) =>
        let client := { client with groupMapping := groupMapping }
        if status = MAP_OK then
          match groupQueue with
          | none => .error .nullPointer
          | some groupQueue => .ok (client.addMessage groupQueue recv)
        else .ok client
    else if recv.cmd = INVITE then
      .ok { client with groupRequestQueue := client.groupRequestQueue ++ [recv.gid] }
    else if recv.cmd = CREATE_GROUP ∧ (recv.payload ++ [0]).head? = some (0 : Byte) then
      match client.createNewGroup fuel recv.gid with
      | none => .ok { client.hold with readerWaits := true }
      | some client => .ok client
    else .ok client
  | .file .. => .ok client

/-- A window takes a message off its queue. -/
def display (client : Client) (window : Nat) : Client :=
  { client with
    windows := client.windows.modify window fun w => { w with gidQueue := w.gidQueue.tail } }

end Client

/-! ## The session -/

/-- What is on its way to the client, with the gids of the acceptances that the server had
processed when it sent it. -/
structure InFlight where
  sent : Sent
  accepted : List UInt8
  deriving DecidableEq, Repr

/-- A client on the connection `connfd`, the server and what is between them. `accepted` keeps
the gids of the acceptances from this connection that the server has processed. -/
structure Session where
  client : Client
  connfd : ConnId
  server : Server
  toServer : List Packet
  toClient : List InFlight
  accepted : List UInt8

inductive SessionEvent
  /-- the main thread reads the answer to the invitation it has asked about -/
  | answer (answer : Byte)
  /-- the main thread calls `create_new_group` -/
  | register
  /-- the main thread reads a command -/
  | newGroup
  | activeList
  | request (gid : UInt8) (r : GroupRequest)
  /-- a window reads a line -/
  | typed (window : Nat) (r : GroupRequest)
  /-- `send_file` writes to the socket -/
  | upload (file : Packet) (cmd : file.cmd = SEND_FILE)
  /-- the writer sends the next packet of the outgoing queue -/
  | write
  /-- the server thread of this connection handles the next packet -/
  | serve (heap : Byte × Byte)
  /-- something else happens at the server -/
  | other (e : Event)
  /-- the reader handles the next packet -/
  | read
  /-- a window shows a message -/
  | display (window : Nat)

/-- Why there is no next state. -/
inductive SessionStop
  | client (fault : Fault)
  | server (stop : Stop)
  | notReady
  deriving DecidableEq, Repr

/-- An acceptance of an invitation. -/
def Accepts (p : Packet) : Prop := p.cmd = INVITE_RESP ∧ (p.payload ++ [0]).head? = some 97

instance (p : Packet) : Decidable (Accepts p) := inferInstanceAs (Decidable (_ ∧ _))

/-- The event is on this connection. -/
def Event.isOn (c : ConnId) : Event → Bool
  | .accept => false
  | .received d .. | .closed d => d = c

def Sent.connfd : Sent → ConnId
  | .packet connfd _ | .file connfd .. => connfd

namespace Session

/-- The client has logged in on `connfd`, the server may be in any state. -/
def start (myUid : UInt16) (connfd : ConnId) (server : Server) : Session where
  client := .start myUid
  connfd := connfd
  server := server
  toServer := []
  toClient := []
  accepted := []

/-- The server has gone on to `server` and put `sent` on the sockets. -/
def served (s : Session) (sent : List Sent) (server : Server) : Session :=
  { s with
    server := server
    toClient := s.toClient ++
      (sent.filter fun x => x.connfd = s.connfd).map fun x => ⟨x, s.accepted⟩ }

/-- A step of the client. -/
def withClient (s : Session) (client : Option Client) : Except SessionStop (Unit × Session) :=
  match client with
  | none => .error .notReady
  | some client => .ok ((), { s with client := client })

def step (fuel : Nat) (s : Session) : SessionEvent → Except SessionStop (Unit × Session)
  | .answer answer => s.withClient (s.client.answerInvite answer)
  | .register => s.withClient (s.client.register fuel)
  | .newGroup => s.withClient (s.client.command (newGroupPacket s.client.myUid))
  | .activeList => s.withClient (s.client.command (activeListPacket s.client.myUid))
  | .request gid r => s.withClient (s.client.command (r.packet gid s.client.myUid))
  | .typed window r =>
    s.withClient (s.client.windows[window]?.map fun w =>
      s.client.queue (r.packet w.gid s.client.myUid))
  | .upload file _ => .ok ((), { s with toServer := s.toServer ++ [file] })
  | .write =>
    match s.client.outgoingMessageQueue with
    | [] => .error .notReady
    | hdr :: rest =>
      .ok ((), { s with
        client := { s.client with outgoingMessageQueue := rest }
        toServer := s.toServer ++ [hdr] })
  | .serve heap =>
    match s.toServer with
    | [] => .error .notReady
    | recv :: rest =>
      match GroupChat.step s.server (.received s.connfd recv heap) with
      | .error stop => .error (.server stop)
      | .ok (sent, server) =>
        let s := { s.served sent server with toServer := rest }
        if Accepts recv then .ok ((), { s with accepted := recv.gid :: s.accepted })
        else .ok ((), s)
  | .other e =>
    if e.isOn s.connfd then .error .notReady
    else
      match GroupChat.step s.server e with
      | .error stop => .error (.server stop)
      | .ok (sent, server) => .ok ((), s.served sent server)
  | .read =>
    if s.client.readerWaits then .error .notReady
    else
      match s.toClient with
      | [] => .error .notReady
      | x :: rest =>
        match s.client.serverRead fuel x.sent with
        | .error fault => .error (.client fault)
        | .ok client => .ok ((), { s with client := client, toClient := rest })
  | .display window => .ok ((), { s with client := s.client.display window })

end Session

end GroupChat
