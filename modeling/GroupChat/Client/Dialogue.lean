import GroupChat.Client
import GroupChat.Credential.Typed
import GroupChat.Posix.Block

/-!
# The dialogue before the chat

`main` of `chat-client.c` asks for an answer, a username and a password, sends `USR_LOGIN` or
`USR_CREATE`, and goes on when the server has accepted a login. The program is deterministic: what
is typed is a list of bytes up to the end of the input, and at its end `scanf` leaves the
variables as they are. A `turn` goes up to the next use of the socket.

A `Process` is a run of the program, before or after the login. What it does is a `ProcessEvent`,
and each of them writes one packet, reads one or does not use the socket (`Act`).
-/

namespace GroupChat

open Posix

/-! ## What is typed -/

/-- An array that holds a string. -/
structure Word (size : Nat) where
  bytes : List Byte
  full : bytes.length = size
  hasNul : 0 ∈ bytes

namespace Word

/-- The array after `memset` with zeros. -/
def zeros (width : Nat) : Word (width + 1) :=
  ⟨List.replicate (width + 1) 0, List.length_replicate, List.mem_cons_self⟩

/-- A string stored at the start of the array. -/
def store {width : Nat} (dest : Word (width + 1)) (s : List Byte) (h : s.length ≤ width) :
    Word (width + 1) where
  bytes := overwrite dest.bytes 0 (s ++ [0])
  full := by
    refine (length_overwrite ?_).trans dest.full
    rw [dest.full, List.length_append, List.length_singleton]
    omega
  hasNul := by
    rw [overwrite_zero, List.mem_append, List.mem_append]
    exact Or.inl (Or.inr List.mem_cons_self)

def argument {size : Nat} (w : Word size) : Argument := .ofBuf w.bytes

end Word

/-- `scanf("%c", &answer)` -/
def scanChar (answer : Byte) : List Byte → Byte × List Byte
  | [] => (answer, [])
  | b :: input => (b, input)

def tolower (b : Byte) : Byte := if 65 ≤ b ∧ b ≤ 90 then b + 32 else b

/-- `scanf` with `%7s` or `%127s`, for an array with room for a terminator. -/
def scanWord {width : Nat} (dest : Word (width + 1)) (input : List Byte) :
    Word (width + 1) × List Byte :=
  let input := input.dropWhile isSpace
  let word := (input.take width).takeWhile fun b => !isSpace b
  if input = [] then (dest, [])
  else
    (dest.store word ((List.takeWhile_prefix _).length_le.trans (List.length_take_le _ _)),
      input.drop word.length)

/-! ## The dialogue -/

inductive DialogueStage
  /-- about to read an answer -/
  | asking
  /-- has sent `USR_CREATE` -/
  | creating
  /-- has an account and is about to send `USR_LOGIN` -/
  | created
  /-- has sent `USR_LOGIN`, right after the account was created or not -/
  | entering (created : Bool)
  deriving DecidableEq, Repr

structure Dialogue where
  /-- what is typed from here on -/
  input : List Byte
  answer : Byte
  username : Word (7 + 1)
  password : Word (127 + 1)
  stage : DialogueStage

/-- What a step of the program does on its socket. -/
inductive Act
  | silent
  | writes (p : Packet)
  | reads (x : Sent)

/-- What a step of the client has written. -/
def Act.written : Act → List Packet
  | .silent => []
  | .writes p => [p]
  | .reads _ => []

/-- What a step of the client has read. -/
def Act.read : Act → List Sent
  | .silent => []
  | .writes _ => []
  | .reads x => [x]

/-- What a step of the client leaves on its way to it. -/
def Act.left (toClient : List Sent) : Act → List Sent
  | .silent => toClient
  | .writes _ => toClient
  | .reads _ => toClient.tail

inductive Process
  | dialogue (d : Dialogue)
  | chatting (client : Client)

inductive ProcessStop
  | fault (fault : Fault)
  | notReady
  deriving DecidableEq, Repr

/-- `send_main_header` of a header whose payload has the length that it says. -/
def Mainhdr.packet (hdr : Mainhdr) : Except Fault Packet :=
  if h : hdr.payload.length = hdr.len.toNat then .ok ⟨hdr, h⟩ else .error .outOfBounds

/-- What `read_main_header` makes of the next packet: a file comes without its bytes. -/
def Sent.header : Sent → Mainhdr
  | .packet _ hdr => hdr
  | .file _ gid uid content => ⟨SEND_FILE, gid, uid, UInt32.ofNat content.length, []⟩

/-- `*(uint8_t*)response_header->payload`; the header of a file has no room for a payload. -/
def Sent.payloadR : Sent → Except Fault Byte
  | .packet _ hdr => .ok ((hdr.payload ++ [0]).headD 0)
  | .file .. => .error .outOfBounds

namespace Dialogue

/-- The dialogue at its start, with what is typed and what is in `answer`. -/
def start (input : List Byte) (answer : Byte) : Dialogue where
  input := input
  answer := answer
  username := .zeros 7
  password := .zeros 127
  stage := .asking

/-- The two prompts. -/
def readCredentials (d : Dialogue) : Dialogue :=
  let username := scanWord d.username d.input
  let password := scanWord d.password username.2
  { d with input := password.2, username := username.1, password := password.1 }

/-- A request with what was typed, in a block with the fields that `malloc` left in it. -/
def request (d : Dialogue) (cmd : UInt8) (raw : Mainhdr) : Except Fault Packet := do
  let hdr ← fillUsernamePassword raw d.username.bytes d.password.bytes
  Mainhdr.packet { hdr with cmd := cmd }

/-- Sends a request. -/
def sends (d : Dialogue) (cmd : UInt8) (raw : Mainhdr) (stage : DialogueStage) :
    Except ProcessStop (Act × Process) :=
  match d.request cmd raw with
  | .error fault => .error (.fault fault)
  | .ok p => .ok (.writes p, .dialogue { d with stage := stage })

/-- An answer and, if it is one, the request that it leads to. -/
def ask (d : Dialogue) (raw : Mainhdr) : Except ProcessStop (Act × Process) :=
  let answer := scanChar d.answer d.input
  let d := { d with input := answer.2, answer := tolower answer.1 }
  if d.answer = 121 then d.readCredentials.sends USR_LOGIN raw (.entering false)
  else if d.answer = 110 then d.readCredentials.sends USR_CREATE raw .creating
  else .ok (.silent, .dialogue d)

/-- What a response leads to: `next` when its command is looked at and right, or not looked at, and
its status is 0. -/
def hear (d : Dialogue) (expected : Option UInt8) (next : Process) (x : Sent) :
    Except ProcessStop (Act × Process) :=
  let again := Process.dialogue { d with stage := .asking }
  if expected = none ∨ expected = some x.header.cmd then
    match x.payloadR with
    | .error fault => .error (.fault fault)
    | .ok payloadR => .ok (.reads x, if payloadR = 0 then next else again)
  else .ok (.reads x, again)

/-- The main thread up to its next use of the socket; `incoming` is the next packet on it. -/
def turn (d : Dialogue) (raw : Mainhdr) (incoming : Option Sent) :
    Except ProcessStop (Act × Process) :=
  match d.stage, incoming with
  | .asking, _ => d.ask raw
  | .created, _ => d.sends USR_LOGIN raw (.entering true)
  | .creating, some x => d.hear (some USR_CREATE) (.dialogue { d with stage := .created }) x
  | .entering created, some x =>
    d.hear (if created then none else some USR_LOGIN) (.chatting (.start x.header.uid)) x
  | _, none => .error .notReady

end Dialogue

/-! ## The program -/

inductive ProcessEvent
  /-- the main thread goes on in the dialogue -/
  | turn (raw : Mainhdr)
  /-- the main thread reads the answer to the invitation it has asked about -/
  | answer (answer : Byte)
  /-- the main thread calls `create_new_group` -/
  | register
  /-- the main thread reads a command -/
  | newGroup
  | activeList
  | request (gid : UInt8) (r : GroupRequest)
  /-- a window reads a line -/
  | typed (window : Nat) (r : GroupRequest)
  /-- `send_file` of the main thread writes to the socket -/
  | upload (gid : UInt8) (file : Line)
  /-- the writer sends the next packet of the outgoing queue -/
  | write
  /-- the reader handles the next packet -/
  | read
  /-- a window shows a message -/
  | display (window : Nat)

namespace Client

/-- A step of the client that does not use the socket. -/
def silent : Option Client → Except ProcessStop (Act × Client)
  | none => .error .notReady
  | some client => .ok (.silent, client)

/-- One step of one thread after the login. -/
def next (fuel : Nat) (incoming : Option Sent) (client : Client) :
    ProcessEvent → Except ProcessStop (Act × Client)
  | .turn _ => .error .notReady
  | .answer answer => silent (client.answerInvite answer)
  | .register => silent (client.register fuel)
  | .newGroup => silent (client.command (newGroupPacket client.myUid))
  | .activeList => silent (client.command (activeListPacket client.myUid))
  | .request gid r => silent (client.command (r.packet gid client.myUid))
  | .typed window r =>
    silent (client.windows[window]?.map fun w => client.queue (r.packet w.gid client.myUid))
  | .upload gid file => .ok (.writes (requestPacket SEND_FILE gid client.myUid file), client)
  | .write =>
    match client.outgoingMessageQueue with
    | [] => .error .notReady
    | hdr :: rest => .ok (.writes hdr, { client with outgoingMessageQueue := rest })
  | .read =>
    if client.readerWaits then .error .notReady
    else
      match incoming with
      | none => .error .notReady
      | some x =>
        match client.serverRead fuel x with
        | .error fault => .error (.fault fault)
        | .ok client => .ok (.reads x, client)
  | .display window => .ok (.silent, client.display window)

end Client

/-- What a step after the login puts on the outgoing queue. -/
def Client.issued (client : Client) : ProcessEvent → List Packet
  | .answer answer =>
    match client.groupRequestQueue with
    | [] => []
    | inviteGid :: _ =>
      if answer = 121 ∨ answer = 89 then [responsePacket inviteGid client.myUid 97]
      else if answer = 110 ∨ answer = 78 then [responsePacket inviteGid client.myUid 100]
      else []
  | .newGroup => [newGroupPacket client.myUid]
  | .activeList => [activeListPacket client.myUid]
  | .request gid r => [r.packet gid client.myUid]
  | .typed window r =>
    (client.windows[window]?.map fun w => r.packet w.gid client.myUid).toList
  | _ => []

/-- What a step after the login uploads. -/
def Client.uploads (client : Client) : ProcessEvent → List Packet
  | .upload gid file => [requestPacket SEND_FILE gid client.myUid file]
  | _ => []

/-- One step of one thread of the program. -/
def Process.next (fuel : Nat) (incoming : Option Sent) (process : Process) (e : ProcessEvent) :
    Except ProcessStop (Act × Process) :=
  match process, e with
  | .dialogue d, .turn raw => d.turn raw incoming
  | .dialogue _, _ => .error .notReady
  | .chatting client, e =>
    match client.next fuel incoming e with
    | .error stop => .error stop
    | .ok (act, client) => .ok (act, .chatting client)

/-! ## What a step can do -/

section Steps

variable {d : Dialogue} {raw : Mainhdr} {incoming : Option Sent} {act : Act} {process : Process}

theorem Word.length_argument {size : Nat} (w : Word size) : w.argument.str.length < size := by
  have hbuf : w.argument.buf = w.bytes := Argument.buf_ofBuf w.hasNul
  have hlen := congrArg List.length hbuf
  rw [Argument.buf, terminated, List.length_append, List.length_cons, w.full] at hlen
  omega

theorem Mainhdr.packet_ok {hdr : Mainhdr} (h : hdr.payload.length = hdr.len.toNat) :
    hdr.packet = .ok ⟨hdr, h⟩ := dif_pos h

/-- A request is always built. -/
theorem Dialogue.request_ok (d : Dialogue) (cmd : UInt8) (raw : Mainhdr) :
    ∃ p, d.request cmd raw = .ok p ∧ p.cmd = cmd := by
  have hulen := d.username.length_argument
  have hplen := d.password.length_argument
  have hfill := fillUsernamePassword_eq raw hulen hplen
  rw [Word.argument, Word.argument, Argument.buf_ofBuf d.username.hasNul,
    Argument.buf_ofBuf d.password.hasNul] at hfill
  have hfull : (d.username.argument.str ++ 58 :: d.password.argument.str).length =
      (UInt32.ofNat (d.username.argument.str ++ 58 :: d.password.argument.str).length).toNat := by
    rw [UInt32.toNat_ofNat', List.length_append, List.length_cons, Nat.mod_eq_of_lt (by omega)]
  rw [Dialogue.request, hfill, ok_bind]
  exact ⟨_, Mainhdr.packet_ok hfull, rfl⟩

/-- The program waits for the response to a request with this command. -/
def Dialogue.Awaits (d : Dialogue) (cmd : UInt8) : Prop :=
  (d.stage = .creating ∧ cmd = USR_CREATE) ∨ ((∃ created, d.stage = .entering created) ∧
    cmd = USR_LOGIN)

/-- Nothing is on its way. -/
def Dialogue.Rests (d : Dialogue) : Prop := d.stage = .asking ∨ d.stage = .created

/-- What a turn of the dialogue can do. -/
inductive Dialogue.Turned (d : Dialogue) (incoming : Option Sent) : Act → Process → Prop
  | idle (d' : Dialogue) (before : d.Rests) (after : d'.Rests) :
      Turned d incoming .silent (.dialogue d')
  | requested (p : Packet) (d' : Dialogue) (before : d.Rests) (awaits : d'.Awaits p.cmd) :
      Turned d incoming (.writes p) (.dialogue d')
  /-- the response has made an account -/
  | created (x : Sent) (d' : Dialogue) (next : incoming = some x) (stage : d.stage = .creating)
      (after : d'.Rests) : Turned d incoming (.reads x) (.dialogue d')
  /-- the program asks again -/
  | refused (x : Sent) (d' : Dialogue) (next : incoming = some x)
      (fails : ∀ cmd, d.Awaits cmd → x.header.cmd = cmd → x.payloadR ≠ .ok 0) (after : d'.Rests) :
      Turned d incoming (.reads x) (.dialogue d')
  /-- the program is logged in with the uid of the response -/
  | entered (x : Sent) (next : incoming = some x) (awaits : d.Awaits USR_LOGIN)
      (status : x.payloadR = .ok 0) :
      Turned d incoming (.reads x) (.chatting (.start x.header.uid))

theorem Dialogue.sends_turned {d' : Dialogue} {cmd : UInt8} {stage : DialogueStage}
    (before : d.Rests) (awaits : ∀ d' : Dialogue, d'.stage = stage → d'.Awaits cmd)
    (h : d'.sends cmd raw stage = .ok (act, process)) : d.Turned incoming act process := by
  obtain ⟨p, hp, hcmd⟩ := d'.request_ok cmd raw
  rw [sends, hp] at h
  cases h
  exact .requested p _ before (hcmd ▸ awaits _ rfl)

theorem Dialogue.ask_turned (stage : d.stage = .asking) (h : d.ask raw = .ok (act, process)) :
    d.Turned incoming act process := by
  have before : d.Rests := Or.inl stage
  rw [ask] at h
  dsimp only at h
  by_cases hyes : tolower (scanChar d.answer d.input).1 = 121
  · rw [if_pos hyes] at h
    exact sends_turned before (fun d' hstage => Or.inr ⟨⟨false, hstage⟩, rfl⟩) h
  rw [if_neg hyes] at h
  by_cases hno : tolower (scanChar d.answer d.input).1 = 110
  · rw [if_pos hno] at h
    exact sends_turned before (fun d' hstage => Or.inl ⟨hstage, rfl⟩) h
  · rw [if_neg hno] at h
    cases h
    exact .idle _ before (Or.inl stage)

/-- What is made of a response. -/
theorem Dialogue.hear_ok {expected : Option UInt8} {next : Process} {x : Sent}
    (h : d.hear expected next x = .ok (act, process)) :
    act = .reads x ∧
      ((process = next ∧ x.payloadR = .ok 0) ∨
      (process = .dialogue { d with stage := .asking } ∧
        ¬ ((expected = none ∨ expected = some x.header.cmd) ∧ x.payloadR = .ok 0))) := by
  rw [hear] at h
  split at h
  · rename_i hcmd
    split at h
    · cases h
    · rename_i payloadR hpayload
      cases h
      refine ⟨rfl, ?_⟩
      by_cases hzero : payloadR = 0
      · subst hzero
        exact Or.inl ⟨if_pos rfl, hpayload⟩
      · refine Or.inr ⟨if_neg hzero, fun hboth => hzero ?_⟩
        exact Except.ok.inj (hpayload.symm.trans hboth.2)
  · rename_i hcmd
    cases h
    exact ⟨rfl, Or.inr ⟨rfl, fun hboth => hcmd hboth.1⟩⟩

theorem Dialogue.turn_turned (h : d.turn raw incoming = .ok (act, process)) :
    d.Turned incoming act process := by
  rw [turn.eq_def] at h
  split at h
  · rename_i stage
    exact ask_turned stage h
  · rename_i stage
    exact sends_turned (Or.inr stage) (fun d' hstage => Or.inr ⟨⟨true, hstage⟩, rfl⟩) h
  · rename_i x stage
    obtain ⟨rfl, ⟨rfl, -⟩ | ⟨rfl, hfails⟩⟩ := hear_ok h
    · exact .created x _ rfl stage (Or.inr rfl)
    · refine .refused x _ rfl ?_ (Or.inl rfl)
      rintro cmd (⟨-, rfl⟩ | ⟨⟨created, hstage⟩, -⟩) hcmd hstatus
      · exact hfails ⟨Or.inr (congrArg some hcmd.symm), hstatus⟩
      · rw [stage] at hstage
        cases hstage
  · rename_i created x stage
    have awaits : d.Awaits USR_LOGIN := Or.inr ⟨⟨created, stage⟩, rfl⟩
    obtain ⟨rfl, ⟨rfl, hstatus⟩ | ⟨rfl, hfails⟩⟩ := hear_ok h
    · exact .entered x rfl awaits hstatus
    · refine .refused x _ rfl ?_ (Or.inl rfl)
      rintro cmd (⟨hstage, -⟩ | ⟨-, rfl⟩) hcmd hstatus
      · rw [stage] at hstage
        cases hstage
      · refine hfails ⟨?_, hstatus⟩
        cases created with
        | true => exact Or.inl rfl
        | false => exact Or.inr (congrArg some hcmd.symm)
  · cases h

/-- The program never puts another uid than its own into a request, and never logs in again. -/
def Own (uid : UInt16) (p : Packet) : Prop := p.uid = uid ∧ p.cmd ≠ USR_LOGIN

/-- What a step after the login can do to the uid and the outgoing queue. -/
inductive Client.Stepped (client : Client) (incoming : Option Sent) (e : ProcessEvent) :
    Act → Client → Prop
  | quiet (client' : Client) (uid : client'.myUid = client.myUid)
      (same : client'.outgoingMessageQueue = client.outgoingMessageQueue)
      (issued : client.issued e = []) (uploads : client.uploads e = []) :
      Stepped client incoming e .silent client'
  | queued (client' : Client) (p : Packet) (uid : client'.myUid = client.myUid)
      (own : Own client.myUid p) (upload : p.cmd ≠ SEND_FILE)
      (queue : client'.outgoingMessageQueue = client.outgoingMessageQueue ++ [p])
      (issued : client.issued e = [p]) (uploads : client.uploads e = []) :
      Stepped client incoming e .silent client'
  | uploaded (p : Packet) (own : Own client.myUid p) (upload : p.cmd = SEND_FILE)
      (issued : client.issued e = []) (uploads : client.uploads e = [p]) :
      Stepped client incoming e (.writes p) client
  | wrote (hdr : Packet) (rest : List Packet) (queue : client.outgoingMessageQueue = hdr :: rest)
      (issued : client.issued e = []) (uploads : client.uploads e = []) :
      Stepped client incoming e (.writes hdr) { client with outgoingMessageQueue := rest }
  | read (x : Sent) (client' : Client) (next : incoming = some x)
      (uid : client'.myUid = client.myUid)
      (same : client'.outgoingMessageQueue = client.outgoingMessageQueue)
      (issued : client.issued e = []) (uploads : client.uploads e = []) :
      Stepped client incoming e (.reads x) client'

theorem own_request (gid : UInt8) (uid : UInt16) (r : GroupRequest) :
    Own uid (r.packet gid uid) ∧ (r.packet gid uid).cmd ≠ SEND_FILE := by
  cases r with
  | invite username =>
      exact ⟨⟨rfl, (by decide : INVITE ≠ USR_LOGIN)⟩, (by decide : INVITE ≠ SEND_FILE)⟩
  | send message =>
      exact ⟨⟨rfl, (by decide : SEND_CHAT ≠ USR_LOGIN)⟩, (by decide : SEND_CHAT ≠ SEND_FILE)⟩
  | download filename =>
      exact ⟨⟨rfl, (by decide : DOWNLOAD_FILE ≠ USR_LOGIN)⟩,
        (by decide : DOWNLOAD_FILE ≠ SEND_FILE)⟩

variable {client client' : Client} {fuel : Nat} {e : ProcessEvent}

theorem Client.silent_eq_ok {after : Option Client} (h : silent after = .ok (act, client')) :
    act = .silent ∧ after = some client' := by
  cases after with
  | none => cases h
  | some client'' =>
      cases h
      exact ⟨rfl, rfl⟩

theorem Client.command_stepped {p : Packet} (own : Own client.myUid p) (upload : p.cmd ≠ SEND_FILE)
    (issued : client.issued e = [p]) (uploads : client.uploads e = [])
    (h : silent (client.command p) = .ok (act, client')) :
    client.Stepped incoming e act client' := by
  obtain ⟨rfl, hcommand⟩ := silent_eq_ok h
  rw [command] at hcommand
  split at hcommand
  · cases hcommand
    exact .queued _ p rfl own upload rfl issued uploads
  · cases hcommand

theorem Client.answer_stepped {answer : Byte}
    (h : silent (client.answerInvite answer) = .ok (act, client')) :
    client.Stepped incoming (.answer answer) act client' := by
  obtain ⟨rfl, hanswer⟩ := silent_eq_ok h
  have hupload : INVITE_RESP ≠ SEND_FILE := by decide
  have hlogin : INVITE_RESP ≠ USR_LOGIN := by decide
  rw [answerInvite] at hanswer
  split at hanswer
  · rename_i inviteGid rest hmain hqueue
    have hissued : client.issued (.answer answer) =
        if answer = 121 ∨ answer = 89 then [responsePacket inviteGid client.myUid 97]
        else if answer = 110 ∨ answer = 78 then [responsePacket inviteGid client.myUid 100]
        else [] := by
      rw [issued, hqueue]
    simp only at hanswer
    split at hanswer
    · rename_i hyes
      cases hanswer
      exact .queued _ (responsePacket inviteGid client.myUid 97) rfl ⟨rfl, hlogin⟩ hupload rfl
        (hissued.trans (if_pos hyes)) rfl
    · rename_i hyes
      rw [if_neg hyes] at hissued
      split at hanswer
      · rename_i hno
        cases hanswer
        exact .queued _ (responsePacket inviteGid client.myUid 100) rfl ⟨rfl, hlogin⟩ hupload rfl
          (hissued.trans (if_pos hno)) rfl
      · rename_i hno
        cases hanswer
        exact .quiet _ rfl rfl (hissued.trans (if_neg hno)) rfl
  · cases hanswer

theorem Client.createNewGroup_same {gid : UInt8} (h : client.createNewGroup fuel gid = some client') :
    client'.myUid = client.myUid ∧ client'.outgoingMessageQueue = client.outgoingMessageQueue := by
  obtain ⟨r, -, rfl⟩ := Option.map_eq_some_iff.mp h
  exact ⟨rfl, rfl⟩

theorem Client.register_stepped (h : silent (client.register fuel) = .ok (act, client')) :
    client.Stepped incoming .register act client' := by
  obtain ⟨rfl, hregister⟩ := silent_eq_ok h
  rw [register] at hregister
  split at hregister
  · split at hregister
    · cases hregister
      exact .quiet _ rfl rfl rfl rfl
    · rename_i hcreate
      cases hregister
      obtain ⟨huid, hsame⟩ := createNewGroup_same hcreate
      exact .quiet _ huid hsame rfl rfl
  · cases hregister

theorem Client.serverRead_same {x : Sent} (h : client.serverRead fuel x = .ok client') :
    client'.myUid = client.myUid ∧ client'.outgoingMessageQueue = client.outgoingMessageQueue := by
  cases x with
  | file fd gid uid content =>
      cases h
      exact ⟨rfl, rfl⟩
  | packet fd recv =>
      rw [serverRead] at h
      split at h
      · split at h
        · cases h
          exact ⟨rfl, rfl⟩
        · simp only at h
          split at h
          · split at h
            · cases h
            · cases h
              exact ⟨rfl, rfl⟩
          · cases h
            exact ⟨rfl, rfl⟩
      · split at h
        · cases h
          exact ⟨rfl, rfl⟩
        · split at h
          · split at h
            · cases h
              exact ⟨rfl, rfl⟩
            · rename_i hcreate
              cases h
              exact createNewGroup_same hcreate
          · cases h
            exact ⟨rfl, rfl⟩

theorem Client.next_stepped (h : client.next fuel incoming e = .ok (act, client')) :
    client.Stepped incoming e act client' := by
  cases e with
  | turn raw => cases h
  | answer answer => exact answer_stepped h
  | register => exact register_stepped h
  | newGroup =>
      exact command_stepped ⟨rfl, (by decide : CREATE_GROUP ≠ USR_LOGIN)⟩
        (by decide : CREATE_GROUP ≠ SEND_FILE) rfl rfl h
  | activeList =>
      exact command_stepped ⟨rfl, (by decide : ACTIVE_LIST ≠ USR_LOGIN)⟩
        (by decide : ACTIVE_LIST ≠ SEND_FILE) rfl rfl h
  | request gid r =>
      obtain ⟨own, upload⟩ := own_request gid client.myUid r
      exact command_stepped own upload rfl rfl h
  | typed window r =>
      obtain ⟨rfl, htyped⟩ := silent_eq_ok h
      obtain ⟨w, hw, rfl⟩ := Option.map_eq_some_iff.mp htyped
      obtain ⟨own, upload⟩ := own_request w.gid client.myUid r
      refine .queued _ _ rfl own upload rfl ?_ rfl
      rw [issued, hw]
      rfl
  | upload gid file =>
      cases h
      exact .uploaded _ ⟨rfl, (by decide : SEND_FILE ≠ USR_LOGIN)⟩ rfl rfl rfl
  | write =>
      simp only [next] at h
      split at h
      · cases h
      · rename_i hdr rest hqueue
        cases h
        exact .wrote hdr rest hqueue rfl rfl
  | read =>
      simp only [next] at h
      split at h
      · cases h
      · split at h
        · cases h
        · rename_i x
          split at h
          · cases h
          · rename_i hread
            cases h
            obtain ⟨huid, hsame⟩ := serverRead_same hread
            exact .read x _ rfl huid hsame rfl rfl
  | display window =>
      cases h
      exact .quiet _ rfl rfl rfl rfl

/-- What a step of a process can do. -/
inductive Process.Stepped (incoming : Option Sent) (e : ProcessEvent) :
    Process → Act → Process → Prop
  | dialogue (d : Dialogue) (act : Act) (after : Process) (turned : d.Turned incoming act after) :
      Stepped incoming e (.dialogue d) act after
  | chatting (client client' : Client) (act : Act)
      (stepped : client.Stepped incoming e act client') :
      Stepped incoming e (.chatting client) act (.chatting client')

theorem Process.next_stepped {process' : Process}
    (h : process.next fuel incoming e = .ok (act, process')) :
    process.Stepped incoming e act process' := by
  simp only [next] at h
  split at h
  · exact .dialogue _ _ _ (Dialogue.turn_turned h)
  · cases h
  · split at h
    · cases h
    · rename_i hnext
      cases h
      exact .chatting _ _ _ (Client.next_stepped hnext)

/-- A step that reads takes the next packet on the socket. -/
theorem Process.Stepped.reads {process' : Process} {x : Sent}
    (h : process.Stepped incoming e (.reads x) process') : incoming = some x := by
  cases h with
  | dialogue d act after turned =>
      cases turned with
      | created x d' next stage after => exact next
      | refused x d' next fails after => exact next
      | entered x next awaits status => exact next
  | chatting client client' act stepped =>
      cases stepped with
      | read x client' next uid same issued uploads => exact next

end Steps

end GroupChat
