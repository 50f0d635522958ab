import GroupChat.Client
import GroupChat.Lts.Simulation
import GroupChat.Server.History

/-!
# The server and all its clients

A `Network` is the server with its connections and what is on its way on each of them, in either
direction. A connection keeps the order of the packets. The clients are arbitrary: whoever is at
the other end of a connection writes what it likes and reads when it likes. An event is one packet
written or read by a client, or one step of the server.

Three things are assumed here, which the modules on the wire, on the hash map and on the threads do
not grant: a packet or a file is written in one piece and crosses its connection whole, a request is
handled in one step, with all that it sends, and `active_sockets` is a finite map.

Seen from the server a run is one of `Server`, with the history `serverHistory` (`server_run`). What
a client has read and what is on its way to it are what the server has sent it, and the server
handles the packets of a connection in the order they were written (`links`).
-/

namespace GroupChat

open Posix

structure Network where
  server : Server
  /-- what the client has written and the server has not read -/
  toServer : ConnId → List Packet
  /-- what the server has sent and the client has not read -/
  toClient : ConnId → List Sent

inductive NetworkEvent
  | accept
  /-- the client writes a packet -/
  | write (c : ConnId) (p : Packet)
  /-- the server thread of the connection handles the next packet -/
  | serve (c : ConnId) (heap : Byte × Byte)
  /-- the server thread of the connection finds it closed -/
  | close (c : ConnId)
  /-- the client reads the next packet -/
  | read (c : ConnId)

inductive NetworkOut
  | wrote
  /-- what the server has sent -/
  | handled (sent : List Sent)
  | read (x : Sent)

inductive NetworkStop
  | server (stop : Stop)
  | notReady
  deriving DecidableEq, Repr

namespace Network

def start (credential : CredentialFile) (disk : Disk) : Network :=
  ⟨.start credential disk, fun _ => [], fun _ => []⟩

/-- A step of the server, with what it sends on its way. -/
def handle (s : Network) (e : Event) : Except NetworkStop (NetworkOut × Network) :=
  match GroupChat.step s.server e with
  | .error stop => .error (.server stop)
  | .ok (sent, server) =>
    .ok (.handled sent, { s with
      server := server
      toClient := fun d => s.toClient d ++ sent.filter fun x => x.connfd = d })

def step (s : Network) : NetworkEvent → Except NetworkStop (NetworkOut × Network)
  | .accept => s.handle .accept
  | .write c p =>
    .ok (.wrote, { s with toServer := Function.update s.toServer c (s.toServer c ++ [p]) })
  | .serve c heap =>
    match s.toServer c with
    | [] => .error .notReady
    | p :: rest =>
      handle { s with toServer := Function.update s.toServer c rest } (.received c p heap)
  | .close c => s.handle (.closed c)
  | .read c =>
    match s.toClient c with
    | [] => .error .notReady
    | x :: rest => .ok (.read x, { s with toClient := Function.update s.toClient c rest })

/-- The event of the server that a step is. -/
def serverEvent (s : Network) : NetworkEvent → Option Event
  | .accept => some .accept
  | .serve c heap => (s.toServer c).head?.map fun p => .received c p heap
  | .close c => some (.closed c)
  | .write .. | .read _ => none

/-! ## What a step can do -/

inductive Moved (s : Network) : NetworkEvent → NetworkOut → Network → Prop
  | wrote (c : ConnId) (p : Packet) :
      Moved s (.write c p) .wrote
        { s with toServer := Function.update s.toServer c (s.toServer c ++ [p]) }
  | read (c : ConnId) (x : Sent) (rest : List Sent) (next : s.toClient c = x :: rest) :
      Moved s (.read c) (.read x) { s with toClient := Function.update s.toClient c rest }
  /-- the server takes a step other than handling a packet -/
  | went (ne : NetworkEvent) (e : Event) (event : s.serverEvent ne = some e)
      (idle : ∀ c p heap, e ≠ .received c p heap) (sent : List Sent) (server : Server)
      (taken : GroupChat.step s.server e = .ok (sent, server)) :
      Moved s ne (.handled sent) { s with
        server := server
        toClient := fun d => s.toClient d ++ sent.filter fun x => x.connfd = d }
  | served (c : ConnId) (heap : Byte × Byte) (p : Packet) (rest : List Packet)
      (next : s.toServer c = p :: rest) (sent : List Sent) (server : Server)
      (taken : GroupChat.step s.server (.received c p heap) = .ok (sent, server)) :
      Moved s (.serve c heap) (.handled sent) {
        server := server
        toServer := Function.update s.toServer c rest
        toClient := fun d => s.toClient d ++ sent.filter fun x => x.connfd = d }

variable {s s' : Network} {e : NetworkEvent} {out : NetworkOut}

theorem handle_eq_ok {e : Event} (h : s.handle e = .ok (out, s')) :
    ∃ sent server, GroupChat.step s.server e = .ok (sent, server) ∧ out = .handled sent ∧
      s' = { s with
        server := server
        toClient := fun d => s.toClient d ++ sent.filter fun x => x.connfd = d } := by
  rw [handle] at h
  split at h
  · cases h
  · rename_i sent server taken
    cases h
    exact ⟨sent, server, taken, rfl, rfl⟩

theorem step_moved (h : s.step e = .ok (out, s')) : s.Moved e out s' := by
  cases e with
  | accept =>
      have hhandle : s.handle .accept = .ok (out, s') := h
      obtain ⟨sent, server, taken, rfl, rfl⟩ := handle_eq_ok hhandle
      exact .went .accept .accept rfl (fun _ _ _ he => (nomatch he)) sent server taken
  | write c p =>
      cases h
      exact .wrote c p
  | serve c heap =>
      rw [step] at h
      split at h
      · cases h
      · rename_i p rest hnext
        obtain ⟨sent, server, taken, rfl, rfl⟩ := handle_eq_ok h
        exact .served c heap p rest hnext sent server taken
  | close c =>
      have hhandle : s.handle (.closed c) = .ok (out, s') := h
      obtain ⟨sent, server, taken, rfl, rfl⟩ := handle_eq_ok hhandle
      exact .went (.close c) (.closed c) rfl (fun _ _ _ he => (nomatch he)) sent server taken
  | read c =>
      rw [step] at h
      split at h
      · cases h
      · rename_i x rest hnext
        cases h
        exact .read c x rest hnext

end Network

/-! ## The run of the server -/

abbrev NetworkTaken := Lts.Taken Network NetworkEvent NetworkOut

/-- The step of the server that a step is. -/
def serverTaken (x : NetworkTaken) : Option Taken :=
  match x.pre.serverEvent x.event, x.out with
  | some e, .handled sent => some ⟨x.pre.server, e, sent, x.post.server⟩
  | _, _ => none

def serverHistory (h : List NetworkTaken) : List Taken := h.filterMap serverTaken

section Runs

variable {credential : CredentialFile} {disk : Disk}
  {h : List NetworkTaken} {s s' : Network} {e : NetworkEvent} {out : NetworkOut}

theorem Network.Moved.serverTaken_went {e' : Event} (event : s.serverEvent e = some e')
    (sent : List Sent) : serverTaken ⟨s, e, .handled sent, s'⟩ =
      some ⟨s.server, e', sent, s'.server⟩ := by
  rw [serverTaken]
  dsimp only
  rw [event]

theorem Network.serverEvent_serve {c : ConnId} {heap : Byte × Byte} {p : Packet}
    {rest : List Packet} (next : s.toServer c = p :: rest) :
    s.serverEvent (.serve c heap) = some (.received c p heap) := by
  rw [serverEvent, next]
  rfl

theorem Network.Moved.matched (moved : s.Moved e out s') :
    Lts.Matched GroupChat.step Network.server ⟨s, e, out, s'⟩ (serverTaken ⟨s, e, out, s'⟩) := by
  cases moved with
  | wrote c p => rfl
  | read c x rest next => rfl
  | went _ e' event idle sent server taken =>
      rw [serverTaken_went event sent]
      exact ⟨rfl, rfl, taken⟩
  | served c heap p rest next sent server taken =>
      rw [serverTaken_went (Network.serverEvent_serve next) sent]
      exact ⟨rfl, rfl, taken⟩

/-- The server takes part in a run of its own. -/
theorem server_run (run : Lts.Run Network.step (.start credential disk) h s) :
    Lts.Run GroupChat.step (Server.start credential disk) (serverHistory h) s.server :=
  run.project fun _ _ _ _ _ _ taken => (Network.step_moved taken).matched

end Runs

/-! ## The links -/

/-- What the client has written so far. -/
def writtenOn (c : ConnId) (h : List NetworkTaken) : List Packet :=
  h.filterMap fun x =>
    match x.event with
    | .write d p => if d = c then some p else none
    | _ => none

/-- What the client has read so far. -/
def readBy (c : ConnId) (h : List NetworkTaken) : List Sent :=
  h.filterMap fun x =>
    match x.event, x.out with
    | .read d, .read y => if d = c then some y else none
    | _, _ => none

/-- The packets of the connection that the server has handled. -/
def handledOn (c : ConnId) (h : List Taken) : List Packet :=
  h.filterMap fun x =>
    match x.event with
    | .received d p _ => if d = c then some p else none
    | _ => none

/-- What the server has sent on the connection. -/
def sentTo (c : ConnId) (h : List Taken) : List Sent :=
  h.flatMap fun x => x.out.filter fun y => y.connfd = c

/-- Nothing is lost on a connection, nothing comes twice and the order is kept. -/
structure LinksKept (h : List NetworkTaken) (s : Network) : Prop where
  toServer : ∀ c, handledOn c (serverHistory h) ++ s.toServer c = writtenOn c h
  toClient : ∀ c, readBy c h ++ s.toClient c = sentTo c (serverHistory h)

theorem sentTo_append (c : ConnId) (h h' : List Taken) :
    sentTo c (h ++ h') = sentTo c h ++ sentTo c h' := List.flatMap_append

theorem handledOn_append (c : ConnId) (h h' : List Taken) :
    handledOn c (h ++ h') = handledOn c h ++ handledOn c h' := List.filterMap_append

theorem serverHistory_append (h h' : List NetworkTaken) :
    serverHistory (h ++ h') = serverHistory h ++ serverHistory h' := List.filterMap_append

theorem writtenOn_append (c : ConnId) (h h' : List NetworkTaken) :
    writtenOn c (h ++ h') = writtenOn c h ++ writtenOn c h' := List.filterMap_append

theorem readBy_append (c : ConnId) (h h' : List NetworkTaken) :
    readBy c (h ++ h') = readBy c h ++ readBy c h' := List.filterMap_append

/-- A step of the server keeps the links, once the packet it handles is off its link. -/
theorem LinksKept.went {h : List NetworkTaken} {s : Network} (linked : LinksKept h s)
    {x : NetworkTaken} {y : Taken} (hx : serverTaken x = some y) (hwritten : ∀ c, writtenOn c [x] = [])
    (hread : ∀ c, readBy c [x] = []) {toServer : ConnId → List Packet}
    (htoServer : ∀ c, handledOn c [y] ++ toServer c = s.toServer c) :
    LinksKept (h ++ [x])
      ⟨y.post, toServer, fun d => s.toClient d ++ y.out.filter fun z => z.connfd = d⟩ := by
  have hhistory : serverHistory [x] = [y] := List.filterMap_cons_some hx
  refine ⟨fun c => ?_, fun c => ?_⟩
  · rw [serverHistory_append, hhistory, handledOn_append, writtenOn_append, hwritten,
      List.append_nil, List.append_assoc]
    dsimp only
    rw [htoServer]
    exact linked.toServer c
  · rw [serverHistory_append, hhistory, sentTo_append, readBy_append, hread, List.append_nil,
      ← linked.toClient, List.append_assoc]
    have hsent : sentTo c [y] = y.out.filter fun z => z.connfd = c := List.flatMap_singleton _ _
    rw [hsent]

/-- A packet that is written is the last one on its way to the server. -/
theorem LinksKept.wrote {h : List NetworkTaken} {s : Network} (linked : LinksKept h s) (c : ConnId)
    (p : Packet) (s' : Network) :
    LinksKept (h ++ [⟨s, .write c p, .wrote, s'⟩])
      { s with toServer := Function.update s.toServer c (s.toServer c ++ [p]) } := by
  have hquiet : serverHistory [⟨s, .write c p, .wrote, s'⟩] = [] := rfl
  refine ⟨fun d => ?_, fun d => ?_⟩
  · rw [serverHistory_append, hquiet, List.append_nil, writtenOn_append, ← linked.toServer d]
    by_cases hd : c = d
    · subst hd
      have hwritten : writtenOn c [⟨s, .write c p, .wrote, s'⟩] = [p] :=
        List.filterMap_cons_some (if_pos rfl)
      rw [hwritten, List.append_assoc]
      dsimp only
      rw [Function.update_self]
    · have hwritten : writtenOn d [⟨s, .write c p, .wrote, s'⟩] = [] :=
        List.filterMap_cons_none (if_neg hd)
      rw [hwritten, List.append_nil]
      dsimp only
      rw [Function.update_of_ne (Ne.symm hd)]
  · have hread : readBy d [⟨s, .write c p, .wrote, s'⟩] = [] := rfl
    rw [serverHistory_append, hquiet, List.append_nil, readBy_append, hread, List.append_nil]
    exact linked.toClient d

/-- A packet that is read was the first one on its way to the client. -/
theorem LinksKept.read {h : List NetworkTaken} {s : Network} (linked : LinksKept h s) {c : ConnId}
    {x : Sent} {rest : List Sent} (next : s.toClient c = x :: rest) (s' : Network) :
    LinksKept (h ++ [⟨s, .read c, .read x, s'⟩])
      { s with toClient := Function.update s.toClient c rest } := by
  have hquiet : serverHistory [⟨s, .read c, .read x, s'⟩] = [] := rfl
  refine ⟨fun d => ?_, fun d => ?_⟩
  · have hwritten : writtenOn d [⟨s, .read c, .read x, s'⟩] = [] := rfl
    rw [serverHistory_append, hquiet, List.append_nil, writtenOn_append, hwritten, List.append_nil]
    exact linked.toServer d
  · rw [serverHistory_append, hquiet, List.append_nil, readBy_append, ← linked.toClient d]
    by_cases hd : c = d
    · subst hd
      have hread : readBy c [⟨s, .read c, .read x, s'⟩] = [x] :=
        List.filterMap_cons_some (if_pos rfl)
      rw [hread, List.append_assoc]
      dsimp only
      rw [Function.update_self, next]
      rfl
    · have hread : readBy d [⟨s, .read c, .read x, s'⟩] = [] :=
        List.filterMap_cons_none (if_neg hd)
      rw [hread, List.append_nil]
      dsimp only
      rw [Function.update_of_ne (Ne.symm hd)]

/-- Every run of the network keeps its links. -/
theorem links {credential : CredentialFile} {disk : Disk} {h : List NetworkTaken} {s : Network}
    (run : Lts.Run Network.step (.start credential disk) h s) : LinksKept h s := by
  induction run with
  | start => exact ⟨fun c => rfl, fun c => rfl⟩
  | @next h s s' e out run taken linked =>
      cases Network.step_moved taken with
      | wrote c p => exact linked.wrote c p _
      | read c x rest next => exact linked.read next _
      | went _ e' event idle sent server taken' =>
          have hnone : ∀ c, handledOn c [⟨s.server, e', sent, server⟩] = [] := by
            intro c
            cases e' with
            | received d p heap => exact absurd rfl (idle d p heap)
            | accept | closed d => rfl
          refine linked.went (Network.Moved.serverTaken_went event sent) ?_ ?_ fun c => ?_
          · intro c
            cases e with
            | write d p => cases event
            | accept | serve d heap | close d | read d => rfl
          · intro c
            cases e <;> rfl
          · rw [hnone]
            rfl
      | served c heap p rest next sent server taken' =>
          refine linked.went
            (Network.Moved.serverTaken_went (Network.serverEvent_serve next) sent) ?_ ?_ fun d => ?_
          · exact fun d => rfl
          · exact fun d => rfl
          · by_cases hd : c = d
            · subst hd
              have hhandled : handledOn c [⟨s.server, .received c p heap, sent, server⟩] = [p] :=
                List.filterMap_cons_some (if_pos rfl)
              rw [hhandled, Function.update_self, next]
              rfl
            · have hhandled : handledOn d [⟨s.server, .received c p heap, sent, server⟩] = [] :=
                List.filterMap_cons_none (if_neg hd)
              rw [hhandled, Function.update_of_ne (Ne.symm hd)]
              rfl

end GroupChat
