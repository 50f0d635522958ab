import GroupChat.Client.Dialogue
import GroupChat.Network

/-!
# The application

The server, its network and a `Process` at the other end of every connection: all parties run the
programs of the repository. What one of them does next is left open, so that a run is any
interleaving. A client may write before the server has accepted its connection, as `connect` returns
then.

The assumptions are those of `Network`: packets and files are written in one piece and cross whole,
the server handles a request in one step, and its registry is a finite map. The uploads are those
of the main thread; `/send_file` in a window, which writes to the descriptor that the window has
made of its arguments, is left out.

A run of the application is one of the network (`network_run`), with the steps of the clients that
do not use a socket left out.
-/

namespace GroupChat

open Posix

structure Application where
  network : Network
  clients : ConnId → Process

inductive ApplicationEvent
  | accept
  /-- the server thread of the connection handles the next packet -/
  | serve (c : ConnId) (heap : Byte × Byte)
  /-- the server thread of the connection finds it closed -/
  | close (c : ConnId)
  /-- the client on the connection takes a step -/
  | client (c : ConnId) (e : ProcessEvent)

inductive ApplicationStop
  | network (stop : NetworkStop)
  | client (stop : ProcessStop)
  deriving DecidableEq, Repr

namespace Application

/-- What is typed at each client, and what is in the variable `answer` of each, is arbitrary. -/
def start (credential : CredentialFile) (disk : Disk) (input : ConnId → List Byte)
    (answer : ConnId → Byte) : Application :=
  ⟨.start credential disk, fun c => .dialogue (.start (input c) (answer c))⟩

/-- A step of the network, after which the processes are these. -/
def onNetwork (s : Application) (e : NetworkEvent) (clients : ConnId → Process) :
    Except ApplicationStop (Option (NetworkEvent × NetworkOut) × Application) :=
  match s.network.step e with
  | .error stop => .error (.network stop)
  | .ok (out, network) => .ok (some (e, out), ⟨network, clients⟩)

/-- A step, with the step of the network that it is. -/
def step (fuel : Nat) (s : Application) :
    ApplicationEvent → Except ApplicationStop (Option (NetworkEvent × NetworkOut) × Application)
  | .accept => s.onNetwork .accept s.clients
  | .serve c heap => s.onNetwork (.serve c heap) s.clients
  | .close c => s.onNetwork (.close c) s.clients
  | .client c e =>
    match (s.clients c).next fuel (s.network.toClient c).head? e with
    | .error stop => .error (.client stop)
    | .ok (act, process) =>
      let clients := Function.update s.clients c process
      match act with
      | .silent => .ok (none, { s with clients := clients })
      | .writes p => s.onNetwork (.write c p) clients
      | .reads _ => s.onNetwork (.read c) clients

/-! ## What a step can do -/

inductive Moved (fuel : Nat) (s : Application) :
    ApplicationEvent → Option (NetworkEvent × NetworkOut) → Application → Prop
  /-- a step of the server -/
  | served (ae : ApplicationEvent) (e : NetworkEvent) (out : NetworkOut) (network : Network)
      (server : ∀ c pe, ae ≠ .client c pe) (unwritten : ∀ c p, e ≠ .write c p)
      (unread : ∀ c, e ≠ .read c) (taken : s.network.step e = .ok (out, network)) :
      Moved fuel s ae (some (e, out)) ⟨network, s.clients⟩
  | silent (c : ConnId) (e : ProcessEvent) (process : Process)
      (next : (s.clients c).next fuel (s.network.toClient c).head? e = .ok (.silent, process)) :
      Moved fuel s (.client c e) none { s with clients := Function.update s.clients c process }
  | wrote (c : ConnId) (e : ProcessEvent) (p : Packet) (process : Process)
      (next : (s.clients c).next fuel (s.network.toClient c).head? e = .ok (.writes p, process)) :
      Moved fuel s (.client c e) (some (.write c p, .wrote)) {
        network := { s.network with
          toServer := Function.update s.network.toServer c (s.network.toServer c ++ [p]) }
        clients := Function.update s.clients c process }
  | read (c : ConnId) (e : ProcessEvent) (x : Sent) (rest : List Sent) (process : Process)
      (next : (s.clients c).next fuel (s.network.toClient c).head? e = .ok (.reads x, process))
      (incoming : s.network.toClient c = x :: rest) :
      Moved fuel s (.client c e) (some (.read c, .read x)) {
        network := { s.network with toClient := Function.update s.network.toClient c rest }
        clients := Function.update s.clients c process }

variable {fuel : Nat} {s s' : Application} {e : ApplicationEvent}
  {out : Option (NetworkEvent × NetworkOut)}

theorem onNetwork_eq_ok {ne : NetworkEvent} {clients : ConnId → Process}
    (h : s.onNetwork ne clients = .ok (out, s')) :
    ∃ o network, s.network.step ne = .ok (o, network) ∧ out = some (ne, o) ∧
      s' = ⟨network, clients⟩ := by
  rw [onNetwork] at h
  split at h
  · cases h
  · rename_i o network taken
    cases h
    exact ⟨o, network, taken, rfl, rfl⟩

theorem onNetwork_served {ae : ApplicationEvent} {ne : NetworkEvent}
    (server : ∀ c pe, ae ≠ .client c pe) (unwritten : ∀ c p, ne ≠ .write c p)
    (unread : ∀ c, ne ≠ .read c) (h : s.onNetwork ne s.clients = .ok (out, s')) : s.Moved fuel ae out s' := by
  obtain ⟨o, network, taken, rfl, rfl⟩ := onNetwork_eq_ok h
  exact .served ae ne o network server unwritten unread taken

theorem step_moved (h : s.step fuel e = .ok (out, s')) : s.Moved fuel e out s' := by
  cases e with
  | accept =>
      have hstep : s.onNetwork .accept s.clients = .ok (out, s') := h
      exact onNetwork_served (by simp) (by simp) (by simp) hstep
  | serve c heap =>
      have hstep : s.onNetwork (.serve c heap) s.clients = .ok (out, s') := h
      exact onNetwork_served (by simp) (by simp) (by simp) hstep
  | close c =>
      have hstep : s.onNetwork (.close c) s.clients = .ok (out, s') := h
      exact onNetwork_served (by simp) (by simp) (by simp) hstep
  | client c e =>
      rw [step] at h
      split at h
      · cases h
      · rename_i act process hnext
        cases act with
        | silent =>
            cases h
            exact .silent c e process hnext
        | writes p =>
            obtain ⟨o, network, taken, rfl, rfl⟩ := onNetwork_eq_ok h
            cases taken
            exact .wrote c e p process hnext
        | reads x =>
            obtain ⟨o, network, taken, rfl, rfl⟩ := onNetwork_eq_ok h
            have hincoming := (Process.next_stepped hnext).reads
            cases Network.step_moved taken with
            | read c y rest next =>
                rw [next, List.head?_cons] at hincoming
                cases hincoming
                exact .read c e x rest process hnext next
            | went _ e' event idle sent server taken' => cases event

end Application

/-! ## The run of the network -/

abbrev ApplicationTaken :=
  Lts.Taken Application ApplicationEvent (Option (NetworkEvent × NetworkOut))

/-- The step of the network that a step is. -/
def networkTaken (x : ApplicationTaken) : Option NetworkTaken :=
  x.out.map fun step => ⟨x.pre.network, step.1, step.2, x.post.network⟩

def networkHistory (h : List ApplicationTaken) : List NetworkTaken := h.filterMap networkTaken

theorem networkHistory_append (h : List ApplicationTaken) (x : ApplicationTaken) :
    networkHistory (h ++ [x]) = networkHistory h ++ (networkTaken x).toList := by
  rw [networkHistory, List.filterMap_append]
  cases hx : networkTaken x with
  | none =>
      rw [List.filterMap_cons_none hx]
      rfl
  | some y =>
      rw [List.filterMap_cons_some hx]
      rfl

section Runs

variable {fuel : Nat} {credential : CredentialFile} {disk : Disk}
  {input : ConnId → List Byte} {answer : ConnId → Byte} {h : List ApplicationTaken}
  {s s' : Application} {e : ApplicationEvent} {out : Option (NetworkEvent × NetworkOut)}

theorem Application.Moved.matched (moved : s.Moved fuel e out s') :
    Lts.Matched Network.step Application.network ⟨s, e, out, s'⟩
      (networkTaken ⟨s, e, out, s'⟩) := by
  cases moved with
  | served ae ne o network server unwritten unread taken => exact ⟨rfl, rfl, taken⟩
  | silent c e process next => rfl
  | wrote c e p process next => exact ⟨rfl, rfl, rfl⟩
  | read c e x rest process next incoming =>
      refine ⟨rfl, rfl, ?_⟩
      change s.network.step (.read c) = _
      rw [Network.step, incoming]

theorem network_run
    (run : Lts.Run (Application.step fuel) (.start credential disk input answer) h s) :
    Lts.Run Network.step (.start credential disk) (networkHistory h) s.network :=
  run.project fun _ _ _ _ _ _ taken => (Application.step_moved taken).matched

/-- The steps of the server. -/
def serverSteps (h : List ApplicationTaken) : List Taken := serverHistory (networkHistory h)

theorem serverSteps_run
    (run : Lts.Run (Application.step fuel) (.start credential disk input answer) h s) :
    Lts.Run step (Server.start credential disk) (serverSteps h) s.network.server :=
  server_run (network_run run)

theorem serverSteps_append (h h' : List ApplicationTaken) :
    serverSteps (h ++ h') = serverSteps h ++ serverSteps h' := by
  rw [serverSteps, networkHistory, List.filterMap_append]
  exact serverHistory_append _ _

/-! ## One connection -/

/-- What a step has written on the connection. -/
def writtenBy (c : ConnId) (x : ApplicationTaken) : List Packet :=
  writtenOn c (networkTaken x).toList

/-- What a step has read on the connection. -/
def receivedBy (c : ConnId) (x : ApplicationTaken) : List Sent :=
  readBy c (networkTaken x).toList

variable {c : ConnId}

theorem written_append (c : ConnId) (h : List ApplicationTaken) (x : ApplicationTaken) :
    writtenOn c (networkHistory (h ++ [x])) = writtenOn c (networkHistory h) ++ writtenBy c x := by
  rw [networkHistory_append, writtenOn_append]
  rfl

theorem read_append (c : ConnId) (h : List ApplicationTaken) (x : ApplicationTaken) :
    readBy c (networkHistory (h ++ [x])) = readBy c (networkHistory h) ++ receivedBy c x := by
  rw [networkHistory_append, readBy_append]
  rfl

theorem writtenBy_wrote {d : ConnId} {pe : ProcessEvent} (p : Packet) :
    writtenBy c ⟨s, .client d pe, some (.write d p, .wrote), s'⟩ = if d = c then [p] else [] := by
  change writtenOn c [⟨s.network, .write d p, .wrote, s'.network⟩] = _
  by_cases hd : d = c
  · rw [if_pos hd]
    exact List.filterMap_cons_some (if_pos hd)
  · rw [if_neg hd]
    exact List.filterMap_cons_none (if_neg hd)

theorem receivedBy_read {d : ConnId} {pe : ProcessEvent} (x : Sent) :
    receivedBy c ⟨s, .client d pe, some (.read d, .read x), s'⟩ = if d = c then [x] else [] := by
  change readBy c [⟨s.network, .read d, .read x, s'.network⟩] = _
  by_cases hd : d = c
  · rw [if_pos hd]
    exact List.filterMap_cons_some (if_pos hd)
  · rw [if_neg hd]
    exact List.filterMap_cons_none (if_neg hd)

/-- What a step of the application is to one connection. -/
inductive SeenOn (fuel : Nat) (c : ConnId) (x : ApplicationTaken) : Prop
  | elsewhere (event : ∀ pe, x.event ≠ .client c pe) (same : x.post.clients c = x.pre.clients c)
      (unwritten : writtenBy c x = []) (unread : receivedBy c x = [])
  /-- it is a step of the client on the connection -/
  | acts (pe : ProcessEvent) (act : Act) (event : x.event = .client c pe)
      (next : (x.pre.clients c).next fuel (x.pre.network.toClient c).head? pe =
        .ok (act, x.post.clients c))
      (written : writtenBy c x = act.written) (read : receivedBy c x = act.read)

theorem Application.Moved.seenOn (moved : s.Moved fuel e out s') (c : ConnId) :
    SeenOn fuel c ⟨s, e, out, s'⟩ := by
  have hother : ∀ {d : ConnId} {pe : ProcessEvent}, d ≠ c →
      ∀ pe', ApplicationEvent.client d pe ≠ .client c pe' := by
    intro d pe hd pe' he
    cases he
    exact hd rfl
  cases moved with
  | served _ ne o network server unwritten unread taken =>
      refine .elsewhere (server c) rfl ?_ ?_
      · cases ne with
        | write d p => exact absurd rfl (unwritten d p)
        | accept | serve d heap | close d | read d => rfl
      · cases ne with
        | read d => exact absurd rfl (unread d)
        | accept | serve d heap | close d | write d p => rfl
  | silent d pe process next =>
      by_cases hd : d = c
      · subst hd
        refine .acts pe .silent rfl ?_ rfl rfl
        dsimp only
        rw [Function.update_self]
        exact next
      · exact .elsewhere (hother hd) (Function.update_of_ne (Ne.symm hd) _ _) rfl rfl
  | wrote d pe p process next =>
      by_cases hd : d = c
      · subst hd
        refine .acts pe (.writes p) rfl ?_ ((writtenBy_wrote p).trans (if_pos rfl)) rfl
        dsimp only
        rw [Function.update_self]
        exact next
      · exact .elsewhere (hother hd) (Function.update_of_ne (Ne.symm hd) _ _)
          ((writtenBy_wrote p).trans (if_neg hd)) rfl
  | read d pe x rest process next incoming =>
      by_cases hd : d = c
      · subst hd
        refine .acts pe (.reads x) rfl ?_ rfl ((receivedBy_read x).trans (if_pos rfl))
        dsimp only
        rw [Function.update_self]
        exact next
      · exact .elsewhere (hother hd) (Function.update_of_ne (Ne.symm hd) _ _) rfl
          ((receivedBy_read x).trans (if_neg hd))

/-- What holds of the client on a connection and the history, if the steps of the client keep it and
the others do not concern it. -/
theorem client_of_run {Inv : List ApplicationTaken → Process → Prop}
    (run : Lts.Run (Application.step fuel) (.start credential disk input answer) h s)
    (start : Inv [] (.dialogue (.start (input c) (answer c))))
    (elsewhere : ∀ h x process, (∀ pe, x.event ≠ .client c pe) → writtenBy c x = [] →
      receivedBy c x = [] → Inv h process → Inv (h ++ [x]) process)
    (acts : ∀ h x pe act, x.event = .client c pe →
      (x.pre.clients c).next fuel (x.pre.network.toClient c).head? pe =
        .ok (act, x.post.clients c) →
      writtenBy c x = act.written → receivedBy c x = act.read → Inv h (x.pre.clients c) →
      Inv (h ++ [x]) (x.post.clients c)) : Inv h (s.clients c) := by
  induction run with
  | start => exact start
  | @next h s s' e out run taken ih =>
      cases (Application.step_moved taken).seenOn c with
      | elsewhere event same unwritten unread =>
          have hsame : s'.clients c = s.clients c := same
          rw [hsame]
          exact elsewhere h ⟨s, e, out, s'⟩ _ event unwritten unread ih
      | acts pe act event next written read =>
          exact acts h ⟨s, e, out, s'⟩ pe act event next written read ih

end Runs

end GroupChat
