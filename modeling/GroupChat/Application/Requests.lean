import GroupChat.Application

/-!
# The requests of a client

A request is put on the outgoing queue by the main thread or a window, taken off it and written by
the writer, and handled by the server. Only `send_file` does not use the queue. `requests_in_order`
follows the requests over the whole way: the server handles those of the queue in the order in which
the user has made them, every one once, and so it does with the uploads.
-/

namespace GroupChat

open Posix

/-- What is in the outgoing queue. -/
def Process.outgoing : Process → List Packet
  | .dialogue _ => []
  | .chatting client => client.outgoingMessageQueue

/-- The requests that a step makes. The dialogue has no queue and writes them itself. -/
def Process.requests (e : ProcessEvent) (written : List Packet) : Process → List Packet
  | .dialogue _ => written
  | .chatting client => client.issued e

/-- The uploads that a step makes. -/
def Process.uploads (e : ProcessEvent) : Process → List Packet
  | .dialogue _ => []
  | .chatting client => client.uploads e

/-- The requests that a step has made on the connection. -/
def requestsOf (c : ConnId) (x : ApplicationTaken) : List Packet :=
  match x.event with
  | .client d e => if d = c then (x.pre.clients d).requests e (writtenBy c x) else []
  | _ => []

/-- The uploads that a step has made on the connection. -/
def uploadsOf (c : ConnId) (x : ApplicationTaken) : List Packet :=
  match x.event with
  | .client d e => if d = c then (x.pre.clients d).uploads e else []
  | _ => []

/-- What the server has handled or what is on its way to it, followed by what waits in the queue, is
what the user has asked for. -/
structure RequestsInOrder (h : List ApplicationTaken) (s : Application) : Prop where
  requests : ∀ c,
    ((handledOn c (serverSteps h) ++ s.network.toServer c).filter fun p => p.cmd ≠ SEND_FILE) ++
      (s.clients c).outgoing = h.flatMap (requestsOf c)
  uploads : ∀ c,
    ((handledOn c (serverSteps h) ++ s.network.toServer c).filter fun p => p.cmd = SEND_FILE) =
      h.flatMap (uploadsOf c)

/-! ## One step -/

/-- What a step writes, and what it leaves in the queue. -/
theorem Process.Stepped.requests {incoming : Option Sent} {e : ProcessEvent} {act : Act}
    {process process' : Process} (stepped : process.Stepped incoming e act process')
    (hplain : ∀ p ∈ process.outgoing, p.cmd ≠ SEND_FILE) :
    (act.written.filter fun p => p.cmd ≠ SEND_FILE) ++ process'.outgoing =
        process.outgoing ++ process.requests e act.written ∧
      (act.written.filter fun p => p.cmd = SEND_FILE) = process.uploads e ∧
      ∀ p ∈ process'.outgoing, p.cmd ≠ SEND_FILE := by
  have hwrites : ∀ {p : Packet}, p.cmd ≠ SEND_FILE →
      (([p] : List Packet).filter fun p => p.cmd ≠ SEND_FILE) = [p] ∧
        (([p] : List Packet).filter fun p => p.cmd = SEND_FILE) = [] := by
    intro p hp
    constructor
    · simp [hp]
    · simp [hp]
  cases stepped with
  | dialogue d _ _ turned =>
      cases turned with
      | idle d' before after => exact ⟨rfl, rfl, hplain⟩
      | requested p d' before awaits =>
          have hp : p.cmd ≠ SEND_FILE := by
            rcases awaits with ⟨-, hcmd⟩ | ⟨-, hcmd⟩
            · rw [hcmd]
              decide
            · rw [hcmd]
              decide
          refine ⟨?_, (hwrites hp).2, hplain⟩
          rw [Act.written, (hwrites hp).1]
          rfl
      | created x d' next stage after => exact ⟨rfl, rfl, hplain⟩
      | refused x d' next fails after => exact ⟨rfl, rfl, hplain⟩
      | entered x next awaits status => exact ⟨rfl, rfl, hplain⟩
  | chatting client client' _ stepped =>
      rw [Process.requests, Process.uploads, Process.outgoing, Process.outgoing]
      rw [Process.outgoing] at hplain
      cases stepped with
      | quiet _ uid same issued uploads =>
          rw [same, issued, uploads, List.append_nil]
          exact ⟨rfl, rfl, hplain⟩
      | queued _ p uid own upload queue issued uploads =>
          rw [queue, issued, uploads]
          refine ⟨rfl, rfl, fun q hq => ?_⟩
          rcases List.mem_append.mp hq with hq | hq
          · exact hplain q hq
          · rw [List.mem_singleton.mp hq]
            exact upload
      | uploaded p own upload issued uploads =>
          rw [issued, uploads, List.append_nil]
          refine ⟨?_, ?_, hplain⟩
          · rw [Act.written, List.filter_cons_of_neg (by simpa using upload)]
            rfl
          · rw [Act.written, List.filter_cons_of_pos (by simpa using upload)]
            rfl
      | wrote hdr rest queue issued uploads =>
          rw [queue] at hplain ⊢
          have hhdr : hdr.cmd ≠ SEND_FILE := hplain hdr List.mem_cons_self
          rw [issued, uploads, List.append_nil, Act.written, (hwrites hhdr).1]
          exact ⟨rfl, (hwrites hhdr).2, fun q hq => hplain q (List.mem_cons_of_mem _ hq)⟩
      | read x _ next uid same issued uploads =>
          rw [same, issued, uploads, List.append_nil]
          exact ⟨rfl, rfl, hplain⟩

/-! ## Runs -/

/-- The same about what has been written, with uploads kept out of the queue. -/
structure RequestsWritten (c : ConnId) (h : List ApplicationTaken) (process : Process) : Prop where
  requests : ((writtenOn c (networkHistory h)).filter fun p => p.cmd ≠ SEND_FILE) ++
    process.outgoing = h.flatMap (requestsOf c)
  uploads : ((writtenOn c (networkHistory h)).filter fun p => p.cmd = SEND_FILE) =
    h.flatMap (uploadsOf c)
  plain : ∀ p ∈ process.outgoing, p.cmd ≠ SEND_FILE

section Runs

variable {fuel : Nat} {credential : CredentialFile} {disk : Disk}
  {input : ConnId → List Byte} {answer : ConnId → Byte} {h : List ApplicationTaken}
  {s : Application}

theorem requestsOf_client {c : ConnId} {x : ApplicationTaken} {pe : ProcessEvent}
    (event : x.event = .client c pe) :
    requestsOf c x = (x.pre.clients c).requests pe (writtenBy c x) ∧
      uploadsOf c x = (x.pre.clients c).uploads pe := by
  rw [requestsOf, uploadsOf, event]
  exact ⟨if_pos rfl, if_pos rfl⟩

theorem requestsOf_elsewhere {c : ConnId} {x : ApplicationTaken}
    (event : ∀ pe, x.event ≠ .client c pe) : requestsOf c x = [] ∧ uploadsOf c x = [] := by
  rw [requestsOf, uploadsOf]
  cases hx : x.event with
  | accept | serve d heap | close d => exact ⟨rfl, rfl⟩
  | client d pe =>
      have hd : d ≠ c := by
        rintro rfl
        exact event pe hx
      exact ⟨if_neg hd, if_neg hd⟩

theorem written_of_run
    (run : Lts.Run (Application.step fuel) (.start credential disk input answer) h s)
    (c : ConnId) : RequestsWritten c h (s.clients c) := by
  apply client_of_run run
  · exact ⟨rfl, rfl, fun p hp => absurd hp List.not_mem_nil⟩
  · intro h x process event unwritten _ written
    obtain ⟨hrequests, huploads⟩ := requestsOf_elsewhere event
    constructor
    · rw [written_append, unwritten, List.append_nil, List.flatMap_append, List.flatMap_singleton,
        hrequests, List.append_nil]
      exact written.requests
    · rw [written_append, unwritten, List.append_nil, List.flatMap_append, List.flatMap_singleton,
        huploads, List.append_nil]
      exact written.uploads
    · exact written.plain
  · intro h x pe act event next hact _ written
    obtain ⟨hrequests, huploads, hplain⟩ := (Process.next_stepped next).requests written.plain
    obtain ⟨hreq, hupl⟩ := requestsOf_client event
    constructor
    · rw [written_append, hact, List.flatMap_append, List.flatMap_singleton, hreq, hact,
        ← written.requests, List.filter_append, List.append_assoc, List.append_assoc, hrequests]
    · rw [written_append, hact, List.flatMap_append, List.flatMap_singleton, hupl,
        ← written.uploads, List.filter_append, huploads]
    · exact hplain

/-- In every run of the application the requests of each client reach the server in the order in
which they were made, none is lost and none comes twice. -/
theorem requests_in_order (fuel : Nat) (credential : CredentialFile) (disk : Disk)
    (input : ConnId → List Byte) (answer : ConnId → Byte) (es : List ApplicationEvent) :
    Lts.Throughout (Application.step fuel) (.start credential disk input answer) es
      RequestsInOrder := by
  intro h s run _
  have hlink : ∀ c, handledOn c (serverSteps h) ++ s.network.toServer c =
      writtenOn c (networkHistory h) := (links (network_run run)).toServer
  constructor
  · intro c
    rw [hlink]
    exact (written_of_run run c).requests
  · intro c
    rw [hlink]
    exact (written_of_run run c).uploads

end Runs

end GroupChat
