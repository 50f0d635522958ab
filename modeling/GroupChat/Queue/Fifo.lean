import GroupChat.Queue
import GroupChat.Lts.Run

/-!
# The queues are queues

`Threadqueue.Holds` says which messages a queue holds and in which nodes, with the pool beside
them. `thread_queue_add` appends a message to what the queue holds and `thread_queue_get` takes
the first one off, whatever the pool does with the nodes (`threadQueueAdd_holds`,
`takeFirst_holds`). So in every interleaving of the threads the messages come out once each and
in the order they were put in (`queue_fifo`).
-/

namespace GroupChat

open Posix Linked

variable {α : Type}

namespace Threadqueue

/-- The nodes `as`, linked from `first`, hold the messages; the nodes `ps` are the pool. -/
structure Holds (queue : Threadqueue α) (as ps : List Nat) (msgs : List (Threadmsg α)) : Prop where
  chain : Chain queue.heap queue.first as msgs
  last : queue.last = as.getLast?
  length : queue.length = msgs.length
  pool : ∃ old, Chain queue.heap queue.msgpool ps old
  poolLength : queue.msgpoolLength = ps.length
  apart : ∀ a ∈ as, a ∉ ps
  live : ∀ a ∈ as ++ ps, a ∉ queue.freed
  freed_lt : ∀ a ∈ queue.freed, a < queue.heap.length

/-- A block that is in use, but not in the queue or its pool. -/
structure Loose (queue : Threadqueue α) (as ps : List Nat) (a : Nat) : Prop where
  lt : a < queue.heap.length
  live : a ∉ queue.freed
  queue : a ∉ as
  pool : a ∉ ps

section Nodes

variable {queue : Threadqueue α} {as ps : List Nat} {msgs : List (Threadmsg α)} {a : Nat}

theorem load_ok {node : Node (Threadmsg α)} (hlive : a ∉ queue.freed)
    (hnode : queue.heap[a]? = some node) : queue.load (some a) = .ok (a, node) := by
  simp only [load, if_neg hlive, hnode]

theorem store_ok (hlive : a ∉ queue.freed) (hlt : a < queue.heap.length)
    (node : Node (Threadmsg α)) :
    queue.store a node = .ok { queue with heap := queue.heap.set a node } := by
  rw [store, if_neg hlive, if_neg (Nat.not_le.mpr hlt)]

theorem free_ok (hlive : a ∉ queue.freed) :
    queue.free a = .ok { queue with freed := a :: queue.freed } := by
  rw [free, if_neg hlive]

theorem holds_init : (threadQueueInit : Threadqueue α).Holds [] [] [] where
  chain := .nil
  last := rfl
  length := rfl
  pool := ⟨[], .nil⟩
  poolLength := rfl
  apart _ ha := absurd ha List.not_mem_nil
  live _ ha := absurd ha List.not_mem_nil
  freed_lt _ ha := absurd ha List.not_mem_nil

/-- A loose node may be written. -/
theorem Holds.store_loose (hold : queue.Holds as ps msgs) (loose : queue.Loose as ps a)
    (node : Node (Threadmsg α)) :
    queue.store a node = .ok { queue with heap := queue.heap.set a node } ∧
      Holds { queue with heap := queue.heap.set a node } as ps msgs := by
  obtain ⟨old, pool⟩ := hold.pool
  refine ⟨store_ok loose.live loose.lt node, { hold with
    chain := hold.chain.set_of_notMem loose.queue node
    pool := ⟨old, pool.set_of_notMem loose.pool node⟩
    freed_lt := ?_ }⟩
  intro b hb
  rw [List.length_set]
  exact hold.freed_lt b hb

/-! ## The pool -/

/-- `get_msglist` leaves the queue as it is and hands out a loose node. -/
theorem getMsglist_holds (hold : queue.Holds as ps msgs) :
    ∃ newmsg queue' ps', queue.getMsglist = .ok (newmsg, queue') ∧ queue'.Holds as ps' msgs ∧
      queue'.Loose as ps' newmsg := by
  obtain ⟨old, pool⟩ := hold.pool
  cases hpool : queue.msgpool with
  | none =>
      have hps : ps = [] := by
        rw [hpool] at pool
        cases pool
        rfl
      refine ⟨queue.heap.length, { queue with heap := queue.heap ++ [⟨⟨none, 0⟩, none⟩] }, ps, ?_,
        { hold with chain := hold.chain.push _, pool := ⟨old, pool.push _⟩, freed_lt := ?_ }, ?_⟩
      · rw [getMsglist, if_neg (not_not.mpr hpool)]
      · intro a ha
        rw [List.length_append]
        exact Nat.lt_add_right _ (hold.freed_lt a ha)
      · refine ⟨by simp, fun hmem => ?_, fun hmem => ?_, hps ▸ List.not_mem_nil⟩
        · exact Nat.lt_irrefl _ (hold.freed_lt _ hmem)
        · exact Nat.lt_irrefl _ (hold.chain.lt_length hmem)
  | some tmp =>
      rw [hpool] at pool
      obtain ⟨node, ps', old', hnode, rfl, -, hfresh, rest⟩ := pool.uncons
      have hlive : tmp ∉ queue.freed :=
        hold.live tmp (List.mem_append_right _ List.mem_cons_self)
      refine ⟨tmp, { queue with
          msgpool := node.next
          msgpoolLength := queue.msgpoolLength - 1 }, ps', ?_, { hold with
        pool := ⟨old', rest⟩
        poolLength := ?_
        apart := fun a ha hmem => hold.apart a ha (List.mem_cons_of_mem _ hmem)
        live := ?_ }, ?_⟩
      · rw [getMsglist, if_pos (by simp [hpool]), hpool, load_ok hlive hnode]
        rfl
      · have hlen := hold.poolLength
        rw [List.length_cons] at hlen
        change queue.msgpoolLength - 1 = _
        omega
      · intro a ha
        apply hold.live a
        rcases List.mem_append.mp ha with ha | ha
        · exact List.mem_append_left _ ha
        · exact List.mem_append_right _ (List.mem_cons_of_mem _ ha)
      · exact ⟨(List.getElem?_eq_some_iff.mp hnode).1, hlive,
          fun hmem => hold.apart tmp hmem List.mem_cons_self, hfresh⟩

theorem poolNode_holds (hold : queue.Holds as ps msgs) (loose : queue.Loose as ps a) :
    ∃ queue' ps', queue.poolNode a = .ok queue' ∧ queue'.Holds as ps' msgs := by
  rw [poolNode]
  split
  · refine ⟨_, ps, free_ok loose.live, { hold with live := ?_, freed_lt := ?_ }⟩
    · intro b hb hmem
      rcases List.mem_cons.mp hmem with rfl | hmem
      · exact (List.mem_append.mp hb).elim loose.queue loose.pool
      · exact hold.live b hb hmem
    · intro b hb
      rcases List.mem_cons.mp hb with rfl | hb
      · exact loose.lt
      · exact hold.freed_lt b hb
  · obtain ⟨hstore, hold'⟩ := hold.store_loose loose ⟨⟨none, 0⟩, queue.msgpool⟩
    obtain ⟨old, pool⟩ := hold'.pool
    have hnode := List.getElem?_set_self (a := ⟨⟨none, 0⟩, queue.msgpool⟩) loose.lt
    rw [hstore]
    refine ⟨_, a :: ps, rfl, { hold' with
      pool := ⟨_, .cons hnode loose.pool pool⟩
      poolLength := ?_
      apart := ?_
      live := ?_ }⟩
    · change queue.msgpoolLength + 1 = _
      rw [hold.poolLength, List.length_cons]
      rfl
    · intro b hb hmem
      rcases List.mem_cons.mp hmem with rfl | hmem
      · exact loose.queue hb
      · exact hold.apart b hb hmem
    · intro b hb
      rcases List.mem_append.mp hb with hb | hb
      · exact hold.live b (List.mem_append_left _ hb)
      · rcases List.mem_cons.mp hb with rfl | hb
        · exact loose.live
        · exact hold.live b (List.mem_append_right _ hb)

theorem trimPool_holds (hold : queue.Holds as ps msgs) :
    ∃ queue' ps', queue.trimPool = .ok queue' ∧ queue'.Holds as ps' msgs := by
  rw [trimPool]
  split
  · rename_i hlong
    obtain ⟨old, pool⟩ := hold.pool
    cases hpool : queue.msgpool with
    | none =>
        rw [hpool] at pool
        cases pool
        have hlen := hold.poolLength
        have hdiv : 0 ≤ (msgs.length : Int).tdiv 4 := Int.tdiv_nonneg (by omega) (by decide)
        rw [hold.length, hlen, MSGPOOL_SIZE, List.length_nil] at hlong
        omega
    | some tmp =>
        rw [hpool] at pool
        obtain ⟨node, ps', old', hnode, rfl, -, hfresh, rest⟩ := pool.uncons
        have hlive : tmp ∉ queue.freed :=
          hold.live tmp (List.mem_append_right _ List.mem_cons_self)
        rw [load_ok hlive hnode]
        refine ⟨{ queue with
            msgpool := node.next
            msgpoolLength := queue.msgpoolLength - 1
            freed := tmp :: queue.freed }, ps', ?_, { hold with
          pool := ⟨old', rest⟩
          poolLength := ?_
          apart := fun a ha hmem => hold.apart a ha (List.mem_cons_of_mem _ hmem)
          live := ?_
          freed_lt := ?_ }⟩
        · have hfree : ({ queue with msgpool := node.next } : Threadqueue α).free tmp = _ :=
            free_ok hlive
          simp only [bind, Except.bind, hfree]
          rfl
        · have hlen := hold.poolLength
          rw [List.length_cons] at hlen
          change queue.msgpoolLength - 1 = _
          omega
        · intro a ha hmem
          rcases List.mem_cons.mp hmem with rfl | hmem
          · rcases List.mem_append.mp ha with ha | ha
            · exact hold.apart _ ha List.mem_cons_self
            · exact hfresh ha
          · refine hold.live a ?_ hmem
            rcases List.mem_append.mp ha with ha | ha
            · exact List.mem_append_left _ ha
            · exact List.mem_append_right _ (List.mem_cons_of_mem _ ha)
        · intro a ha
          rcases List.mem_cons.mp ha with rfl | ha
          · exact (List.getElem?_eq_some_iff.mp hnode).1
          · exact hold.freed_lt a ha
  · exact ⟨queue, ps, rfl, hold⟩

/-- `release_msglist` disposes of a loose node and leaves the queue as it is. -/
theorem releaseMsglist_holds (hold : queue.Holds as ps msgs) (loose : queue.Loose as ps a) :
    ∃ queue' ps', queue.releaseMsglist a = .ok queue' ∧ queue'.Holds as ps' msgs := by
  obtain ⟨queue₁, ps₁, hpool, hold₁⟩ := poolNode_holds hold loose
  obtain ⟨queue₂, ps₂, htrim, hold₂⟩ := trimPool_holds hold₁
  exact ⟨queue₂, ps₂, bind_eq_ok.mpr ⟨queue₁, hpool, htrim⟩, hold₂⟩

/-! ## The operations -/

/-- A node linked behind the last one adds its message. The length is still to be counted. -/
theorem linkLast_holds (hold : queue.Holds as ps msgs) (loose : queue.Loose as ps a)
    {msg : Threadmsg α} (hmsg : queue.heap[a]? = some ⟨msg, none⟩) :
    ∃ queue', queue.linkLast a = .ok queue' ∧ queue'.length = queue.length ∧
      Holds { queue' with length := queue.length + 1 } (as ++ [a]) ps (msgs ++ [msg]) := by
  have hnew : Chain queue.heap (some a) [a] [msg] := .cons hmsg List.not_mem_nil .nil
  have hlength : queue.length + 1 = (msgs ++ [msg]).length := by
    rw [hold.length, List.length_append]
    rfl
  have hapart : ∀ b ∈ as ++ [a], b ∉ ps := by
    intro b hb hmem
    rcases List.mem_append.mp hb with hb | hb
    · exact hold.apart b hb hmem
    · exact loose.pool (List.mem_singleton.mp hb ▸ hmem)
  have hlive : ∀ b ∈ (as ++ [a]) ++ ps, b ∉ queue.freed := by
    intro b hb
    simp only [List.mem_append, List.mem_singleton] at hb
    rcases hb with (hb | rfl) | hb
    · exact hold.live b (List.mem_append_left _ hb)
    · exact loose.live
    · exact hold.live b (List.mem_append_right _ hb)
  obtain rfl | ⟨before, last, rfl⟩ := List.eq_nil_or_concat as
  · -- the queue is empty, and the new node is its first and its last
    have hmsgs : msgs = [] := List.length_eq_zero_iff.mp hold.chain.length_eq.symm
    subst hmsgs
    refine ⟨{ queue with last := some a, first := some a }, if_pos hold.last, rfl, { hold with
      chain := hnew
      last := rfl
      length := hlength
      apart := hapart
      live := hlive }⟩
  · -- the last node is linked to the new one
    rw [List.concat_eq_append] at hold loose hapart hlive ⊢
    have hmem : last ∈ before ++ [last] := List.mem_append_right _ List.mem_cons_self
    have hlast : queue.last = some last := by rw [hold.last, List.getLast?_concat]
    have hlivelast := hold.live last (List.mem_append_left _ hmem)
    have hlt := hold.chain.lt_length hmem
    obtain ⟨node, hnode⟩ : ∃ node, queue.heap[last]? = some node :=
      ⟨_, List.getElem?_eq_getElem hlt⟩
    obtain ⟨old, pool⟩ := hold.pool
    have hchain := hold.chain.redirect hnew fun b hb => List.mem_singleton.mp hb ▸ loose.queue
    rw [setNext_eq_set hnode] at hchain
    refine ⟨{ queue with
        heap := queue.heap.set last { node with next := some a }
        last := some a }, ?_, rfl, {
      chain := by rw [List.append_assoc]; exact hchain
      last := by rw [List.getLast?_concat]
      length := hlength
      pool := ⟨old, pool.set_of_notMem (hold.apart last hmem) _⟩
      poolLength := hold.poolLength
      apart := hapart
      live := hlive
      freed_lt := ?_ }⟩
    · rw [linkLast, if_neg (by rw [hlast]; exact Option.some_ne_none _), hlast,
        load_ok hlivelast hnode]
      exact bind_eq_ok.mpr ⟨_, rfl, bind_eq_ok.mpr ⟨_, store_ok hlivelast hlt _, rfl⟩⟩
    · intro b hb
      rw [List.length_set]
      exact hold.freed_lt b hb

/-- `thread_queue_add` appends its message. -/
theorem threadQueueAdd_holds (hold : queue.Holds as ps msgs) (data : Option α) (msgtype : Int) :
    ∃ queue' as' ps', queue.threadQueueAdd data msgtype = .ok queue' ∧
      queue'.Holds as' ps' (msgs ++ [⟨data, msgtype⟩]) := by
  obtain ⟨newmsg, queue₁, ps', hget, hold₁, loose⟩ := getMsglist_holds hold
  obtain ⟨hstore, hold₂⟩ := hold₁.store_loose loose ⟨⟨data, msgtype⟩, none⟩
  have loose' : Loose { queue₁ with heap := queue₁.heap.set newmsg ⟨⟨data, msgtype⟩, none⟩ } as ps'
      newmsg := { loose with lt := by rw [List.length_set]; exact loose.lt }
  obtain ⟨queue₂, hlink, hlen, hold₃⟩ :=
    linkLast_holds hold₂ loose' (List.getElem?_set_self loose.lt)
  refine ⟨_, as ++ [newmsg], ps', ?_, hold₃⟩
  refine bind_eq_ok.mpr ⟨_, hget, bind_eq_ok.mpr ⟨_, hstore, bind_eq_ok.mpr ⟨_, hlink, ?_⟩⟩⟩
  rw [hlen]
  rfl

/-- Without its first node the list holds the messages after the first one. -/
theorem unlinkFirst_holds {msg : Threadmsg α} (hold : queue.Holds (a :: as) ps (msg :: msgs))
    {next : Option Nat} (rest : Chain queue.heap next as msgs) :
    (queue.unlinkFirst next).Holds as ps msgs ∧
      (queue.unlinkFirst next).heap = queue.heap ∧
      (queue.unlinkFirst next).freed = queue.freed := by
  have hapart : ∀ b ∈ as, b ∉ ps := fun b hb => hold.apart b (List.mem_cons_of_mem _ hb)
  have hlive : ∀ b ∈ as ++ ps, b ∉ queue.freed :=
    fun b hb => hold.live b (List.mem_cons_of_mem _ hb)
  have hlen := hold.length
  rw [List.length_cons] at hlen
  by_cases hnext : next = none
  · have hmsgs : msgs = [] := rest.null_iff.mp hnext
    subst hmsgs
    have has : as = [] := List.length_eq_zero_iff.mp rest.length_eq
    subst has
    rw [unlinkFirst, if_pos hnext]
    refine ⟨{ hold with
      chain := rest
      last := rfl
      length := rfl
      apart := hapart
      live := hlive }, rfl, rfl⟩
  · have hne : as ≠ [] := by
      rintro rfl
      exact hnext rest.of_nil.1
    have hlast : queue.last = as.getLast? := by
      rw [hold.last, List.getLast?_cons_of_ne_nil hne]
    have hlength : queue.length - 1 = msgs.length := by omega
    rw [unlinkFirst, if_neg hnext]
    refine ⟨{ hold with
      chain := rest
      last := hlast
      length := hlength
      apart := hapart
      live := hlive }, rfl, rfl⟩

/-- The end of `thread_queue_get` takes off the first message. -/
theorem takeFirst_holds {msg : Threadmsg α} (hold : queue.Holds as ps (msg :: msgs)) :
    ∃ queue' as' ps', queue.takeFirst = .ok (msg, msgs.length, queue') ∧
      queue'.Holds as' ps' msgs := by
  have chain := hold.chain
  cases hfirst : queue.first with
  | none => exact absurd (chain.null_iff.mp hfirst) (List.cons_ne_nil _ _)
  | some firstrec =>
      rw [hfirst] at chain
      obtain ⟨node, as', msgs', hnode, rfl, hmsgs, hfresh, rest⟩ := chain.uncons
      obtain ⟨rfl, rfl⟩ := List.cons.inj hmsgs
      have hlive : firstrec ∉ queue.freed := hold.live firstrec List.mem_cons_self
      obtain ⟨hold₁, hheap, hfreed⟩ := unlinkFirst_holds hold rest
      have loose : (queue.unlinkFirst node.next).Loose as' ps firstrec := by
        refine ⟨?_, hfreed ▸ hlive, hfresh, hold.apart firstrec List.mem_cons_self⟩
        rw [hheap]
        exact (List.getElem?_eq_some_iff.mp hnode).1
      obtain ⟨queue', ps', hrelease, hold'⟩ := releaseMsglist_holds hold₁ loose
      refine ⟨queue', as', ps', ?_, hold'⟩
      rw [takeFirst, hfirst, load_ok hlive hnode]
      refine bind_eq_ok.mpr ⟨_, rfl, bind_eq_ok.mpr ⟨_, hrelease, ?_⟩⟩
      rw [hold₁.length]
      rfl

end Nodes

end Threadqueue

/-! ## The threads -/

/-- The message an event puts in. -/
def QueueEvent.message : QueueEvent α → Option (Threadmsg α)
  | .add _ data msgtype => some ⟨data, msgtype⟩
  | _ => none

/-- The message a critical section returns. -/
def QueueResult.message : QueueResult α → Option (Threadmsg α)
  | .returned msg _ => some msg
  | _ => none

abbrev QueueTaken (α : Type) := Lts.Taken (WaitableQueue α) (QueueEvent α) (QueueResult α)

/-- The messages given to `thread_queue_add` so far. -/
def added (h : List (QueueTaken α)) : List (Threadmsg α) := h.filterMap fun x => x.event.message

/-- The messages that `thread_queue_get` has returned so far. -/
def returned (h : List (QueueTaken α)) : List (Threadmsg α) := h.filterMap fun x => x.out.message

/-- What has come out and what is linked are what was put in, in order; the fields of the queue
describe what is linked, the pool is apart from it, and no step goes wrong. -/
structure QueueSound (h : List (QueueTaken α)) (s : WaitableQueue α) : Prop where
  holds : ∃ as ps msgs, s.queue.Holds as ps msgs ∧ returned h ++ msgs = added h ∧
    (s.queue.last = none ↔ msgs = [])
  safe : ∀ e fault, s.step e ≠ .error (.undefined fault)

section Steps

variable {s s' : WaitableQueue α} {as ps : List Nat} {msgs : List (Threadmsg α)}
  {e : QueueEvent α} {out : QueueResult α}

/-- What comes out and what remains are what the queue held. -/
theorem waitLoop_holds (hold : s.queue.Holds as ps msgs) (t : ThreadId) (timed : Bool) (ret : Int) :
    ∃ out s' as' ps' msgs', s.waitLoop t timed ret = .ok (out, s') ∧
      s'.queue.Holds as' ps' msgs' ∧ out.message.toList ++ msgs' = msgs := by
  rw [WaitableQueue.waitLoop]
  by_cases hwaits : s.queue.first = none ∧ ret ≠ ETIMEDOUT
  · rw [if_pos hwaits]
    exact ⟨_, _, as, ps, msgs, rfl, hold, rfl⟩
  · rw [if_neg hwaits]
    by_cases hret : ret = ETIMEDOUT
    · -- a message that has come in meanwhile stays
      simp only [if_pos hret]
      exact ⟨_, _, as, ps, msgs, rfl, hold, rfl⟩
    · cases msgs with
      | nil => exact absurd ⟨hold.chain.null_iff.mpr rfl, hret⟩ hwaits
      | cons msg msgs =>
          obtain ⟨queue', as', ps', htake, hold'⟩ := Threadqueue.takeFirst_holds hold
          simp only [if_neg hret, htake]
          exact ⟨_, _, as', ps', msgs, rfl, hold', rfl⟩

/-- A critical section that is entered ends, with the queue as long as it should be. -/
theorem step_holds (hold : s.queue.Holds as ps msgs) (e : QueueEvent α) :
    s.step e = .error .outOfTurn ∨ ∃ out s' as' ps' msgs', s.step e = .ok (out, s') ∧
      s'.queue.Holds as' ps' msgs' ∧ out.message.toList ++ msgs' = msgs ++ e.message.toList := by
  cases e with
  | add t data msgtype =>
      rw [WaitableQueue.step]
      by_cases hwaiting : s.waiting t ≠ none
      · rw [if_pos hwaiting]
        exact Or.inl rfl
      · obtain ⟨queue', as', ps', hadd, hold'⟩ := Threadqueue.threadQueueAdd_holds hold data msgtype
        simp only [if_neg hwaiting, hadd]
        exact Or.inr ⟨_, _, as', ps', _, rfl, hold', rfl⟩
  | get t timed =>
      rw [WaitableQueue.step]
      by_cases hwaiting : s.waiting t ≠ none
      · rw [if_pos hwaiting]
        exact Or.inl rfl
      · obtain ⟨out, s', as', ps', msgs', hloop, hold', hmoved⟩ := waitLoop_holds hold t timed 0
        rw [if_neg hwaiting]
        exact Or.inr ⟨out, s', as', ps', msgs', hloop, hold', by simpa [QueueEvent.message]⟩
  | wake t ret =>
      rw [WaitableQueue.step]
      cases s.waiting t with
      | none => exact Or.inl rfl
      | some timed =>
          obtain ⟨out, s', as', ps', msgs', hloop, hold', hmoved⟩ :=
            waitLoop_holds hold t timed (if timed then ret else 0)
          exact Or.inr ⟨out, s', as', ps', msgs', hloop, hold', by simpa [QueueEvent.message]⟩

end Steps

/-- Every run of the threads keeps the messages, their number and their order. -/
theorem holds_of_run {h : List (QueueTaken α)} {s : WaitableQueue α}
    (run : Lts.Run WaitableQueue.step WaitableQueue.start h s) :
    ∃ as ps msgs, s.queue.Holds as ps msgs ∧ returned h ++ msgs = added h := by
  induction run with
  | start => exact ⟨[], [], [], Threadqueue.holds_init, rfl⟩
  | @next h s s' e out run taken ih =>
      obtain ⟨as, ps, msgs, hold, hkept⟩ := ih
      obtain hstop | ⟨out', s'', as', ps', msgs', hstep, hold', hmoved⟩ := step_holds hold e
      · rw [hstop] at taken
        cases taken
      · obtain ⟨rfl, rfl⟩ := Prod.mk.inj (Except.ok.inj (hstep.symm.trans taken))
        refine ⟨as', ps', msgs', hold', ?_⟩
        have hout : returned (h ++ [⟨s, e, out', s''⟩]) = returned h ++ out'.message.toList := by
          rw [returned, List.filterMap_append]
          cases hr : out'.message <;> simp [returned, hr]
        have hin : added (h ++ [⟨s, e, out', s''⟩]) = added h ++ e.message.toList := by
          rw [added, List.filterMap_append]
          cases ha : e.message <;> simp [added, ha]
        rw [hout, hin, List.append_assoc, hmoved, ← List.append_assoc, hkept]

/-- In every interleaving of the threads that use a queue, the messages come out once each and in
the order they were put in. -/
theorem queue_fifo (es : List (QueueEvent α)) :
    Lts.Throughout WaitableQueue.step WaitableQueue.start es QueueSound := by
  intro h s run _
  obtain ⟨as, ps, msgs, hold, hkept⟩ := holds_of_run run
  refine ⟨⟨as, ps, msgs, hold, hkept, ?_⟩, fun e fault hfault => ?_⟩
  · rw [hold.last, List.getLast?_eq_none_iff, ← hold.chain.null_iff]
    exact ⟨fun has => (has ▸ hold.chain).of_nil.1, fun hnull =>
      List.length_eq_zero_iff.mp (hold.chain.length_eq.trans (by
        rw [hold.chain.null_iff.mp hnull]; rfl))⟩
  · obtain hstop | ⟨out, s', as', ps', msgs', hstep, -⟩ := step_holds hold e
    · rw [hstop] at hfault
      cases hfault
    · rw [hstep] at hfault
      cases hfault

end GroupChat
