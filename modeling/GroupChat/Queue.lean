import GroupChat.Posix.Basic
import GroupChat.Linked.Chain
import Mathlib.Logic.Function.Basic

/-!
# Message queues between threads

The queue of `queue.c`: a singly linked list with a pointer to its last node, and a pool of nodes
that have been used and are kept for the next message. A node is a block of the heap, and a block
that has been freed is never used again. Allocation succeeds.

Every function holds the lock from its start to its end, but for the wait in `thread_queue_get`.
An event is one such critical section: a call of `thread_queue_add`, a call of
`thread_queue_get` up to its end or its first wait, or what a waiting call does when its wait
returns. A wait may return at any time, woken by a broadcast, by the timeout or spuriously, so
the condition variable has no state of its own.
-/

namespace GroupChat

open Posix Linked

def MSGPOOL_SIZE : Int := 256

def ETIMEDOUT : Int := 110

/-- What a node holds of `struct threadmsg`; `none` is `NULL`. -/
structure Threadmsg (α : Type) where
  data : Option α
  msgtype : Int
  deriving DecidableEq, Repr

structure Threadqueue (α : Type) where
  length : Int
  first : Option Nat
  last : Option Nat
  msgpool : Option Nat
  msgpoolLength : Int
  /-- the `struct msglist`s that `malloc` has returned -/
  heap : Heap (Threadmsg α)
  freed : List Nat

variable {α : Type}

/-- `thread_queue_init`. -/
def threadQueueInit : Threadqueue α := ⟨0, none, none, none, 0, [], []⟩

namespace Threadqueue

/-! ## Nodes -/

/-- The node at a pointer. -/
def load (queue : Threadqueue α) : Option Nat → Except Fault (Nat × Node (Threadmsg α))
  | none => .error .nullPointer
  | some a =>
    if a ∈ queue.freed then .error .useAfterFree
    else
      match queue.heap[a]? with
      | none => .error .outOfBounds
      | some node => .ok (a, node)

/-- Write the fields of a node. -/
def store (queue : Threadqueue α) (a : Nat) (node : Node (Threadmsg α)) :
    Except Fault (Threadqueue α) :=
  if a ∈ queue.freed then .error .useAfterFree
  else if queue.heap.length ≤ a then .error .outOfBounds
  else .ok { queue with heap := queue.heap.set a node }

/-- `free(node)`. -/
def free (queue : Threadqueue α) (a : Nat) : Except Fault (Threadqueue α) :=
  if a ∈ queue.freed then .error .useAfterFree
  else .ok { queue with freed := a :: queue.freed }

/-- `get_msglist`: a node from the pool, or a new one. -/
def getMsglist (queue : Threadqueue α) : Except Fault (Nat × Threadqueue α) :=
  if queue.msgpool ≠ none then do
    let (tmp, node) ← queue.load queue.msgpool
    return (tmp, { queue with msgpool := node.next, msgpoolLength := queue.msgpoolLength - 1 })
  else
    .ok (queue.heap.length, { queue with heap := queue.heap ++ [⟨⟨none, 0⟩, none⟩] })

/-- The first `if` of `release_msglist`: the node is freed or goes to the pool. -/
def poolNode (queue : Threadqueue α) (node : Nat) : Except Fault (Threadqueue α) :=
  if queue.msgpoolLength > queue.length.tdiv 8 + MSGPOOL_SIZE then queue.free node
  else do
    let queue ← queue.store node ⟨⟨none, 0⟩, queue.msgpool⟩
    return { queue with msgpool := some node, msgpoolLength := queue.msgpoolLength + 1 }

/-- The second one: a pool that is too long loses a node. -/
def trimPool (queue : Threadqueue α) : Except Fault (Threadqueue α) :=
  if queue.msgpoolLength > queue.length.tdiv 4 + MSGPOOL_SIZE * 10 then do
    let (tmp, node) ← queue.load queue.msgpool
    let queue ← { queue with msgpool := node.next }.free tmp
    return { queue with msgpoolLength := queue.msgpoolLength - 1 }
  else .ok queue

/-- `release_msglist`. -/
def releaseMsglist (queue : Threadqueue α) (node : Nat) : Except Fault (Threadqueue α) := do
  let queue ← queue.poolNode node
  queue.trimPool

/-! ## The functions of the interface -/

/-- Link a new node behind the last one. -/
def linkLast (queue : Threadqueue α) (newmsg : Nat) : Except Fault (Threadqueue α) :=
  if queue.last = none then .ok { queue with last := some newmsg, first := some newmsg }
  else do
    let (last, node) ← queue.load queue.last
    let queue ← queue.store last { node with next := some newmsg }
    return { queue with last := some newmsg }

/-- `thread_queue_add`. -/
def threadQueueAdd (queue : Threadqueue α) (data : Option α) (msgtype : Int) :
    Except Fault (Threadqueue α) := do
  let (newmsg, queue) ← queue.getMsglist
  let queue ← queue.store newmsg ⟨⟨data, msgtype⟩, none⟩
  let queue ← queue.linkLast newmsg
  return { queue with length := queue.length + 1 }

/-- Unlink the first node, which is followed by `next`. -/
def unlinkFirst (queue : Threadqueue α) (next : Option Nat) : Threadqueue α :=
  let queue := { queue with first := next, length := queue.length - 1 }
  if queue.first = none then { queue with last := none, length := 0 } else queue

/-- The part of `thread_queue_get` after the wait: the message, `qlength` and the queue. -/
def takeFirst (queue : Threadqueue α) :
    Except Fault (Threadmsg α × Int × Threadqueue α) := do
  let (firstrec, node) ← queue.load queue.first
  let queue := queue.unlinkFirst node.next
  let released ← queue.releaseMsglist firstrec
  return (node.val, queue.length, released)

/-- `thread_queue_length`. -/
def threadQueueLength (queue : Threadqueue α) : Int := queue.length

/-- The blocks that have not been freed. -/
def live (queue : Threadqueue α) : List Nat :=
  (List.range queue.heap.length).filter fun a => a ∉ queue.freed

theorem load_eq_ok {queue : Threadqueue α} {rec : Option Nat} {a : Nat}
    {node : Node (Threadmsg α)} (h : queue.load rec = .ok (a, node)) :
    rec = some a ∧ a ∉ queue.freed ∧ queue.heap[a]? = some node := by
  cases rec with
  | none => cases h
  | some b =>
      rw [load] at h
      split at h
      · cases h
      · rename_i hlive
        split at h
        · cases h
        · rename_i node' hnode
          cases h
          exact ⟨rfl, hlive, hnode⟩

theorem length_live_free {queue queue' : Threadqueue α} {rec : Option Nat} {a : Nat}
    {node : Node (Threadmsg α)} (hload : queue.load rec = .ok (a, node))
    (hfree : queue.free a = .ok queue') : queue'.live.length < queue.live.length := by
  obtain ⟨-, hlive, hnode⟩ := load_eq_ok hload
  rw [free, if_neg hlive] at hfree
  cases hfree
  have hmem : a ∈ queue.live := by
    rw [live, List.mem_filter, List.mem_range]
    exact ⟨(List.getElem?_eq_some_iff.mp hnode).1, decide_eq_true hlive⟩
  have hfewer : ({ queue with freed := a :: queue.freed } : Threadqueue α).live =
      queue.live.filter fun b => b ≠ a := by
    rw [live, live, List.filter_filter]
    refine List.filter_congr fun b _ => ?_
    simp [not_or]
  rw [hfewer]
  exact List.length_filter_lt_length_iff_exists.mpr ⟨a, hmem, by simp⟩

/-- The loop of `thread_queue_cleanup` over one of the two lists, with the pointers it frees
besides the nodes. -/
def cleanupLoop (freedata : Bool) (queue : Threadqueue α) (rec : Option Nat) :
    Except Fault (List α × Threadqueue α) :=
  if rec = none then .ok ([], queue)
  else
    match _hload : queue.load rec with
    | .error fault => .error fault
    | .ok (a, node) =>
      match _hfree : queue.free a with
      | .error fault => .error fault
      | .ok queue' =>
        match cleanupLoop freedata queue' node.next with
        | .error fault => .error fault
        | .ok (data, queue'') => .ok ((if freedata then node.val.data.toList else []) ++ data, queue'')
termination_by queue.live.length
decreasing_by exact length_live_free ‹_› ‹_›

/-- `thread_queue_cleanup`, with the data pointers that it frees in their order. The mutex and
the condition variable are destroyed. -/
def threadQueueCleanup (queue : Threadqueue α) (freedata : Bool) :
    Except Fault (List α × Threadqueue α) := do
  let (data, queue') ← queue.cleanupLoop freedata queue.first
  let (data', queue'') ← queue'.cleanupLoop freedata queue.msgpool
  return (data ++ data', queue'')

end Threadqueue

/-! ## The threads -/

/-- A queue with the calls of `thread_queue_get` that wait on it, timed or not. -/
structure WaitableQueue (α : Type) where
  queue : Threadqueue α
  waiting : ThreadId → Option Bool

inductive QueueEvent (α : Type)
  | add (t : ThreadId) (data : Option α) (msgtype : Int)
  | get (t : ThreadId) (timed : Bool)
  /-- the wait of the thread returns, `pthread_cond_timedwait` with the result `ret` -/
  | wake (t : ThreadId) (ret : Int)

/-- What a critical section ends with. -/
inductive QueueResult (α : Type)
  | added
  | waits
  | timedOut
  | returned (msg : Threadmsg α) (qlength : Int)
  deriving DecidableEq, Repr

inductive QueueStop
  | undefined (fault : Fault)
  /-- the thread is not at this point of the code -/
  | outOfTurn
  deriving DecidableEq, Repr

namespace WaitableQueue

def start : WaitableQueue α := ⟨threadQueueInit, fun _ => none⟩

/-- The test of the wait loop, and what follows the loop if it ends. -/
def waitLoop (s : WaitableQueue α) (t : ThreadId) (timed : Bool) (ret : Int) :
    Except QueueStop (QueueResult α × WaitableQueue α) :=
  if s.queue.first = none ∧ ret ≠ ETIMEDOUT then
    .ok (.waits, { s with waiting := Function.update s.waiting t (some timed) })
  else
    let s := { s with waiting := Function.update s.waiting t none }
    if ret = ETIMEDOUT then .ok (.timedOut, s)
    else
      match s.queue.takeFirst with
      | .error fault => .error (.undefined fault)
      | .ok (msg, qlength, queue) => .ok (.returned msg qlength, { s with queue := queue })

/-- `pthread_cond_wait` leaves `ret` at 0. -/
def step (s : WaitableQueue α) : QueueEvent α → Except QueueStop (QueueResult α × WaitableQueue α)
  | .add t data msgtype =>
    if s.waiting t ≠ none then .error .outOfTurn
    else
      match s.queue.threadQueueAdd data msgtype with
      | .error fault => .error (.undefined fault)
      | .ok queue => .ok (.added, { s with queue := queue })
  | .get t timed =>
    if s.waiting t ≠ none then .error .outOfTurn else s.waitLoop t timed 0
  | .wake t ret =>
    match s.waiting t with
    | none => .error .outOfTurn
    | some timed => s.waitLoop t timed (if timed then ret else 0)

end WaitableQueue

end GroupChat
