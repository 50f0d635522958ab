import GroupChat.Queue.Fifo
import Mathlib.Data.List.Perm.Lattice

/-!
# The memory of a queue

Every block that `malloc` has returned is linked in the queue, kept in the pool or has been freed,
and it is exactly one of these (`queue_memory`): a queue neither leaks a node nor frees one twice.
It takes a node from the pool while there is one, uses no more blocks than the largest number of
messages it has ever held, and the pool keeps at most an eighth of that number and
`MSGPOOL_SIZE + 1`. So `thread_queue_cleanup` frees every block that is left, once, and of the data
only what nobody has taken out (`cleanup_frees`): a node in the pool points to no data.

What an operation does to the number of blocks is read off its result; that the pool is a list of
its own comes from `Threadqueue.Holds`.
-/

namespace GroupChat

open Posix Linked

variable {α : Type}

namespace Threadqueue

/-- The nodes in the pool are blank. -/
def Blank (queue : Threadqueue α) : Prop :=
  ∃ ps old, Chain queue.heap queue.msgpool ps old ∧ ∀ m ∈ old, m = ⟨none, 0⟩

/-- The blocks of a queue that has never held more than `peak` messages. -/
structure Kept (peak : Nat) (queue : Threadqueue α) : Prop where
  accounted : (queue.heap.length : Int) = queue.length + queue.msgpoolLength + queue.freed.length
  once : queue.freed.Nodup
  inUse_le : queue.length + queue.msgpoolLength ≤ peak
  pool_le : queue.msgpoolLength ≤ (peak : Int).tdiv 8 + MSGPOOL_SIZE + 1
  blank : queue.Blank

theorem kept_init : (threadQueueInit : Threadqueue α).Kept 0 where
  accounted := rfl
  once := List.nodup_nil
  inUse_le := le_refl _
  pool_le := by
    change (0 : Int) ≤ (0 : Int).tdiv 8 + MSGPOOL_SIZE + 1
    decide
  blank := ⟨[], [], .nil, fun _ hm => absurd hm List.not_mem_nil⟩

section Nodes

variable {queue queue' : Threadqueue α} {as ps : List Nat} {msgs : List (Threadmsg α)} {a peak : Nat}

/-- A queue that has held more messages may keep more. -/
theorem Kept.mono {peak' : Nat} (kept : queue.Kept peak) (hle : peak ≤ peak') :
    queue.Kept peak' := by
  have hinUse := kept.inUse_le
  have hpool := kept.pool_le
  have hdiv : (peak : Int).tdiv 8 ≤ (peak' : Int).tdiv 8 := by
    rw [Int.tdiv_eq_ediv_of_nonneg (by omega), Int.tdiv_eq_ediv_of_nonneg (by omega)]
    omega
  exact { kept with inUse_le := by omega, pool_le := by omega }

theorem Holds.blank (hold : queue.Holds as ps msgs) (blank : queue.Blank) :
    ∃ old, Chain queue.heap queue.msgpool ps old ∧ ∀ m ∈ old, m = ⟨none, 0⟩ := by
  obtain ⟨old, pool⟩ := hold.pool
  obtain ⟨ps', old', pool', hblank⟩ := blank
  obtain ⟨rfl, rfl⟩ := pool.unique pool'
  exact ⟨old, pool, hblank⟩

/-- Writing a node that is not in the pool leaves the pool blank. -/
theorem Holds.blank_set (hold : queue.Holds as ps msgs) (blank : queue.Blank) (hapart : a ∉ ps)
    (node : Node (Threadmsg α)) : Blank { queue with heap := queue.heap.set a node } := by
  obtain ⟨old, pool, hblank⟩ := hold.blank blank
  exact ⟨ps, old, pool.set_of_notMem hapart node, hblank⟩

theorem store_eq_ok {node : Node (Threadmsg α)} (h : queue.store a node = .ok queue') :
    queue' = { queue with heap := queue.heap.set a node } := by
  rw [store] at h
  split at h
  · cases h
  · split at h
    · cases h
    · cases h
      rfl

theorem free_eq_ok (h : queue.free a = .ok queue') :
    a ∉ queue.freed ∧ queue' = { queue with freed := a :: queue.freed } := by
  rw [free] at h
  split at h
  · cases h
  · rename_i hlive
    cases h
    exact ⟨hlive, rfl⟩

/-! ## Taking a node -/

/-- A node comes from the pool, or it is a new block and the pool is empty. -/
theorem getMsglist_run (h : queue.getMsglist = .ok (a, queue')) :
    (queue.msgpool = none ∧ queue' = { queue with heap := queue.heap ++ [⟨⟨none, 0⟩, none⟩] }) ∨
      ∃ node, queue.msgpool = some a ∧ queue.heap[a]? = some node ∧
        queue' = { queue with
          msgpool := node.next
          msgpoolLength := queue.msgpoolLength - 1 } := by
  rw [getMsglist] at h
  split at h
  · obtain ⟨⟨tmp, node⟩, hload, h⟩ := bind_eq_ok.mp h
    obtain ⟨hpool, -, hnode⟩ := load_eq_ok hload
    cases h
    exact Or.inr ⟨node, hpool, hnode, rfl⟩
  · rename_i hpool
    cases h
    exact Or.inl ⟨not_not.mp hpool, rfl⟩

/-- While there is a node in the pool, it is the one that is taken. -/
theorem getMsglist_pool (hpool : queue.msgpool ≠ none) (h : queue.getMsglist = .ok (a, queue')) :
    queue.msgpool = some a ∧ queue'.heap = queue.heap := by
  rcases getMsglist_run h with ⟨hnone, -⟩ | ⟨node, hsome, -, rfl⟩
  · exact absurd hnone hpool
  · exact ⟨hsome, rfl⟩

theorem getMsglist_blank (blank : queue.Blank) (h : queue.getMsglist = .ok (a, queue')) :
    queue'.Blank := by
  obtain ⟨ps, old, pool, hblank⟩ := blank
  rcases getMsglist_run h with ⟨hpool, rfl⟩ | ⟨node, hpool, hnode, rfl⟩
  · exact ⟨ps, old, pool.push _, hblank⟩
  · rw [hpool] at pool
    obtain ⟨node', ps', old', hnode', rfl, rfl, -, rest⟩ := pool.uncons
    cases hnode.symm.trans hnode'
    exact ⟨ps', old', rest, fun m hm => hblank m (List.mem_cons_of_mem _ hm)⟩

/-- Linking a node writes the pointers of the queue and its last node. -/
theorem linkLast_run (h : queue.linkLast a = .ok queue') :
    queue'.length = queue.length ∧ queue'.msgpoolLength = queue.msgpoolLength ∧
      queue'.freed = queue.freed ∧ queue'.heap.length = queue.heap.length ∧
      queue'.last = some a := by
  rw [linkLast] at h
  split at h
  · cases h
    exact ⟨rfl, rfl, rfl, rfl, rfl⟩
  · obtain ⟨⟨last, node⟩, -, h⟩ := bind_eq_ok.mp h
    obtain ⟨queue₁, hstore, h⟩ := bind_eq_ok.mp h
    obtain rfl := store_eq_ok hstore
    cases h
    exact ⟨rfl, rfl, rfl, List.length_set, rfl⟩

theorem linkLast_blank (hold : queue.Holds as ps msgs) (blank : queue.Blank)
    (h : queue.linkLast a = .ok queue') : queue'.Blank := by
  rw [linkLast] at h
  split at h
  · cases h
    exact blank
  · obtain ⟨⟨last, node⟩, hload, h⟩ := bind_eq_ok.mp h
    obtain ⟨queue₁, hstore, h⟩ := bind_eq_ok.mp h
    obtain ⟨hlast, -, -⟩ := load_eq_ok hload
    obtain rfl := store_eq_ok hstore
    cases h
    rw [hold.last] at hlast
    exact hold.blank_set blank (hold.apart last (List.mem_of_getLast? hlast)) _

/-- Adding a message takes a node from the pool or, when the pool is empty, a new block. -/
theorem threadQueueAdd_kept (hold : queue.Holds as ps msgs) (kept : queue.Kept peak)
    {data : Option α} {msgtype : Int} (h : queue.threadQueueAdd data msgtype = .ok queue')
    (hpeak : queue'.length ≤ peak) : queue'.Kept peak := by
  obtain ⟨newmsg, queue₁, ps₁, hget, hold₁, loose⟩ := getMsglist_holds hold
  obtain ⟨x, hget', hrest⟩ := bind_eq_ok.mp h
  obtain rfl := Except.ok.inj (hget.symm.trans hget')
  obtain ⟨queue₂, hstore, hrest⟩ := bind_eq_ok.mp hrest
  obtain ⟨queue₃, hlink, hlast⟩ := bind_eq_ok.mp hrest
  obtain ⟨hstore', hold₂⟩ := hold₁.store_loose loose ⟨⟨data, msgtype⟩, none⟩
  obtain rfl := Except.ok.inj (hstore'.symm.trans hstore)
  have blank₂ := hold₁.blank_set (getMsglist_blank kept.blank hget) loose.pool
    ⟨⟨data, msgtype⟩, none⟩
  have blank₃ := linkLast_blank hold₂ blank₂ hlink
  obtain ⟨hlength, hpoolLength, hfreed, hheap, -⟩ := linkLast_run hlink
  rw [List.length_set] at hheap
  cases hlast
  have haccounted := kept.accounted
  have hinUse := kept.inUse_le
  have hpool := kept.pool_le
  change queue₃.length + 1 ≤ peak at hpeak
  rcases getMsglist_run hget with ⟨hnone, rfl⟩ | ⟨node, hsome, hnode, rfl⟩
  · -- the pool is empty, so the blocks in use are the messages
    have hempty : queue.msgpoolLength = 0 := by
      obtain ⟨old, pool⟩ := hold.pool
      rw [hnone] at pool
      cases pool
      exact hold.poolLength
    rw [List.length_append, List.length_singleton] at hheap
    refine { accounted := ?_, once := hfreed ▸ kept.once, inUse_le := ?_, pool_le := ?_,
             blank := blank₃ }
    · simp only [hfreed, hheap, hlength, hpoolLength]
      omega
    · simp only [hpoolLength]
      omega
    · simp only [hpoolLength]
      exact hpool
  · refine { accounted := ?_, once := hfreed ▸ kept.once, inUse_le := ?_, pool_le := ?_,
             blank := blank₃ }
    · simp only [hfreed, hheap, hlength, hpoolLength]
      omega
    · simp only [hlength, hpoolLength]
      omega
    · simp only [hpoolLength]
      omega

/-- A message goes into the first node of the pool, if there is one. -/
theorem threadQueueAdd_reuses (hpool : queue.msgpool ≠ none) {data : Option α} {msgtype : Int}
    (h : queue.threadQueueAdd data msgtype = .ok queue') :
    queue'.heap.length = queue.heap.length ∧ queue'.last = queue.msgpool := by
  obtain ⟨⟨newmsg, queue₁⟩, hget, hrest⟩ := bind_eq_ok.mp h
  obtain ⟨queue₂, hstore, hrest⟩ := bind_eq_ok.mp hrest
  obtain ⟨queue₃, hlink, hlast⟩ := bind_eq_ok.mp hrest
  obtain ⟨hsome, hheap⟩ := getMsglist_pool hpool hget
  obtain rfl := store_eq_ok hstore
  obtain ⟨-, -, -, hheap', hlast'⟩ := linkLast_run hlink
  cases hlast
  rw [List.length_set, hheap] at hheap'
  exact ⟨hheap', hlast'.trans hsome.symm⟩

/-! ## Giving a node back -/

/-- The node is freed when the pool has enough nodes, or it goes to the pool. -/
theorem poolNode_run (h : queue.poolNode a = .ok queue') :
    queue'.length = queue.length ∧ queue'.heap.length = queue.heap.length ∧
      ((a ∉ queue.freed ∧ queue'.freed = a :: queue.freed ∧
          queue'.msgpoolLength = queue.msgpoolLength) ∨
        (queue'.freed = queue.freed ∧ queue'.msgpoolLength = queue.msgpoolLength + 1 ∧
          queue.msgpoolLength ≤ queue.length.tdiv 8 + MSGPOOL_SIZE)) := by
  rw [poolNode] at h
  split at h
  · obtain ⟨hlive, rfl⟩ := free_eq_ok h
    exact ⟨rfl, rfl, Or.inl ⟨hlive, rfl, rfl⟩⟩
  · rename_i hfew
    obtain ⟨queue₁, hstore, h⟩ := bind_eq_ok.mp h
    obtain rfl := store_eq_ok hstore
    cases h
    exact ⟨rfl, List.length_set, Or.inr ⟨rfl, rfl, Int.not_lt.mp hfew⟩⟩

theorem poolNode_blank (hold : queue.Holds as ps msgs) (loose : queue.Loose as ps a)
    (blank : queue.Blank) (h : queue.poolNode a = .ok queue') : queue'.Blank := by
  rw [poolNode] at h
  split at h
  · obtain ⟨-, rfl⟩ := free_eq_ok h
    exact blank
  · obtain ⟨queue₁, hstore, h⟩ := bind_eq_ok.mp h
    obtain rfl := store_eq_ok hstore
    cases h
    obtain ⟨old, pool, hblank⟩ := hold.blank blank
    have hnode := List.getElem?_set_self (a := ⟨⟨none, 0⟩, queue.msgpool⟩) loose.lt
    refine ⟨a :: ps, _, .cons hnode loose.pool (pool.set_of_notMem loose.pool _), ?_⟩
    intro m hm
    rcases List.mem_cons.mp hm with rfl | hm
    · rfl
    · exact hblank m hm

/-- A pool that is too long loses a node. -/
theorem trimPool_run (h : queue.trimPool = .ok queue') :
    queue' = queue ∨ ∃ tmp, tmp ∉ queue.freed ∧ queue'.freed = tmp :: queue.freed ∧
      queue'.msgpoolLength = queue.msgpoolLength - 1 ∧ queue'.length = queue.length ∧
      queue'.heap = queue.heap := by
  rw [trimPool] at h
  split at h
  · obtain ⟨⟨tmp, node⟩, -, h⟩ := bind_eq_ok.mp h
    obtain ⟨queue₁, hfree, h⟩ := bind_eq_ok.mp h
    obtain ⟨hlive, rfl⟩ := free_eq_ok hfree
    cases h
    exact Or.inr ⟨tmp, hlive, rfl, rfl, rfl, rfl⟩
  · cases h
    exact Or.inl rfl

theorem trimPool_blank (blank : queue.Blank) (h : queue.trimPool = .ok queue') :
    queue'.Blank := by
  rw [trimPool] at h
  split at h
  · obtain ⟨⟨tmp, node⟩, hload, h⟩ := bind_eq_ok.mp h
    obtain ⟨queue₁, hfree, h⟩ := bind_eq_ok.mp h
    obtain ⟨hpool, -, hnode⟩ := load_eq_ok hload
    obtain ⟨-, rfl⟩ := free_eq_ok hfree
    cases h
    obtain ⟨ps, old, pool, hblank⟩ := blank
    rw [hpool] at pool
    obtain ⟨node', ps', old', hnode', rfl, rfl, -, rest⟩ := pool.uncons
    cases hnode.symm.trans hnode'
    exact ⟨ps', old', rest, fun m hm => hblank m (List.mem_cons_of_mem _ hm)⟩
  · cases h
    exact blank

/-- A node that has been unlinked is still counted until it is released. -/
theorem releaseMsglist_kept (hold : queue.Holds as ps msgs) (loose : queue.Loose as ps a)
    (kept : Kept peak { queue with length := queue.length + 1 })
    (h : queue.releaseMsglist a = .ok queue') : queue'.Kept peak := by
  obtain ⟨queue₁, hpool, htrim⟩ := bind_eq_ok.mp h
  have blank' := trimPool_blank (poolNode_blank hold loose kept.blank hpool) htrim
  have haccounted : (queue.heap.length : Int) =
    queue.length + 1 + queue.msgpoolLength + queue.freed.length := kept.accounted
  have honce : queue.freed.Nodup := kept.once
  have hinUse : queue.length + 1 + queue.msgpoolLength ≤ peak := kept.inUse_le
  have hpool_le : queue.msgpoolLength ≤ (peak : Int).tdiv 8 + MSGPOOL_SIZE + 1 := kept.pool_le
  -- a node goes to a pool that is short for the messages there are
  have hshort : queue.msgpoolLength ≤ queue.length.tdiv 8 + MSGPOOL_SIZE →
      queue.msgpoolLength ≤ (peak : Int).tdiv 8 + MSGPOOL_SIZE := by
    have hlength := hold.length
    have hnonneg : 0 ≤ queue.msgpoolLength := by
      have := hold.poolLength
      omega
    rw [Int.tdiv_eq_ediv_of_nonneg (by omega), Int.tdiv_eq_ediv_of_nonneg (by omega)]
    omega
  obtain ⟨hlength, hheap, hpooled⟩ := poolNode_run hpool
  have kept₁ : queue₁.Kept peak := by
    rcases hpooled with ⟨hlive, hfreed, hpoolLength⟩ | ⟨hfreed, hpoolLength, hfew⟩
    · refine { accounted := ?_, once := ?_, inUse_le := ?_, pool_le := ?_, blank := ?_ }
      · rw [hheap, hlength, hfreed, hpoolLength, List.length_cons]
        omega
      · rw [hfreed]
        exact List.nodup_cons.mpr ⟨hlive, honce⟩
      · omega
      · omega
      · exact poolNode_blank hold loose kept.blank hpool
    · refine { accounted := ?_, once := hfreed ▸ honce, inUse_le := ?_, pool_le := ?_, blank := ?_ }
      · rw [hheap, hlength, hfreed, hpoolLength]
        omega
      · omega
      · have := hshort hfew
        omega
      · exact poolNode_blank hold loose kept.blank hpool
  rcases trimPool_run htrim with rfl | ⟨tmp, hlive, hfreed, hpoolLength, hlength', hheap'⟩
  · exact kept₁
  · have haccounted₁ := kept₁.accounted
    have hinUse₁ := kept₁.inUse_le
    have hpool₁ := kept₁.pool_le
    refine { accounted := ?_, once := ?_, inUse_le := ?_, pool_le := ?_, blank := blank' }
    · rw [hheap', hlength', hfreed, hpoolLength, List.length_cons]
      omega
    · rw [hfreed]
      exact List.nodup_cons.mpr ⟨hlive, kept₁.once⟩
    · omega
    · omega

/-- Taking a message off allocates nothing. -/
theorem takeFirst_heap {m : Threadmsg α} {qlength : Int}
    (h : queue.takeFirst = .ok (m, qlength, queue')) : queue'.heap.length = queue.heap.length := by
  obtain ⟨⟨firstrec, node⟩, -, hrest⟩ := bind_eq_ok.mp h
  obtain ⟨released, hrelease, hlast⟩ := bind_eq_ok.mp hrest
  obtain ⟨queue₁, hpool, htrim⟩ := bind_eq_ok.mp hrelease
  cases hlast
  have hunlink : (queue.unlinkFirst node.next).heap = queue.heap := by
    rw [unlinkFirst]
    split
    · rfl
    · rfl
  have hheap := (poolNode_run hpool).2.1
  rw [hunlink] at hheap
  rcases trimPool_run htrim with rfl | ⟨tmp, -, -, -, -, hheap'⟩
  · exact hheap
  · rw [hheap']
    exact hheap

/-- Taking a message off gives its node back. -/
theorem takeFirst_kept {msg m : Threadmsg α} {qlength : Int}
    (hold : queue.Holds as ps (msg :: msgs)) (kept : queue.Kept peak)
    (h : queue.takeFirst = .ok (m, qlength, queue')) : queue'.Kept peak := by
  obtain ⟨⟨firstrec, node⟩, hload, hrest⟩ := bind_eq_ok.mp h
  obtain ⟨released, hrelease, hlast⟩ := bind_eq_ok.mp hrest
  obtain ⟨hfirst, hlive, hnode⟩ := load_eq_ok hload
  cases hlast
  have chain := hold.chain
  rw [hfirst] at chain
  obtain ⟨node', as', msgs', hnode', rfl, hmsgs, hfresh, rest⟩ := chain.uncons
  cases hnode.symm.trans hnode'
  obtain ⟨rfl, rfl⟩ := List.cons.inj hmsgs
  obtain ⟨hold₁, hheap, hfreed⟩ := unlinkFirst_holds hold rest
  have loose : (queue.unlinkFirst node.next).Loose as' ps firstrec := by
    refine ⟨?_, hfreed ▸ hlive, hfresh, hold.apart firstrec List.mem_cons_self⟩
    rw [hheap]
    exact (List.getElem?_eq_some_iff.mp hnode).1
  have hpool : (queue.unlinkFirst node.next).msgpool = queue.msgpool ∧
      (queue.unlinkFirst node.next).msgpoolLength = queue.msgpoolLength := by
    rw [unlinkFirst]
    split <;> exact ⟨rfl, rfl⟩
  have hlength : (queue.unlinkFirst node.next).length + 1 = queue.length := by
    rw [hold₁.length, hold.length, List.length_cons]
    omega
  refine releaseMsglist_kept hold₁ loose {
    accounted := ?_
    once := ?_
    inUse_le := ?_
    pool_le := ?_
    blank := ?_ } hrelease
  · simp only [hheap, hlength, hpool.2, hfreed]
    exact kept.accounted
  · simp only [hfreed]
    exact kept.once
  · simp only [hlength, hpool.2]
    exact kept.inUse_le
  · simp only [hpool.2]
    exact kept.pool_le
  · obtain ⟨ps', old, pool, hblank⟩ := kept.blank
    refine ⟨ps', old, ?_, hblank⟩
    simp only [hheap, hpool.1]
    exact pool

/-! ## Cleaning up -/

/-- The loop of the cleanup frees the nodes of a list and, if it is to, what they point to. -/
theorem cleanupLoop_chain (freedata : Bool) {h : Heap (Threadmsg α)} {p : Option Nat}
    (chain : Chain h p as msgs) (hheap : queue.heap = h) (hlive : ∀ a ∈ as, a ∉ queue.freed) :
    queue.cleanupLoop freedata p =
      .ok (if freedata then msgs.filterMap Threadmsg.data else [],
        { queue with freed := as.reverse ++ queue.freed }) := by
  induction chain generalizing queue with
  | nil =>
      rw [cleanupLoop, if_pos rfl, List.filterMap_nil, ite_self]
      rfl
  | @cons a node as msgs hnode fresh rest ih =>
      have hnode' : queue.heap[a]? = some node := hheap ▸ hnode
      have hload := load_ok (hlive a List.mem_cons_self) hnode'
      have hfree := free_ok (hlive a List.mem_cons_self)
      have hrest : ∀ b ∈ as, b ∉ a :: queue.freed := by
        intro b hb hmem
        rcases List.mem_cons.mp hmem with rfl | hmem
        · exact fresh hb
        · exact hlive b (List.mem_cons_of_mem _ hb) hmem
      have hloop := @ih { queue with freed := a :: queue.freed } hheap hrest
      rw [cleanupLoop, if_neg (Option.some_ne_none a)]
      split
      · rename_i fault hfault
        cases hload.symm.trans hfault
      · rename_i a' node' hload'
        cases hload.symm.trans hload'
        split
        · rename_i fault hfault
          cases hfree.symm.trans hfault
        · rename_i queue' hfree'
          cases hfree.symm.trans hfree'
          rw [hloop]
          cases freedata with
          | false => simp
          | true => cases hdata : node.val.data <;> simp [hdata]

/-- What `thread_queue_cleanup` frees are the linked nodes, the pool and the data of the linked
nodes. -/
theorem threadQueueCleanup_holds (hold : queue.Holds as ps msgs) (blank : queue.Blank)
    (freedata : Bool) :
    queue.threadQueueCleanup freedata =
      .ok (if freedata then msgs.filterMap Threadmsg.data else [],
        { queue with freed := ps.reverse ++ (as.reverse ++ queue.freed) }) := by
  obtain ⟨old, pool, hblank⟩ := hold.blank blank
  have hfirst := cleanupLoop_chain freedata hold.chain rfl
    fun a ha => hold.live a (List.mem_append_left _ ha)
  have hpool := @cleanupLoop_chain α { queue with freed := as.reverse ++ queue.freed } ps old
    freedata _ _ pool rfl (by
      intro a ha hmem
      rcases List.mem_append.mp hmem with hmem | hmem
      · exact hold.apart a (List.mem_reverse.mp hmem) ha
      · exact hold.live a (List.mem_append_right _ ha) hmem)
  have hnothing : old.filterMap Threadmsg.data = [] := by
    rw [List.filterMap_eq_nil_iff]
    intro m hm
    rw [hblank m hm]
  rw [threadQueueCleanup, hfirst, ok_bind]
  simp only
  rw [hpool, ok_bind, hnothing, ite_self]
  simp only [List.append_nil]
  rfl

/-- The blocks are partitioned into the linked ones, the pool and the freed ones. -/
theorem Kept.perm (kept : queue.Kept peak) (hold : queue.Holds as ps msgs) :
    (as ++ ps ++ queue.freed).Perm (List.range queue.heap.length) := by
  obtain ⟨old, pool⟩ := hold.pool
  have hnodup : (as ++ ps ++ queue.freed).Nodup := by
    rw [List.nodup_append', List.nodup_append']
    exact ⟨⟨hold.chain.nodup, pool.nodup, hold.apart⟩, kept.once, hold.live⟩
  have hsubset : as ++ ps ++ queue.freed ⊆ List.range queue.heap.length := by
    intro a ha
    rw [List.mem_range]
    rcases List.mem_append.mp ha with ha | ha
    · rcases List.mem_append.mp ha with ha | ha
      · exact hold.chain.lt_length ha
      · exact pool.lt_length ha
    · exact hold.freed_lt a ha
  have hlength : (List.range queue.heap.length).length ≤ (as ++ ps ++ queue.freed).length := by
    have haccounted := kept.accounted
    have hmsgs := hold.length
    have hpool := hold.poolLength
    have has := hold.chain.length_eq
    simp only [List.length_range, List.length_append]
    omega
  exact (List.subperm_of_subset hnodup hsubset).perm_of_length_le hlength

end Nodes

end Threadqueue

/-! ## The threads -/

open Threadqueue

/-- The most messages a queue has held at once. -/
def peak (h : List (QueueTaken α)) : Nat := h.foldr (fun x n => max x.post.queue.length.toNat n) 0

theorem le_peak {h : List (QueueTaken α)} {x : QueueTaken α} (hx : x ∈ h) :
    x.post.queue.length ≤ peak h := by
  induction h with
  | nil => exact absurd hx List.not_mem_nil
  | cons y h ih =>
      have hpeak : peak (y :: h) = max y.post.queue.length.toNat (peak h) := rfl
      rcases List.mem_cons.mp hx with rfl | hx
      · omega
      · have := ih hx
        omega

theorem peak_append (h : List (QueueTaken α)) (x : QueueTaken α) :
    peak (h ++ [x]) = max (peak h) x.post.queue.length.toNat := by
  induction h with
  | nil =>
      have hpeak : peak [x] = max x.post.queue.length.toNat 0 := rfl
      have hnil : peak ([] : List (QueueTaken α)) = 0 := rfl
      rw [List.nil_append, hpeak, hnil, Nat.max_comm]
  | cons y h ih =>
      have hpeak : peak (y :: h) = max y.post.queue.length.toNat (peak h) := rfl
      have hpeak' : peak (y :: (h ++ [x])) = max y.post.queue.length.toNat (peak (h ++ [x])) := rfl
      rw [List.cons_append, hpeak', ih, hpeak, Nat.max_assoc]

/-- No step allocates a node while there is one in the pool, and a message that is added then is in
the first node of the pool. -/
structure Reuses (x : QueueTaken α) : Prop where
  heap : x.pre.queue.msgpool ≠ none → x.post.queue.heap.length = x.pre.queue.heap.length
  last : ∀ t data msgtype, x.event = .add t data msgtype → x.pre.queue.msgpool ≠ none →
    x.post.queue.last = x.pre.queue.msgpool

section Steps

variable {s s' : WaitableQueue α} {as ps : List Nat} {msgs : List (Threadmsg α)}
  {e : QueueEvent α} {out : QueueResult α} {n : Nat}

theorem waitLoop_kept (hold : s.queue.Holds as ps msgs) (kept : s.queue.Kept n) {t : ThreadId}
    {timed : Bool} {ret : Int} (h : s.waitLoop t timed ret = .ok (out, s')) :
    s'.queue.Kept n := by
  rw [WaitableQueue.waitLoop] at h
  split at h
  · cases h
    exact kept
  · rename_i hgoes
    simp only at h
    split at h
    · cases h
      exact kept
    · rename_i hret
      split at h
      · cases h
      · rename_i msg qlength queue' htake
        cases h
        cases msgs with
        | nil => exact absurd ⟨hold.chain.null_iff.mpr rfl, hret⟩ hgoes
        | cons msg msgs => exact takeFirst_kept hold kept htake

theorem step_kept (hold : s.queue.Holds as ps msgs) (kept : s.queue.Kept n)
    (h : s.step e = .ok (out, s')) (hpeak : s'.queue.length ≤ n) : s'.queue.Kept n := by
  cases e with
  | add t data msgtype =>
      rw [WaitableQueue.step] at h
      split at h
      · cases h
      · split at h
        · cases h
        · rename_i queue' hadd
          cases h
          exact threadQueueAdd_kept hold kept hadd hpeak
  | get t timed =>
      rw [WaitableQueue.step] at h
      split at h
      · cases h
      · exact waitLoop_kept hold kept h
  | wake t ret =>
      rw [WaitableQueue.step] at h
      split at h
      · cases h
      · exact waitLoop_kept hold kept h

theorem waitLoop_heap {t : ThreadId} {timed : Bool} {ret : Int}
    (h : s.waitLoop t timed ret = .ok (out, s')) :
    s'.queue.heap.length = s.queue.heap.length := by
  rw [WaitableQueue.waitLoop] at h
  split at h
  · cases h
    rfl
  · simp only at h
    split at h
    · cases h
      rfl
    · split at h
      · cases h
      · rename_i htake
        cases h
        exact takeFirst_heap htake

theorem step_reuses (h : s.step e = .ok (out, s')) : Reuses ⟨s, e, out, s'⟩ := by
  cases e with
  | add t data msgtype =>
      rw [WaitableQueue.step] at h
      split at h
      · cases h
      · split at h
        · cases h
        · rename_i queue' hadd
          cases h
          exact ⟨fun hpool => (threadQueueAdd_reuses hpool hadd).1,
            fun _ _ _ _ hpool => (threadQueueAdd_reuses hpool hadd).2⟩
  | get t timed =>
      rw [WaitableQueue.step] at h
      split at h
      · cases h
      · refine ⟨fun _ => waitLoop_heap h, fun t' data msgtype he => ?_⟩
        cases he
  | wake t ret =>
      rw [WaitableQueue.step] at h
      split at h
      · cases h
      · refine ⟨fun _ => waitLoop_heap h, fun t' data msgtype he => ?_⟩
        cases he

end Steps

theorem reuses_of_run {h : List (QueueTaken α)} {s : WaitableQueue α}
    (run : Lts.Run WaitableQueue.step WaitableQueue.start h s) : ∀ x ∈ h, Reuses x := by
  intro x hx
  obtain ⟨h₁, h₂, rfl⟩ := List.append_of_mem hx
  exact step_reuses run.before.2

theorem queueKept_of_run {h : List (QueueTaken α)} {s : WaitableQueue α}
    (run : Lts.Run WaitableQueue.step WaitableQueue.start h s) : s.queue.Kept (peak h) := by
  induction run with
  | start => exact kept_init
  | @next h s s' e out run taken ih =>
      obtain ⟨as, ps, msgs, hold, -⟩ := holds_of_run run
      have hmore : peak h ≤ peak (h ++ [⟨s, e, out, s'⟩]) := by
        rw [peak_append]
        exact Nat.le_max_left _ _
      exact step_kept hold (ih.mono hmore) taken (le_peak (x := ⟨s, e, out, s'⟩) (by simp))

/-- The blocks `as` that are linked, those of the pool `ps` and those that have been freed are
all that `malloc` has returned, each once, no more of them are in use than there have been
messages at once, and none was allocated while there was one in the pool. -/
def MemoryKept (h : List (QueueTaken α)) (s : WaitableQueue α) : Prop :=
  (∃ as ps msgs, s.queue.Holds as ps msgs ∧
    (as ++ ps ++ s.queue.freed).Perm (List.range s.queue.heap.length) ∧
    (as ++ ps).length ≤ peak h ∧ ps.length ≤ peak h / 8 + 257) ∧
  ∀ x ∈ h, Reuses x

/-- In every interleaving of the threads each node is linked, in the pool or freed, nodes of the
pool are used first, and the queue uses no more nodes than it has held messages at once. -/
theorem queue_memory (es : List (QueueEvent α)) :
    Lts.Throughout WaitableQueue.step WaitableQueue.start es MemoryKept := by
  intro h s run _
  obtain ⟨as, ps, msgs, hold, -⟩ := holds_of_run run
  have kept := queueKept_of_run run
  have hinUse := kept.inUse_le
  have hpool := kept.pool_le
  have hlength := hold.length
  have hpoolLength := hold.poolLength
  have has := hold.chain.length_eq
  refine ⟨⟨as, ps, msgs, hold, kept.perm hold, ?_, ?_⟩, reuses_of_run run⟩
  · rw [List.length_append]
    omega
  · rw [Int.tdiv_eq_ediv_of_nonneg (by omega), MSGPOOL_SIZE] at hpool
    omega

/-- `thread_queue_cleanup` frees what is left of the blocks, each once, and the data that is left
if it is to. -/
def CleansUp (freedata : Bool) (h : List (QueueTaken α)) (s : WaitableQueue α) : Prop :=
  ∃ left queue, returned h ++ left = added h ∧
    s.queue.threadQueueCleanup freedata =
      .ok (if freedata then left.filterMap Threadmsg.data else [], queue) ∧
    queue.heap = s.queue.heap ∧ queue.freed.Perm (List.range s.queue.heap.length)

/-- After any interleaving of the threads the cleanup goes well and leaves no block behind. -/
theorem cleanup_frees (freedata : Bool) (es : List (QueueEvent α)) :
    Lts.Throughout WaitableQueue.step WaitableQueue.start es (CleansUp freedata) := by
  intro h s run _
  obtain ⟨as, ps, msgs, hold, hkept⟩ := holds_of_run run
  have kept := queueKept_of_run run
  refine ⟨msgs, _, hkept, threadQueueCleanup_holds hold kept.blank freedata, rfl, ?_⟩
  have hsplit : (ps.reverse ++ (as.reverse ++ s.queue.freed)).Perm (as ++ ps ++ s.queue.freed) := by
    rw [← List.append_assoc]
    exact (((List.reverse_perm ps).append (List.reverse_perm as)).trans List.perm_append_comm).append
      (List.Perm.refl _)
  exact hsplit.trans (kept.perm hold)

end GroupChat
