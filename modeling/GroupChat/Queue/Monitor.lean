import GroupChat.Lts.Simulation
import GroupChat.Queue.Fifo

/-!
# The lock and the condition variable

The functions of `queue.c` with their mutex and their condition variable. A thread that calls one of
them waits for the mutex, runs its critical section and unlocks, and the other threads go on in
between. `pthread_cond_wait` gives the mutex up and sleeps in one step; whoever sleeps is woken by a
broadcast, by its timeout or spuriously, and then needs the mutex again. `thread_queue_add`
broadcasts only when the queue was empty.

Nobody sleeps while there is a message (`MonitorKept.awake`), so the broadcasts are enough. Seen at
the ends of the critical sections the system is that of `WaitableQueue`, whose sections are atomic
(`monitor_refines`). A thread that is the only one to take messages never sleeps after it has seen
that the queue is not empty (`sole_consumer`), which is how the main thread of the client uses its
queue of invitations.
-/

namespace GroupChat

open Posix Linked

variable {α : Type}

inductive QueueCall (α : Type)
  | add (data : Option α) (msgtype : Int)
  | get (timed : Bool)
  | length

/-- Where a thread is. -/
inductive QueueThread (α : Type)
  | outside
  /-- in `pthread_mutex_lock` -/
  | locking (call : QueueCall α)
  /-- it has the mutex, in `thread_queue_add` -/
  | adding (data : Option α) (msgtype : Int)
  /-- it has the mutex, at the test of the wait loop; `ret` is what the last wait has returned -/
  | testing (timed : Bool) (ret : Option Int)
  /-- it has the mutex, in `thread_queue_length` -/
  | counting
  /-- it has the mutex and its section is over -/
  | unlocking
  /-- on the condition variable -/
  | sleeping (timed : Bool)
  /-- its wait is over and it needs the mutex -/
  | woken (timed : Bool) (ret : Int)

/-- A queue with its mutex, which has an owner or is free, and the threads that use it. -/
structure LockedQueue (α : Type) where
  queue : Threadqueue α
  owner : Option ThreadId
  threads : ThreadId → QueueThread α

inductive LockedEvent (α : Type)
  | call (t : ThreadId) (c : QueueCall α)
  /-- the thread gets the mutex -/
  | lock (t : ThreadId)
  /-- the thread runs its critical section, up to the next wait -/
  | run (t : ThreadId)
  | unlock (t : ThreadId)
  /-- the wait of the thread returns without a broadcast, a timed one with the result `ret` -/
  | wake (t : ThreadId) (ret : Int)

/-- What a step shows. -/
inductive LockedOut (α : Type)
  | silent
  /-- a critical section of `thread_queue_add` or `thread_queue_get` -/
  | did (r : QueueResult α)
  /-- `thread_queue_length` -/
  | counted (length : Int)

namespace QueueThread

/-- The thread has the mutex. -/
def holding : QueueThread α → Bool
  | .adding .. | .testing .. | .counting | .unlocking => true
  | .outside | .locking _ | .sleeping _ | .woken .. => false

/-- `pthread_cond_broadcast`, for a thread. -/
def broadcast : QueueThread α → QueueThread α
  | .sleeping timed => .woken timed 0
  | thread => thread

/-- The wait of the thread that is not over or has not been looked at. -/
def wait : QueueThread α → Option Bool
  | .sleeping timed | .woken timed _ | .testing timed (some _) => some timed
  | _ => none

end QueueThread

/-- Where a thread is when it has got the mutex for a call. -/
def QueueCall.entry : QueueCall α → QueueThread α
  | .add data msgtype => .adding data msgtype
  | .get timed => .testing timed none
  | .length => .counting

/-- `ret` in the wait loop: only `pthread_cond_timedwait` sets it. -/
def waitResult (timed : Bool) (ret : Option Int) : Int :=
  if timed then ret.getD 0 else 0

namespace LockedQueue

def start : LockedQueue α := ⟨threadQueueInit, none, fun _ => .outside⟩

/-- The thread goes on to another point of the code. -/
def goes (s : LockedQueue α) (t : ThreadId) (thread : QueueThread α) : LockedQueue α :=
  { s with threads := Function.update s.threads t thread }

/-- A critical section. -/
def run (s : LockedQueue α) (t : ThreadId) : Except QueueStop (LockedOut α × LockedQueue α) :=
  match s.threads t with
  | .adding data msgtype =>
    match s.queue.threadQueueAdd data msgtype with
    | .error fault => .error (.undefined fault)
    | .ok queue =>
      let threads := fun u =>
        if s.queue.length = 0 then (s.threads u).broadcast else s.threads u
      .ok (.did .added, goes { s with queue := queue, threads := threads } t .unlocking)
  | .testing timed ret =>
    if s.queue.first = none ∧ waitResult timed ret ≠ ETIMEDOUT then
      .ok (.did .waits, goes { s with owner := none } t (.sleeping timed))
    else if waitResult timed ret = ETIMEDOUT then
      .ok (.did .timedOut, s.goes t .unlocking)
    else
      match s.queue.takeFirst with
      | .error fault => .error (.undefined fault)
      | .ok (msg, qlength, queue) =>
        .ok (.did (.returned msg qlength), goes { s with queue := queue } t .unlocking)
  | .counting => .ok (.counted s.queue.threadQueueLength, s.goes t .unlocking)
  | _ => .error .outOfTurn

def step (s : LockedQueue α) : LockedEvent α → Except QueueStop (LockedOut α × LockedQueue α)
  | .call t c =>
    match s.threads t with
    | .outside => .ok (.silent, s.goes t (.locking c))
    | _ => .error .outOfTurn
  | .lock t =>
    if s.owner ≠ none then .error .outOfTurn
    else
      match s.threads t with
      | .locking c => .ok (.silent, goes { s with owner := some t } t c.entry)
      | .woken timed ret => .ok (.silent, goes { s with owner := some t } t (.testing timed (some ret)))
      | _ => .error .outOfTurn
  | .run t => s.run t
  | .unlock t =>
    match s.threads t with
    | .unlocking => .ok (.silent, goes { s with owner := none } t .outside)
    | _ => .error .outOfTurn
  | .wake t ret =>
    match s.threads t with
    | .sleeping timed => .ok (.silent, s.goes t (.woken timed ret))
    | _ => .error .outOfTurn

/-! ## What a step can do -/

inductive Moved (s : LockedQueue α) : LockedEvent α → LockedOut α → LockedQueue α → Prop
  | called (t : ThreadId) (c : QueueCall α) (outside : s.threads t = .outside) :
      Moved s (.call t c) .silent (s.goes t (.locking c))
  | locked (t : ThreadId) (c : QueueCall α) (free : s.owner = none)
      (locking : s.threads t = .locking c) :
      Moved s (.lock t) .silent (goes { s with owner := some t } t c.entry)
  | relocked (t : ThreadId) (timed : Bool) (ret : Int) (free : s.owner = none)
      (woken : s.threads t = .woken timed ret) :
      Moved s (.lock t) .silent (goes { s with owner := some t } t (.testing timed (some ret)))
  | added (t : ThreadId) (data : Option α) (msgtype : Int) (queue : Threadqueue α)
      (adding : s.threads t = .adding data msgtype)
      (add : s.queue.threadQueueAdd data msgtype = .ok queue) :
      Moved s (.run t) (.did .added) (goes { s with
        queue := queue
        threads := fun u => if s.queue.length = 0 then (s.threads u).broadcast else s.threads u }
          t .unlocking)
  | waits (t : ThreadId) (timed : Bool) (ret : Option Int)
      (testing : s.threads t = .testing timed ret) (empty : s.queue.first = none)
      (goesOn : waitResult timed ret ≠ ETIMEDOUT) :
      Moved s (.run t) (.did .waits) (goes { s with owner := none } t (.sleeping timed))
  | timedOut (t : ThreadId) (timed : Bool) (ret : Option Int)
      (testing : s.threads t = .testing timed ret) (expired : waitResult timed ret = ETIMEDOUT) :
      Moved s (.run t) (.did .timedOut) (s.goes t .unlocking)
  | took (t : ThreadId) (timed : Bool) (ret : Option Int) (msg : Threadmsg α) (qlength : Int)
      (queue : Threadqueue α) (testing : s.threads t = .testing timed ret)
      (goesOn : waitResult timed ret ≠ ETIMEDOUT) (nonempty : s.queue.first ≠ none)
      (take : s.queue.takeFirst = .ok (msg, qlength, queue)) :
      Moved s (.run t) (.did (.returned msg qlength)) (goes { s with queue := queue } t .unlocking)
  | counted (t : ThreadId) (counting : s.threads t = .counting) :
      Moved s (.run t) (.counted s.queue.length) (s.goes t .unlocking)
  | unlocked (t : ThreadId) (unlocking : s.threads t = .unlocking) :
      Moved s (.unlock t) .silent (goes { s with owner := none } t .outside)
  | woke (t : ThreadId) (timed : Bool) (ret : Int) (sleeping : s.threads t = .sleeping timed) :
      Moved s (.wake t ret) .silent (s.goes t (.woken timed ret))

variable {s s' : LockedQueue α} {e : LockedEvent α} {out : LockedOut α} {t : ThreadId}

theorem run_moved (h : s.run t = .ok (out, s')) : s.Moved (.run t) out s' := by
  rw [run] at h
  split at h
  · rename_i data msgtype hadding
    split at h
    · cases h
    · rename_i queue hadd
      cases h
      exact .added t data msgtype queue hadding hadd
  · rename_i timed ret htesting
    split at h
    · rename_i hwaits
      cases h
      exact .waits t timed ret htesting hwaits.1 hwaits.2
    · rename_i hends
      split at h
      · rename_i hover
        cases h
        exact .timedOut t timed ret htesting hover
      · rename_i hgoesOn
        split at h
        · cases h
        · rename_i msg qlength queue htake
          cases h
          exact .took t timed ret msg qlength queue htesting hgoesOn
            (fun hfirst => hends ⟨hfirst, hgoesOn⟩) htake
  · rename_i hcounting
    cases h
    exact .counted t hcounting
  · cases h

theorem step_moved (h : s.step e = .ok (out, s')) : s.Moved e out s' := by
  cases e with
  | call t c =>
      rw [step] at h
      split at h
      · rename_i houtside
        cases h
        exact .called t c houtside
      · cases h
  | lock t =>
      rw [step] at h
      split at h
      · cases h
      · rename_i hfree
        rw [not_not] at hfree
        split at h
        · rename_i c hlocking
          cases h
          exact .locked t c hfree hlocking
        · rename_i timed ret hwoken
          cases h
          exact .relocked t timed ret hfree hwoken
        · cases h
  | run t => exact run_moved h
  | unlock t =>
      rw [step] at h
      split at h
      · rename_i hunlocking
        cases h
        exact .unlocked t hunlocking
      · cases h
  | wake t ret =>
      rw [step] at h
      split at h
      · rename_i timed hsleeping
        cases h
        exact .woke t timed ret hsleeping
      · cases h

/-! ## Nobody sleeps on a message -/

/-- The owner of the mutex is the thread in a critical section, and whoever sleeps sleeps on an
empty queue. -/
structure Sound (s : LockedQueue α) : Prop where
  holds : ∃ as ps msgs, s.queue.Holds as ps msgs
  owner : ∀ t, s.owner = some t ↔ (s.threads t).holding = true
  awake : ∀ t timed, s.threads t = .sleeping timed → s.queue.first = none

theorem sound_start : (start : LockedQueue α).Sound := by
  refine ⟨⟨[], [], [], Threadqueue.holds_init⟩, ?_, ?_⟩
  · intro t
    exact iff_of_false (Option.some_ne_none t).symm Bool.false_ne_true
  · intro t timed hsleeping
    cases hsleeping

@[simp] theorem threads_goes_self (s : LockedQueue α) (t : ThreadId) (thread : QueueThread α) :
    (s.goes t thread).threads t = thread := Function.update_self ..

theorem threads_goes_ne (s : LockedQueue α) {t u : ThreadId} (h : u ≠ t) (thread : QueueThread α) :
    (s.goes t thread).threads u = s.threads u := Function.update_of_ne h ..

@[simp] theorem holding_entry (c : QueueCall α) : c.entry.holding = true := by
  cases c <;> rfl

@[simp] theorem holding_broadcast (thread : QueueThread α) :
    thread.broadcast.holding = thread.holding := by
  cases thread <;> rfl

theorem not_sleeping_of_holding {thread : QueueThread α} (h : thread.holding = true)
    (timed : Bool) : thread ≠ .sleeping timed := by
  rintro rfl
  cases h

/-- A step of a thread that keeps or does not have the mutex. -/
theorem Sound.goes (sound : s.Sound) {thread : QueueThread α}
    (hsame : thread.holding = (s.threads t).holding) (hawake : ∀ timed, thread ≠ .sleeping timed) :
    (s.goes t thread).Sound := by
  refine ⟨sound.holds, ?_, ?_⟩
  · intro u
    by_cases hu : u = t
    · rw [hu, threads_goes_self, hsame]
      exact sound.owner t
    · rw [threads_goes_ne s hu]
      exact sound.owner u
  · intro u timed hsleeping
    by_cases hu : u = t
    · rw [hu, threads_goes_self] at hsleeping
      exact absurd hsleeping (hawake timed)
    · rw [threads_goes_ne s hu] at hsleeping
      exact sound.awake u timed hsleeping

/-- A thread gets the mutex. -/
theorem Sound.enters (sound : s.Sound) (hfree : s.owner = none) {thread : QueueThread α}
    (hholding : thread.holding = true) : (LockedQueue.goes { s with owner := some t } t thread).Sound := by
  refine ⟨sound.holds, ?_, ?_⟩
  · intro u
    by_cases hu : u = t
    · rw [hu, threads_goes_self]
      exact iff_of_true rfl hholding
    · have hnot := mt (sound.owner u).mpr (by rw [hfree]; exact (Option.some_ne_none u).symm)
      rw [threads_goes_ne _ hu]
      exact iff_of_false (fun h => hu (Option.some.inj h).symm) hnot
  · intro u timed hsleeping
    by_cases hu : u = t
    · rw [hu, threads_goes_self] at hsleeping
      exact absurd hsleeping (not_sleeping_of_holding hholding timed)
    · rw [threads_goes_ne _ hu] at hsleeping
      exact sound.awake u timed hsleeping

/-- A thread gives the mutex up. If it sleeps then the queue is empty. -/
theorem Sound.leaves (sound : s.Sound) (hholds : (s.threads t).holding = true)
    {thread : QueueThread α} (hnot : thread.holding = false)
    (hempty : ∀ timed, thread = .sleeping timed → s.queue.first = none) :
    (LockedQueue.goes { s with owner := none } t thread).Sound := by
  refine ⟨sound.holds, ?_, ?_⟩
  · intro u
    have hfree : (none : Option ThreadId) ≠ some u := (Option.some_ne_none u).symm
    by_cases hu : u = t
    · rw [hu, threads_goes_self, hnot]
      exact iff_of_false (Option.some_ne_none t).symm Bool.false_ne_true
    · rw [threads_goes_ne _ hu]
      refine iff_of_false hfree fun h => hu ?_
      have howner := (sound.owner u).mpr h
      rw [(sound.owner t).mpr hholds] at howner
      exact (Option.some.inj howner).symm
  · intro u timed hsleeping
    by_cases hu : u = t
    · rw [hu, threads_goes_self] at hsleeping
      exact hempty timed hsleeping
    · rw [threads_goes_ne _ hu] at hsleeping
      exact sound.awake u timed hsleeping

/-- The queue is empty exactly when its length is 0. -/
theorem first_eq_none_iff {queue : Threadqueue α} {as ps : List Nat} {msgs : List (Threadmsg α)}
    (hold : queue.Holds as ps msgs) : queue.first = none ↔ queue.length = 0 := by
  rw [hold.chain.null_iff, hold.length]
  constructor
  · rintro rfl
    rfl
  · intro h
    exact List.length_eq_zero_iff.mp (by omega)

/-- When the queue has become nonempty, the broadcast has woken everybody. -/
theorem Sound.added (sound : s.Sound) {data : Option α} {msgtype : Int} {queue : Threadqueue α}
    (hadding : s.threads t = .adding data msgtype)
    (hadd : s.queue.threadQueueAdd data msgtype = .ok queue) :
    (LockedQueue.goes { s with
      queue := queue
      threads := fun u => if s.queue.length = 0 then (s.threads u).broadcast else s.threads u }
        t .unlocking).Sound := by
  obtain ⟨as, ps, msgs, hold⟩ := sound.holds
  obtain ⟨queue', as', ps', hadd', hold'⟩ := Threadqueue.threadQueueAdd_holds hold data msgtype
  obtain rfl := Except.ok.inj (hadd'.symm.trans hadd)
  have hbroadcast : ∀ u, (if s.queue.length = 0 then (s.threads u).broadcast
      else s.threads u).holding = (s.threads u).holding := by
    intro u
    split
    · exact holding_broadcast _
    · rfl
  refine ⟨⟨as', ps', _, hold'⟩, ?_, ?_⟩
  · intro u
    by_cases hu : u = t
    · rw [hu, threads_goes_self]
      exact iff_of_true ((sound.owner t).mpr (by rw [hadding]; rfl)) rfl
    · rw [threads_goes_ne _ hu, hbroadcast]
      exact sound.owner u
  · intro u timed hsleeping
    by_cases hu : u = t
    · rw [hu, threads_goes_self] at hsleeping
      cases hsleeping
    · rw [threads_goes_ne _ hu] at hsleeping
      dsimp only at hsleeping
      split at hsleeping
      · -- the broadcast leaves nobody asleep
        cases hthread : s.threads u <;> rw [hthread] at hsleeping <;> cases hsleeping
      · -- without a broadcast there was a message already
        rename_i hlength
        exact absurd ((first_eq_none_iff hold).mp (sound.awake u timed hsleeping)) hlength

theorem Sound.took (sound : s.Sound) {timed : Bool} {ret : Option Int} {msg : Threadmsg α}
    {qlength : Int} {queue : Threadqueue α} (htesting : s.threads t = .testing timed ret)
    (hnonempty : s.queue.first ≠ none) (htake : s.queue.takeFirst = .ok (msg, qlength, queue)) :
    (LockedQueue.goes { s with queue := queue } t .unlocking).Sound := by
  obtain ⟨as, ps, msgs, hold⟩ := sound.holds
  cases msgs with
  | nil => exact absurd (hold.chain.null_iff.mpr rfl) hnonempty
  | cons m msgs =>
      obtain ⟨queue', as', ps', htake', hold'⟩ := Threadqueue.takeFirst_holds hold
      cases htake'.symm.trans htake
      refine ⟨⟨as', ps', msgs, hold'⟩, ?_, ?_⟩
      · intro u
        by_cases hu : u = t
        · rw [hu, threads_goes_self]
          exact iff_of_true ((sound.owner t).mpr (by rw [htesting]; rfl)) rfl
        · rw [threads_goes_ne _ hu]
          exact sound.owner u
      · intro u timed hsleeping
        by_cases hu : u = t
        · rw [hu, threads_goes_self] at hsleeping
          cases hsleeping
        · rw [threads_goes_ne _ hu] at hsleeping
          exact absurd (sound.awake u timed hsleeping) hnonempty

theorem Moved.sound (moved : s.Moved e out s') (sound : s.Sound) : s'.Sound := by
  cases moved with
  | called t c outside =>
      exact sound.goes (by rw [outside]; rfl) fun timed h => (nomatch h)
  | locked t c free locking => exact sound.enters free (holding_entry c)
  | relocked t timed ret free woken => exact sound.enters free rfl
  | added t data msgtype queue adding add => exact sound.added adding add
  | waits t timed ret testing empty goesOn =>
      exact sound.leaves (by rw [testing]; rfl) rfl fun _ _ => empty
  | timedOut t timed ret testing expired =>
      exact sound.goes (by rw [testing]; rfl) fun timed h => (nomatch h)
  | took t timed ret msg qlength queue testing goesOn nonempty take =>
      exact sound.took testing nonempty take
  | counted t counting =>
      exact sound.goes (by rw [counting]; rfl) fun timed h => (nomatch h)
  | unlocked t unlocking =>
      exact sound.leaves (by rw [unlocking]; rfl) rfl fun timed h => (nomatch h)
  | woke t timed ret sleeping =>
      exact sound.goes (by rw [sleeping]; rfl) fun timed h => (nomatch h)

/-! ## Progress -/

/-- A thread that has the mutex goes on. -/
theorem Sound.run_ok (sound : s.Sound) (hholding : (s.threads t).holding = true) :
    (∃ out s', s.step (.run t) = .ok (out, s')) ∨ ∃ s', s.step (.unlock t) = .ok (.silent, s') := by
  obtain ⟨as, ps, msgs, hold⟩ := sound.holds
  cases hthread : s.threads t with
  | outside | locking | sleeping | woken =>
      rw [hthread] at hholding
      cases hholding
  | adding data msgtype =>
      obtain ⟨queue, as', ps', hadd, -⟩ := Threadqueue.threadQueueAdd_holds hold data msgtype
      rw [step, run, hthread]
      dsimp only
      rw [hadd]
      exact Or.inl ⟨_, _, rfl⟩
  | testing timed ret =>
      rw [step, run, hthread]
      dsimp only
      by_cases hwaits : s.queue.first = none ∧ waitResult timed ret ≠ ETIMEDOUT
      · exact Or.inl ⟨_, _, if_pos hwaits⟩
      · rw [if_neg hwaits]
        by_cases hover : waitResult timed ret = ETIMEDOUT
        · exact Or.inl ⟨_, _, if_pos hover⟩
        · rw [if_neg hover]
          cases msgs with
          | nil => exact absurd ⟨hold.chain.null_iff.mpr rfl, hover⟩ hwaits
          | cons msg msgs =>
              obtain ⟨queue, as', ps', htake, -⟩ := Threadqueue.takeFirst_holds hold
              rw [htake]
              exact Or.inl ⟨_, _, rfl⟩
  | counting =>
      rw [step, run, hthread]
      exact Or.inl ⟨_, _, rfl⟩
  | unlocking =>
      refine Or.inr ⟨LockedQueue.goes { s with owner := none } t .outside, ?_⟩
      rw [step, hthread]

/-- Some thread that is in a call can go on, without a call or a wake-up of its own. -/
def Proceeds (s : LockedQueue α) : Prop :=
  ∃ t out s', s.step (.lock t) = .ok (out, s') ∨ s.step (.run t) = .ok (out, s') ∨
    s.step (.unlock t) = .ok (out, s')

/-- The threads go on unless all that are in a call sleep on an empty queue. -/
theorem Sound.proceeds (sound : s.Sound) :
    s.Proceeds ∨ ∀ t, s.threads t = .outside ∨
      ((∃ timed, s.threads t = .sleeping timed) ∧ s.queue.first = none) := by
  cases howner : s.owner with
  | some t =>
      left
      obtain ⟨out, s', hrun⟩ | ⟨s', hunlock⟩ := sound.run_ok ((sound.owner t).mp howner)
      · exact ⟨t, out, s', Or.inr (Or.inl hrun)⟩
      · exact ⟨t, .silent, s', Or.inr (Or.inr hunlock)⟩
  | none =>
      rw [or_iff_not_imp_left]
      intro hstuck t
      have hnot : (s.threads t).holding ≠ true := by
        rw [Ne, ← sound.owner t, howner]
        exact (Option.some_ne_none t).symm
      have hfree : ¬ s.owner ≠ none := not_not.mpr howner
      cases hthread : s.threads t with
      | outside => exact Or.inl rfl
      | sleeping timed => exact Or.inr ⟨⟨timed, rfl⟩, sound.awake t timed hthread⟩
      | locking c =>
          refine absurd ⟨t, .silent, LockedQueue.goes { s with owner := some t } t c.entry,
            Or.inl ?_⟩ hstuck
          rw [step, if_neg hfree, hthread]
      | woken timed ret =>
          refine absurd ⟨t, .silent,
            LockedQueue.goes { s with owner := some t } t (.testing timed (some ret)),
            Or.inl ?_⟩ hstuck
          rw [step, if_neg hfree, hthread]
      | adding | testing | counting | unlocking =>
          rw [hthread] at hnot
          exact absurd rfl hnot

/-! ## Atomic sections -/

/-- The system as its atomic sections see it. -/
def sections (s : LockedQueue α) : WaitableQueue α := ⟨s.queue, fun t => (s.threads t).wait⟩

/-- The event of the atomic section that a thread runs. -/
def sectionEvent (t : ThreadId) : QueueThread α → QueueEvent α
  | .adding data msgtype => .add t data msgtype
  | .testing _ (some ret) => .wake t ret
  | .testing timed none => .get t timed
  | _ => .get t false

/-- The section that a step is. -/
def sectionOf (x : Lts.Taken (LockedQueue α) (LockedEvent α) (LockedOut α)) :
    Option (QueueTaken α) :=
  match x.event, x.out with
  | .run t, .did r => some ⟨x.pre.sections, sectionEvent t (x.pre.threads t), r, x.post.sections⟩
  | _, _ => none

@[simp] theorem wait_broadcast (thread : QueueThread α) : thread.broadcast.wait = thread.wait := by
  cases thread <;> rfl

/-- After a step of a thread the others wait as they did. -/
theorem sections_after {threads : ThreadId → QueueThread α}
    (hsame : ∀ u, (threads u).wait = (s.threads u).wait) (queue : Threadqueue α)
    (owner : Option ThreadId) (t : ThreadId) (thread : QueueThread α) :
    (goes ⟨queue, owner, threads⟩ t thread).sections =
      ⟨queue, Function.update s.sections.waiting t thread.wait⟩ := by
  have hwaiting : (fun u => ((goes ⟨queue, owner, threads⟩ t thread).threads u).wait) =
      Function.update s.sections.waiting t thread.wait := by
    funext u
    by_cases hu : u = t
    · rw [hu, Function.update_self, threads_goes_self]
    · rw [Function.update_of_ne hu, threads_goes_ne _ hu]
      exact hsame u
  rw [sections, hwaiting]
  rfl

/-- A thread that goes on without a section waits as it did. -/
theorem sections_goes {thread : QueueThread α} (hsame : thread.wait = (s.threads t).wait)
    (owner : Option ThreadId) : (goes { s with owner := owner } t thread).sections = s.sections := by
  have hwaiting : s.sections.waiting t = thread.wait := hsame.symm
  rw [sections_after (fun _ => rfl), ← hwaiting, Function.update_eq_self]
  rfl

theorem section_testing {timed : Bool} {ret : Option Int}
    (htesting : s.threads t = .testing timed ret) :
    s.sections.step (sectionEvent t (s.threads t)) =
      s.sections.waitLoop t timed (waitResult timed ret) := by
  have hwaiting : s.sections.waiting t = (s.threads t).wait := rfl
  rw [htesting] at hwaiting ⊢
  cases ret with
  | none =>
      rw [sectionEvent, WaitableQueue.step, hwaiting]
      have hret : waitResult timed none = 0 := by cases timed <;> rfl
      rw [hret]
      exact if_neg (not_not.mpr rfl)
  | some ret =>
      rw [sectionEvent, WaitableQueue.step, hwaiting]
      rfl

theorem Moved.matched (moved : s.Moved e out s') :
    Lts.Matched WaitableQueue.step sections ⟨s, e, out, s'⟩ (sectionOf ⟨s, e, out, s'⟩) := by
  cases moved with
  | called t c outside => exact sections_goes (by rw [outside]; rfl) s.owner
  | locked t c free locking =>
      refine sections_goes ?_ (some t)
      rw [locking]
      cases c <;> rfl
  | relocked t timed ret free woken => exact sections_goes (by rw [woken]; rfl) (some t)
  | added t data msgtype queue adding add =>
      refine ⟨rfl, rfl, ?_⟩
      have hwaiting : s.sections.waiting t = none := by
        change (s.threads t).wait = none
        rw [adding]
        rfl
      have hbroadcast : ∀ u, (if s.queue.length = 0 then (s.threads u).broadcast
          else s.threads u).wait = (s.threads u).wait := by
        intro u
        split
        · exact wait_broadcast _
        · rfl
      have hadd : s.sections.queue.threadQueueAdd data msgtype = .ok queue := add
      have hafter : s.sections.step (.add t data msgtype) =
          .ok (.added, ⟨queue, Function.update s.sections.waiting t none⟩) := by
        rw [WaitableQueue.step, if_neg (not_not.mpr hwaiting), hadd, ← hwaiting,
          Function.update_eq_self]
      change s.sections.step (sectionEvent t (s.threads t)) = .ok (.added, sections (goes _ t _))
      rw [adding, sections_after hbroadcast]
      exact hafter
  | waits t timed ret testing empty goesOn =>
      refine ⟨rfl, rfl, ?_⟩
      change s.sections.step (sectionEvent t (s.threads t)) = .ok (.waits, sections (goes _ t _))
      rw [section_testing testing, WaitableQueue.waitLoop, if_pos ⟨empty, goesOn⟩,
        sections_after (fun _ => rfl)]
      rfl
  | timedOut t timed ret testing expired =>
      refine ⟨rfl, rfl, ?_⟩
      change s.sections.step (sectionEvent t (s.threads t)) = .ok (.timedOut, sections (goes s t _))
      have hafter := @sections_after _ s s.threads (fun _ => rfl) s.queue s.owner t .unlocking
      rw [section_testing testing, WaitableQueue.waitLoop, if_neg fun h => h.2 expired]
      dsimp only
      rw [if_pos expired]
      exact congrArg (fun w => Except.ok (QueueResult.timedOut, w)) hafter.symm
  | took t timed ret msg qlength queue testing goesOn nonempty take =>
      refine ⟨rfl, rfl, ?_⟩
      change s.sections.step (sectionEvent t (s.threads t)) =
        .ok (.returned msg qlength, sections (goes _ t _))
      have htake : s.sections.queue.takeFirst = .ok (msg, qlength, queue) := take
      rw [section_testing testing, WaitableQueue.waitLoop, if_neg fun h => nonempty h.1,
        sections_after (fun _ => rfl)]
      dsimp only
      rw [if_neg goesOn, htake]
      rfl
  | counted t counting => exact sections_goes (by rw [counting]; rfl) s.owner
  | unlocked t unlocking => exact sections_goes (by rw [unlocking]; rfl) none
  | woke t timed ret sleeping => exact sections_goes (by rw [sleeping]; rfl) s.owner

theorem step_not_undefined (sound : s.Sound) (e : LockedEvent α) (fault : Fault) :
    s.step e ≠ .error (.undefined fault) := by
  intro hfault
  cases e with
  | call t c | unlock t | wake t ret =>
      rw [step] at hfault
      split at hfault <;> cases hfault
  | lock t =>
      rw [step] at hfault
      split at hfault
      · cases hfault
      · split at hfault <;> cases hfault
  | run t =>
      by_cases hholding : (s.threads t).holding = true
      · obtain ⟨out, s', hrun⟩ | ⟨s', hunlock⟩ := sound.run_ok hholding
        · rw [hrun] at hfault
          cases hfault
        · cases step_moved hunlock with
          | unlocked _ unlocking =>
              rw [step, run, unlocking] at hfault
              cases hfault
      · rw [step, run] at hfault
        cases hthread : s.threads t with
        | outside | locking | sleeping | woken =>
            rw [hthread] at hfault
            cases hfault
        | adding | testing | counting | unlocking =>
            rw [hthread] at hholding
            exact hholding rfl

end LockedQueue

/-! ## Runs -/

abbrev LockedTaken (α : Type) := Lts.Taken (LockedQueue α) (LockedEvent α) (LockedOut α)

theorem sound_of_locked_run {h : List (LockedTaken α)} {s : LockedQueue α}
    (run : Lts.Run LockedQueue.step LockedQueue.start h s) : s.Sound :=
  Lts.Run.invariant LockedQueue.sound_start
    (fun _ _ _ _ _ _ sound taken => (LockedQueue.step_moved taken).sound sound) run

/-- One thread at a time has the mutex, nobody sleeps while there is a message, and the threads go
on unless everybody who is in a call sleeps. No step goes wrong. -/
structure MonitorKept (_ : List (LockedTaken α)) (s : LockedQueue α) : Prop where
  exclusive : ∀ t u, (s.threads t).holding = true → (s.threads u).holding = true → t = u
  awake : ∀ t timed, s.threads t = .sleeping timed → s.queue.first = none
  proceeds : s.Proceeds ∨ ∀ t, s.threads t = .outside ∨
    ((∃ timed, s.threads t = .sleeping timed) ∧ s.queue.first = none)
  safe : ∀ e fault, s.step e ≠ .error (.undefined fault)

/-- In every interleaving of the threads no wake-up is lost. -/
theorem no_lost_wakeup (es : List (LockedEvent α)) :
    Lts.Throughout LockedQueue.step LockedQueue.start es MonitorKept := by
  intro h s run _
  have sound := sound_of_locked_run run
  refine ⟨?_, sound.awake, sound.proceeds, LockedQueue.step_not_undefined sound⟩
  intro t u ht hu
  have howner := (sound.owner t).mpr ht
  rw [(sound.owner u).mpr hu] at howner
  exact (Option.some.inj howner).symm

theorem sections_of_run {h : List (LockedTaken α)} {s : LockedQueue α}
    (run : Lts.Run LockedQueue.step LockedQueue.start h s) :
    Lts.Run WaitableQueue.step WaitableQueue.start (h.filterMap LockedQueue.sectionOf) s.sections :=
  run.project fun _ _ _ _ _ _ taken => (LockedQueue.step_moved taken).matched

/-- What the threads have done so far is a run of atomic sections, and what they have got is what
they have added, in order, but for what is linked. -/
def RefinesSections (h : List (LockedTaken α)) (s : LockedQueue α) : Prop :=
  Lts.Run WaitableQueue.step WaitableQueue.start (h.filterMap LockedQueue.sectionOf) s.sections ∧
    ∃ as ps msgs, s.queue.Holds as ps msgs ∧
      returned (h.filterMap LockedQueue.sectionOf) ++ msgs = added (h.filterMap LockedQueue.sectionOf)

/-- With the mutex and the condition variable the critical sections are atomic. -/
theorem monitor_refines (es : List (LockedEvent α)) :
    Lts.Throughout LockedQueue.step LockedQueue.start es RefinesSections := by
  intro h s run _
  have sections := sections_of_run run
  exact ⟨sections, holds_of_run sections⟩

/-! ## A single consumer -/

/-- No other thread calls `thread_queue_get`. -/
def OnlyConsumer (t : ThreadId) (es : List (LockedEvent α)) : Prop :=
  ∀ u timed, .call u (.get timed) ∈ es → u = t

/-- What the thread knows of the length: the result of its last `thread_queue_length`, until it
takes a message. -/
def seenStep (t : ThreadId) (n : Int) (x : LockedTaken α) : Int :=
  match x.event, x.out with
  | .run u, .counted length => if u = t then length else n
  | .run u, .did (.returned _ _) => if u = t then 0 else n
  | _, _ => n

def seen (t : ThreadId) (h : List (LockedTaken α)) : Int := h.foldl (seenStep t) 0

/-- The thread is in a call of `thread_queue_get`. -/
def QueueThread.consumes : QueueThread α → Bool
  | .locking (.get _) | .testing .. | .sleeping _ | .woken .. => true
  | _ => false

theorem consumes_broadcast (thread : QueueThread α) :
    thread.broadcast.consumes = thread.consumes := by
  cases thread <;> rfl

/-- Only the thread takes messages, and there are at least as many as it has seen. -/
structure Consumed (t : ThreadId) (h : List (LockedTaken α)) (s : LockedQueue α) : Prop where
  only : ∀ u, (s.threads u).consumes = true → u = t
  seen : seen t h ≤ s.queue.length

theorem consumed_goes {s : LockedQueue α} {t u : ThreadId} {threads : ThreadId → QueueThread α}
    {queue : Threadqueue α} {owner : Option ThreadId} {thread : QueueThread α}
    (honly : ∀ u, (s.threads u).consumes = true → u = t)
    (hsame : ∀ u, (threads u).consumes = (s.threads u).consumes)
    (hthread : thread.consumes = true → u = t) (v : ThreadId)
    (hv : ((LockedQueue.goes ⟨queue, owner, threads⟩ u thread).threads v).consumes = true) :
    v = t := by
  by_cases h : v = u
  · rw [h, LockedQueue.threads_goes_self] at hv
    rw [h]
    exact hthread hv
  · rw [LockedQueue.threads_goes_ne _ h] at hv
    exact honly v (hsame v ▸ hv)

theorem consumed_next {t : ThreadId} {h : List (LockedTaken α)} {s s' : LockedQueue α}
    {e : LockedEvent α} {out : LockedOut α} (sound : s.Sound) (consumed : Consumed t h s)
    (hcall : ∀ u timed, e = .call u (.get timed) → u = t) (moved : s.Moved e out s') :
    Consumed t (h ++ [⟨s, e, out, s'⟩]) s' := by
  have honly := consumed.only
  have hseen := consumed.seen
  have hnext : seen t (h ++ [⟨s, e, out, s'⟩]) = seenStep t (seen t h) ⟨s, e, out, s'⟩ := by
    rw [seen, List.foldl_append]
    rfl
  obtain ⟨as, ps, msgs, hold⟩ := sound.holds
  cases moved with
  | called u c outside =>
      refine ⟨consumed_goes honly (fun _ => rfl) fun hc => ?_, hnext ▸ hseen⟩
      cases c with
      | get timed => exact hcall u timed rfl
      | add data msgtype => cases hc
      | length => cases hc
  | locked u c free locking =>
      refine ⟨consumed_goes honly (fun _ => rfl) fun hc => honly u ?_, hnext ▸ hseen⟩
      rw [locking]
      cases c with
      | get timed => rfl
      | add data msgtype => cases hc
      | length => cases hc
  | relocked u timed ret free woken =>
      exact ⟨consumed_goes honly (fun _ => rfl) fun _ => honly u (by rw [woken]; rfl), hnext ▸ hseen⟩
  | added u data msgtype queue adding add =>
      obtain ⟨queue', as', ps', hadd, hold'⟩ := Threadqueue.threadQueueAdd_holds hold data msgtype
      obtain rfl := Except.ok.inj (hadd.symm.trans add)
      refine ⟨consumed_goes honly (fun v => ?_) fun hc => (nomatch hc), ?_⟩
      · split
        · exact consumes_broadcast _
        · rfl
      · have hlength := hold'.length
        have hbefore := hold.length
        rw [List.length_append, List.length_singleton] at hlength
        rw [hnext]
        change seen t h ≤ queue'.length
        omega
  | waits u timed ret testing empty goesOn =>
      exact ⟨consumed_goes honly (fun _ => rfl) fun _ => honly u (by rw [testing]; rfl), hnext ▸ hseen⟩
  | timedOut u timed ret testing expired =>
      exact ⟨consumed_goes honly (fun _ => rfl) fun hc => (nomatch hc), hnext ▸ hseen⟩
  | took u timed ret msg qlength queue testing goesOn nonempty take =>
      -- only the thread itself can have taken the message
      have hu : u = t := honly u (by rw [testing]; rfl)
      refine ⟨consumed_goes honly (fun _ => rfl) fun hc => (nomatch hc), ?_⟩
      rw [hnext, seenStep]
      dsimp only
      rw [if_pos hu]
      cases msgs with
      | nil => exact absurd (hold.chain.null_iff.mpr rfl) nonempty
      | cons m msgs =>
          obtain ⟨queue', as', ps', htake, hold'⟩ := Threadqueue.takeFirst_holds hold
          cases htake.symm.trans take
          have hlength := hold'.length
          change 0 ≤ queue.length
          omega
  | counted u counting =>
      refine ⟨consumed_goes honly (fun _ => rfl) fun hc => (nomatch hc), ?_⟩
      rw [hnext, seenStep]
      dsimp only
      split
      · exact le_refl _
      · exact hseen
  | unlocked u unlocking =>
      exact ⟨consumed_goes honly (fun _ => rfl) fun hc => (nomatch hc), hnext ▸ hseen⟩
  | woke u timed ret sleeping =>
      exact ⟨consumed_goes honly (fun _ => rfl) fun _ => honly u (by rw [sleeping]; rfl), hnext ▸ hseen⟩

/-- Once the thread has seen a message, there is one for it: whatever it runs next is no wait. -/
def NeverWaits (t : ThreadId) (h : List (LockedTaken α)) (s : LockedQueue α) : Prop :=
  0 < seen t h → s.queue.first ≠ none ∧
    ∀ out s', s.step (.run t) = .ok (out, s') → out ≠ .did .waits

/-- The only consumer of a queue never waits in `thread_queue_get` after `thread_queue_length` has
told it that the queue is not empty, whatever the other threads do in between. -/
theorem sole_consumer (t : ThreadId) (es : List (LockedEvent α)) (honly : OnlyConsumer t es) :
    Lts.Throughout LockedQueue.step LockedQueue.start es (NeverWaits t) := by
  have hconsumed : Lts.Throughout LockedQueue.step LockedQueue.start es
      fun h s => s.Sound ∧ Consumed t h s := by
    refine Lts.throughout_of_along (C := fun _ _ e => e ∈ es) ?_ ?_ ?_
    · exact ⟨LockedQueue.sound_start, fun u hu => (nomatch hu), le_refl _⟩
    · intro h s e out s' _ ⟨sound, consumed⟩ hmem taken
      have moved := LockedQueue.step_moved taken
      exact ⟨moved.sound sound,
        consumed_next sound consumed (fun u timed he => honly u timed (he ▸ hmem)) moved⟩
    · intro h s e _ hes
      exact hes.subset (List.mem_append_right _ List.mem_cons_self)
  intro h s run hes hseen
  obtain ⟨sound, consumed⟩ := hconsumed h s run hes
  obtain ⟨as, ps, msgs, hold⟩ := sound.holds
  have hnonempty : s.queue.first ≠ none := by
    rw [Ne, LockedQueue.first_eq_none_iff hold]
    have := consumed.seen
    omega
  refine ⟨hnonempty, ?_⟩
  intro out s' hstep hout
  cases LockedQueue.step_moved hstep with
  | waits _ timed ret testing empty goesOn => exact hnonempty empty
  | added | timedOut | took | counted => cases hout

/-- The main thread asks for the length and takes the invitation that the reader has queued. -/
theorem sole_consumer_invitation :
    Lts.Throughout LockedQueue.step LockedQueue.start
      [.call 1 (.add (some 7) 0), .lock 1, .run 1, .unlock 1, .call 0 .length, .lock 0, .run 0,
        .unlock 0, .call 0 (.get false), .lock 0, .run 0] (NeverWaits (α := Nat) 0) :=
  sole_consumer 0 _ (by
    intro u timed hmem
    have hget : u = 0 ∧ timed = false := by simpa using hmem
    exact hget.1)

end GroupChat
