import Oce.Base.Run

/-!
# The thread pool

`ThreadPoolExecutor` with the calls of `execute` that are under way and its workers. Every
read without the lock and every critical section is a step of its own. `_poolSize` counts
the workers from `addThread` to `workerDone`; a worker that `workerCanExit` has let go does
nothing any more but `workerDone`.

A wait ends when it is notified, by its timeout, or for no reason, so a notification needs
no trace in the state: what the wait reports is left open. Only a wait without a timeout
always reports success.
-/

set_option autoImplicit false

namespace Oce.UtilCxx

open Oce.Base

section Pool

/-- Where a call of `execute` is. SOURCE: ThreadPoolExecutor.cpp:34-67 -/
inductive Call where
  | start
  | addIfUnderCorePoolSize
  /-- `_queue.size() < _poolSize`, with the sizes that were read already. -/
  | compare (queueSize poolSize : Option ℕ)
  | push
  | check
  | ensureQueuedTaskHandled
  | addIfUnderMaximumPoolSize
  | pushOnly
  | returned
  deriving DecidableEq, Repr

/-- Where a worker is. SOURCE: ThreadPoolExecutor.cpp:134-193, 296-304 -/
inductive Worker (τ : Type*) where
  | runTask (task : τ)
  | getTask
  | waitforNewTask (timed : Bool)
  | workerCanExit
  | workerDone
  deriving DecidableEq, Repr

/-- SOURCE: ThreadPoolExecutor.h:60-80 -/
structure ThreadPoolExecutor (τ : Type*) where
  corePoolSize : ℕ
  maximumPoolSize : ℕ
  allowCoreThreadTimeOut : Bool
  poolSize : ℕ
  waitPoolSize : ℕ
  queue : List τ
  workers : List (Worker τ)
  calls : List (Call × τ)
  deriving DecidableEq

variable {τ : Type*}

namespace ThreadPoolExecutor

/-- SOURCE: ThreadPoolExecutor.cpp:9-28 -/
def new (corePoolSize maximumPoolSize : ℕ) : ThreadPoolExecutor τ where
  corePoolSize := corePoolSize
  maximumPoolSize :=
    if maximumPoolSize ≤ 0 ∨ maximumPoolSize < corePoolSize then corePoolSize * 50
    else maximumPoolSize
  allowCoreThreadTimeOut := true
  poolSize := 0
  waitPoolSize := 0
  queue := []
  workers := []
  calls := []

/-- The worker that is started runs its first task, or asks for one if it has none.
SOURCE: ThreadPoolExecutor.cpp:77-86, 296-300 -/
def addThread (p : ThreadPoolExecutor τ) (firstTask : Option τ) : ThreadPoolExecutor τ :=
  { p with
    poolSize := p.poolSize + 1
    workers := p.workers ++ [firstTask.elim .getTask .runTask] }

/-- `_queue.push_back(command)` under the lock. -/
def pushBack (p : ThreadPoolExecutor τ) (command : τ) : ThreadPoolExecutor τ :=
  { p with queue := p.queue ++ [command] }

/-- One step of a call of `execute`. `poolFirst` says which of the two sizes is read first.
SOURCE: ThreadPoolExecutor.cpp:34-67, 88-132 -/
def callStep (p : ThreadPoolExecutor τ) (command : τ) (poolFirst : Bool) :
    Call → ThreadPoolExecutor τ × Call
  | .start => (p, if p.corePoolSize ≤ p.poolSize then .compare none none else .addIfUnderCorePoolSize)
  | .addIfUnderCorePoolSize =>
    if p.poolSize < p.corePoolSize then (p.addThread (some command), .returned)
    else (p, .compare none none)
  | .compare none none =>
    (p, if poolFirst then .compare none (some p.poolSize) else .compare (some p.queue.length) none)
  | .compare (some q) none => (p, .compare (some q) (some p.poolSize))
  | .compare none (some n) => (p, .compare (some p.queue.length) (some n))
  | .compare (some q) (some n) => (p, if q < n then .push else .addIfUnderMaximumPoolSize)
  | .push => (p.pushBack command, .check)
  | .check => (p, if p.poolSize = 0 then .ensureQueuedTaskHandled else .returned)
  | .ensureQueuedTaskHandled =>
    if p.poolSize < max p.corePoolSize 1 ∧ p.queue ≠ [] then (p.addThread none, .returned)
    else (p, .returned)
  | .addIfUnderMaximumPoolSize =>
    if p.poolSize < p.maximumPoolSize then (p.addThread (some command), .returned)
    else (p, .pushOnly)
  | .pushOnly => (p.pushBack command, .returned)
  | .returned => (p, .returned)

/-- The test of `workerCanExit`. SOURCE: ThreadPoolExecutor.cpp:183-187 -/
def canExit (p : ThreadPoolExecutor τ) : Bool :=
  p.queue.isEmpty ∨ p.allowCoreThreadTimeOut ∧ max 1 p.corePoolSize < p.poolSize

/-- One step of worker `i`; `gotit` is what a wait reports.
SOURCE: ThreadPoolExecutor.cpp:134-193, 296-304 -/
def workerStep (p : ThreadPoolExecutor τ) (i : ℕ) (gotit : Bool) : Worker τ → ThreadPoolExecutor τ
  | .runTask _ => { p with workers := p.workers.set i .getTask }
  | .getTask =>
    match p.queue with
    | task :: queue => { p with queue := queue, workers := p.workers.set i (.runTask task) }
    | [] =>
      { p with
        waitPoolSize := p.waitPoolSize + 1
        workers := p.workers.set i
          (.waitforNewTask (p.corePoolSize < p.poolSize ∨ p.allowCoreThreadTimeOut)) }
  | .waitforNewTask timed =>
    { p with
      waitPoolSize := p.waitPoolSize - 1
      workers := p.workers.set i (if gotit ∨ ¬ timed then .getTask else .workerCanExit) }
  | .workerCanExit => { p with workers := p.workers.set i (if p.canExit then .workerDone else .getTask) }
  | .workerDone => { p with poolSize := p.poolSize - 1, workers := p.workers.eraseIdx i }

end ThreadPoolExecutor

/-- A client calls `execute`, or a call or a worker takes its next step. A null command is
returned from at once. -/
inductive PoolOp (τ : Type*) where
  | execute (command : Option τ)
  | call (i : ℕ) (poolFirst : Bool)
  | worker (i : ℕ) (gotit : Bool)
  deriving DecidableEq

/-- One step of the pool. -/
def PoolOp.step (p : ThreadPoolExecutor τ) : PoolOp τ → ThreadPoolExecutor τ
  | execute none => p
  | execute (some command) => { p with calls := p.calls ++ [(.start, command)] }
  | call i poolFirst =>
    match p.calls[i]? with
    | none => p
    | some (c, command) =>
      let r := p.callStep command poolFirst c
      { r.1 with calls := p.calls.set i (r.2, command) }
  | worker i gotit =>
    match p.workers[i]? with
    | none => p
    | some w => p.workerStep i gotit w

end Pool

/-!
## The blocking queue

`BlockingQueue` is a `std::queue` under one monitor. A thread inside a call holds the lock, waits, or
has been woken and has to get the lock again; from there to its next wait or to its return it is
alone, so that is one step. `notify` is the last thing every call does, and the monitor sends it when
the lock is released: one of the threads that wait then is woken, whichever the condition variable
takes, and none if none waits.

A thread is the call that it is inside; a thread outside has no state. A wait may also end for no
reason, and a timed one because its time is over. `done` are the calls that have returned, with what
they returned. Looking at the front of an empty queue, or popping it, has no defined result; nothing
is said about a queue from then on, so it stays as it is.
-/

/-- SOURCE: AtomicSTL.h:137-215, 228-314 -/
inductive QueueCall (τ : Type*) where
  | push (elem : τ)
  | pushSeq (seq : List τ)
  | front
  | popfront
  | popfrontSeq (nSeqSize : ℕ)
  | pushByTime (elem : τ)
  | pushSeqByTime (seq : List τ)
  | popfrontByTime
  | popfrontSeqByTime (nSeqSize : ℕ)
  deriving DecidableEq, Repr

/-- What a call returns. The number beside an element is `nQueueSize`. -/
inductive QueueReply (τ : Type*) where
  | void
  | flag (pushed : Bool)
  | elem (t : τ) (nQueueSize : ℕ)
  | null
  | seq (seq : List τ)
  deriving DecidableEq, Repr

/-- SOURCE: AtomicSTL.h:128-134 -/
structure BlockingQueue (τ : Type*) where
  maxSize : ℕ
  queue : List τ
  waiting : List (QueueCall τ)
  /-- The threads that have to get the lock again, with what their wait reports. -/
  woken : List (QueueCall τ × Bool)
  done : List (QueueCall τ × QueueReply τ)
  undefined : Bool
  deriving DecidableEq

variable {τ : Type*}

namespace QueueCall

/-- The calls that wait once and for a time only. -/
def timed : QueueCall τ → Bool
  | pushByTime _ | pushSeqByTime _ | popfrontByTime | popfrontSeqByTime _ => true
  | _ => false

end QueueCall

namespace BlockingQueue

/-- A queue that nobody uses yet. -/
def new (maxSize : ℕ) : BlockingQueue τ := ⟨maxSize, [], [], [], [], false⟩

/-- There is room for so many more elements. -/
def room (b : BlockingQueue τ) (n : ℕ) : Bool := b.queue.length + n ≤ b.maxSize

/-- A call that waits in a loop leaves it. SOURCE: AtomicSTL.h:139, 150, 163, 174, 186, 199 -/
def ready (b : BlockingQueue τ) : QueueCall τ → Bool
  | .push _ => b.room 1
  | .pushSeq seq => b.room seq.length
  | .front | .popfront | .popfrontSeq _ => 0 < b.queue.length
  | _ => false

/-- The first element, taken off the queue. SOURCE: AtomicSTL.h:178-179, 190-192, 272-273, 285-287 -/
def popElem (b : BlockingQueue τ) : Option (List τ × QueueReply τ) :=
  match b.queue with
  | [] => none
  | t :: queue => some (queue, .elem t queue.length)

/-- As many elements as there are, up to a number. SOURCE: AtomicSTL.h:204-214, 299-309 -/
def popSeq (b : BlockingQueue τ) (nSeqSize : ℕ) : List τ × QueueReply τ :=
  let nValidSize := min nSeqSize b.queue.length
  (b.queue.drop nValidSize, .seq (b.queue.take nValidSize))

/-- What a timed push does that was notified. SOURCE: AtomicSTL.h:232-241, 251-262 -/
def pushIfRoom (b : BlockingQueue τ) (seq : List τ) : List τ × QueueReply τ :=
  if b.room seq.length then (b.queue ++ seq, .flag true) else (b.queue, .flag false)

/-- What a call does once it does not wait any more: the queue and what it returns; `notified` is
what the wait of a timed call reported. SOURCE: AtomicSTL.h:137-215, 228-314 -/
def act (b : BlockingQueue τ) (notified : Bool) : QueueCall τ → Option (List τ × QueueReply τ)
  | .push elem => some (b.queue ++ [elem], .void)
  | .pushSeq seq => some (b.queue ++ seq, .void)
  | .front => b.queue.head?.map fun t => (b.queue, .elem t b.queue.length)
  | .popfront => b.popElem
  | .popfrontSeq nSeqSize => some (b.popSeq nSeqSize)
  | .pushByTime elem => some (if notified then b.pushIfRoom [elem] else (b.queue, .flag false))
  | .pushSeqByTime seq => some (if notified then b.pushIfRoom seq else (b.queue, .flag false))
  | .popfrontByTime => if notified then b.popElem else some (b.queue, .null)
  | .popfrontSeqByTime nSeqSize =>
    some (if notified then b.popSeq nSeqSize else (b.queue, .seq []))

/-- Waiting thread `i` has to get the lock again. -/
def wakeUp (b : BlockingQueue τ) (i : ℕ) (notified : Bool) : BlockingQueue τ :=
  match b.waiting[i]? with
  | none => b
  | some c => { b with waiting := b.waiting.eraseIdx i, woken := b.woken ++ [(c, notified)] }

/-- `m_mutex.notify()`, sent when the lock is released; `pick` is the choice among the waiting. -/
def notify (b : BlockingQueue τ) (pick : ℕ) : BlockingQueue τ :=
  b.wakeUp (pick % b.waiting.length) true

/-- A call does what it has to do, notifies, and returns. -/
def finish (b : BlockingQueue τ) (c : QueueCall τ) (notified : Bool) (pick : ℕ) : BlockingQueue τ :=
  match b.act notified c with
  | none => { b with undefined := true }
  | some (queue, reply) => { b with queue := queue, done := b.done ++ [(c, reply)] }.notify pick

/-- A call goes to sleep. -/
def sleep (b : BlockingQueue τ) (c : QueueCall τ) : BlockingQueue τ :=
  { b with waiting := b.waiting ++ [c] }

end BlockingQueue

/-- A thread enters a call; a woken thread gets the lock; the time of a waiting thread is over, or
its wait ends for no reason. -/
inductive QueueOp (τ : Type*) where
  | call (c : QueueCall τ) (pick : ℕ)
  | resume (i pick : ℕ)
  | timeout (i : ℕ)
  | spurious (i : ℕ)
  deriving DecidableEq, Repr

open BlockingQueue in
/-- One step. -/
def QueueOp.step (b : BlockingQueue τ) (op : QueueOp τ) : BlockingQueue τ :=
  if b.undefined then b
  else
    match op with
    | call c pick => if c.timed ∨ ¬ b.ready c then b.sleep c else b.finish c true pick
    | resume i pick =>
      match b.woken[i]? with
      | none => b
      | some (c, notified) =>
        let b' := { b with woken := b.woken.eraseIdx i }
        if ¬ c.timed ∧ ¬ b'.ready c then b'.sleep c else b'.finish c notified pick
    | timeout i =>
      match b.waiting[i]? with
      | none => b
      | some c => if c.timed then b.wakeUp i false else b
    | spurious i => b.wakeUp i true

end Oce.UtilCxx
