import Oce.Base.Int32
import Oce.Base.Registry
import Oce.UtilCxx.Model.ThreadPool

/-!
# The task manager and the scheduler

`TaskManager` has a `ThreadPoolExecutor` for each level and, in its `ThreadPoolScheduler`, an
`IceUtil::Timer` for each channel. Both are made when they are first asked for: the map is read under
the read lock, and when nothing is found the new object goes into the map under the write lock later.
The constructor of an executor, the two locks, the handing over of a task and each of the two setters
of a `config` are steps of their own; what an executor does with a task is in `ThreadPool`.

`acted`, `scheduled`, `submitted` and `started` are not in the source: which executor a call of a
level has acted on, which timer a task of a channel has been given to, and the tasks of a level in the
order in which they were handed to a worker or to a queue, and in the order in which they started.
-/

set_option autoImplicit false

namespace Oce.UtilCxx

open Oce.Base

/-! ## Sizes -/

/-- SOURCE: ThreadPoolExecutor.h:107-126 -/
structure ThreadPoolConfig where
  core : ℤ
  max : ℤ
  deriving DecidableEq, Repr

namespace ThreadPoolConfig

/-- SOURCE: ThreadPoolExecutor.h:108-111 -/
def standard : ThreadPoolConfig := ⟨5, 100⟩

/-- SOURCE: ThreadPoolExecutor.h:112-116 -/
def new (theCore theMax : ℤ) : ThreadPoolConfig where
  core := if theCore > 0 then theCore else 1
  max := if theMax < theCore then asInt (theCore * 2) else theMax

end ThreadPoolConfig

/-- An `int` that is passed for a `size_t`. -/
def toSize (n : ℤ) : ℕ := (n % 2 ^ 64).toNat

variable {τ : Type*}

namespace ThreadPoolExecutor

/-- The loop of `setCorePoolSize`, with the rounds that are left.
SOURCE: ThreadPoolExecutor.cpp:205-212 -/
def addThreads (p : ThreadPoolExecutor τ) : ℕ → ThreadPoolExecutor τ
  | 0 => p
  | n + 1 => if p.poolSize < p.corePoolSize then (p.addThread none).addThreads n else p

/-- SOURCE: ThreadPoolExecutor.cpp:195-218 -/
def setCorePoolSize (p : ThreadPoolExecutor τ) (corePoolSize : ℕ) : ThreadPoolExecutor τ :=
  let extra := asInt (p.corePoolSize - corePoolSize)
  addThreads { p with corePoolSize := corePoolSize } (min (-extra).toNat p.queue.length)

/-- SOURCE: ThreadPoolExecutor.cpp:236-251 -/
def setMaximumPoolSize (p : ThreadPoolExecutor τ) (maximumPoolSize : ℕ) : ThreadPoolExecutor τ :=
  if maximumPoolSize ≤ 0 ∨ maximumPoolSize < p.corePoolSize then p
  else { p with maximumPoolSize := maximumPoolSize }

end ThreadPoolExecutor

/-- The task for which a call starts a worker. SOURCE: ThreadPoolExecutor.cpp:88-118 -/
def PoolOp.startsWorker (p : ThreadPoolExecutor τ) : PoolOp τ → List τ
  | call i _ =>
    match p.calls[i]? with
    | some (.addIfUnderCorePoolSize, command) => if p.poolSize < p.corePoolSize then [command] else []
    | some (.addIfUnderMaximumPoolSize, command) =>
      if p.poolSize < p.maximumPoolSize then [command] else []
    | _ => []
  | _ => []

/-- The task that a call puts into the queue. SOURCE: ThreadPoolExecutor.cpp:50-67 -/
def PoolOp.queues (p : ThreadPoolExecutor τ) : PoolOp τ → List τ
  | call i _ =>
    match p.calls[i]? with
    | some (.push, command) | some (.pushOnly, command) => [command]
    | _ => []
  | _ => []

/-- The task that a worker takes from the queue. SOURCE: ThreadPoolExecutor.cpp:157-160 -/
def PoolOp.takes (p : ThreadPoolExecutor τ) : PoolOp τ → List τ
  | worker i _ =>
    match p.workers[i]? with
    | some .getTask => p.queue.take 1
    | _ => []
  | _ => []

/-! ## The manager -/

/-- SOURCE: ThreadPoolScheduler.h:13-52, TaskManager.h:58-80 -/
structure TimerTask (τ : Type*) where
  channel : ℤ
  delay : ℤ
  repeated : Bool
  task : τ
  deriving DecidableEq, Repr

/-- SOURCE: TaskManager.cpp:14-21, 101-115 -/
inductive ManagerCall (τ : Type*) where
  | execute (level : ℤ) (task : τ)
  | config (level : ℤ) (config : ThreadPoolConfig)
  | schedule (timer : TimerTask τ)
  deriving DecidableEq, Repr

/-- Where a call is. -/
inductive ManagerPlace where
  | locate
  | create
  | insert (config : ThreadPoolConfig)
  | act (executor : ℕ)
  | setMaximum (executor : ℕ)
  | returned
  deriving DecidableEq, Repr

/-- SOURCE: TaskManager.h:111-116, ThreadPoolScheduler.h:54-67 -/
structure TaskManager (τ : Type*) where
  config : ThreadPoolConfig
  executors : Registry ℤ (ThreadPoolExecutor τ)
  timers : Registry ℤ (List (TimerTask τ))
  calls : List (ManagerCall τ × ManagerPlace)
  acted : List (ℤ × ℕ)
  scheduled : List (ℤ × ℕ)
  submitted : ℤ → List τ
  started : ℤ → List τ

namespace TaskManager

/-- SOURCE: TaskManager.h:19 -/
def taskLevelTimer : ℤ := -128

def new : TaskManager τ where
  config := .standard
  executors := .empty
  timers := .empty
  calls := []
  acted := []
  scheduled := []
  submitted _ := []
  started _ := []

/-- `locateExecutor`, with the place of the call after it. SOURCE: TaskManager.cpp:117-132 -/
def locateExecutor (m : TaskManager τ) (level : ℤ) : ManagerPlace → TaskManager τ × ManagerPlace
  | .locate => (m, (m.executors.current level).elim .create .act)
  | .create => (m, .insert m.config)
  | .insert config =>
    ({ m with executors := m.executors.create level (.new (toSize config.core) (toSize config.max)) },
      .act m.executors.objects.length)
  | place => (m, place)

/-- A call of a level acts on an executor. -/
def actOn (m : TaskManager τ) (level : ℤ) (executor : ℕ)
    (f : ThreadPoolExecutor τ → ThreadPoolExecutor τ) : TaskManager τ :=
  { m with
    executors := m.executors.modify executor f
    acted := m.acted ++ [(level, executor)] }

/-- SOURCE: TaskManager.cpp:105-107 -/
def executeStep (m : TaskManager τ) (level : ℤ) (task : τ) :
    ManagerPlace → TaskManager τ × ManagerPlace
  | .act executor => (m.actOn level executor fun p => (PoolOp.execute (some task)).step p, .returned)
  | place => m.locateExecutor level place

/-- SOURCE: TaskManager.cpp:14-21 -/
def configStep (m : TaskManager τ) (level : ℤ) (config : ThreadPoolConfig) :
    ManagerPlace → TaskManager τ × ManagerPlace
  | .act executor =>
    (m.actOn level executor fun p => p.setCorePoolSize (toSize config.core), .setMaximum executor)
  | .setMaximum executor =>
    (m.actOn level executor fun p => p.setMaximumPoolSize (toSize config.max), .returned)
  | place => if level = taskLevelTimer then (m, .returned) else m.locateExecutor level place

/-- SOURCE: ThreadPoolScheduler.cpp:15-49 -/
def scheduleStep (m : TaskManager τ) (timer : TimerTask τ) :
    ManagerPlace → TaskManager τ × ManagerPlace
  | .locate =>
    match m.timers.current timer.channel with
    | none => (m, .create)
    | some i =>
      ({ m with
          timers := m.timers.modify i (· ++ [timer])
          scheduled := m.scheduled ++ [(timer.channel, i)] }, .returned)
  | .create =>
    ({ m with
        timers := m.timers.create timer.channel [timer]
        scheduled := m.scheduled ++ [(timer.channel, m.timers.objects.length)] }, .returned)
  | place => (m, place)

/-- One step of a call. -/
def callStep (m : TaskManager τ) : ManagerCall τ → ManagerPlace → TaskManager τ × ManagerPlace
  | .execute level task => m.executeStep level task
  | .config level config => m.configStep level config
  | .schedule timer => m.scheduleStep timer

/-- One step of an executor, with what it submits and starts. -/
def poolStep (m : TaskManager τ) (executor : ℕ) (op : PoolOp τ) : TaskManager τ :=
  match m.executors.objects[executor]? with
  | none => m
  | some (level, p) =>
    { m with
      executors := m.executors.modify executor op.step
      submitted := Function.update m.submitted level
        (m.submitted level ++ op.startsWorker p ++ op.queues p)
      started := Function.update m.started level
        (m.started level ++ op.startsWorker p ++ op.takes p) }

end TaskManager

/-- A thread makes a call, or sets the sizes of executors to come; a call takes its next step; a
call or a worker inside an executor does. -/
inductive ManagerOp (τ : Type*) where
  | call (c : ManagerCall τ)
  | setConfig (config : ThreadPoolConfig)
  | step (i : ℕ)
  | poolCall (executor i : ℕ) (poolFirst : Bool)
  | poolWorker (executor i : ℕ) (gotit : Bool)
  deriving DecidableEq, Repr

/-- One step. -/
def ManagerOp.next (m : TaskManager τ) : ManagerOp τ → TaskManager τ
  | call c => { m with calls := m.calls ++ [(c, .locate)] }
  | setConfig config => { m with config := config }
  | step i =>
    match m.calls[i]? with
    | none => m
    | some (c, place) =>
      let r := m.callStep c place
      { r.1 with calls := m.calls.set i (c, r.2) }
  | poolCall executor i poolFirst => m.poolStep executor (.call i poolFirst)
  | poolWorker executor i gotit => m.poolStep executor (.worker i gotit)

end Oce.UtilCxx
