import Oce.Base.Run
import Oce.IceExt.Model.ObjectCache

/-!
# The factory that loads once

`SyncServantFactory` with its monitor. A call holds the monitor from its beginning until it waits
or returns, and again from a wake-up until it waits or returns; the task of a request reads the
underlying factory without the monitor, and takes it only to finish the request. Each of these is
one event, and the events of calls and tasks come in any order.

A request is known by its number. The map leads from the low 32 bits of an id to a request; the
tasks lead to it directly. What the underlying factory has made is kept beside the state.
-/

set_option autoImplicit false

namespace Oce.IceExt.SyncServantFactory

/-- SOURCE: ObjectCacheI.h:262-269, 274-277 -/
structure Request (O : Type*) where
  finished : Bool
  count : ℤ
  id : ℤ
  object : Option O

/-- How far the task of a request is: it is in the queue of the task manager; the underlying create
runs; the create has ended; the request is finished. -/
inductive CreateTask where
  | queued | creating | created | done
  deriving DecidableEq, Repr

/-- Where a call is: it wants the monitor, it sleeps in it, or it has returned. -/
inductive Place (O : Type*) where
  | awake
  | asleep
  | returned (object : Option O)
  deriving DecidableEq, Repr

/-- A call of `create`, with the number of the request that it was counted in. -/
structure Caller (O : Type*) where
  id : ℤ
  request : ℕ
  place : Place O
  deriving DecidableEq, Repr

/-- SOURCE: ObjectCacheI.h:258-277 -/
structure State (O : Type*) where
  requests : ℕ → Request O
  tasks : ℕ → Option CreateTask
  next : ℕ
  requestMap : ℕ → Option ℕ
  callers : List (Caller O)
  made : List (ℤ × Option O)

variable {O : Type*}

/-- The call has not returned. -/
def Caller.waits (c : Caller O) : Bool :=
  match c.place with
  | .returned _ => false
  | _ => true

namespace State

def new : State O :=
  { requests := fun _ => ⟨true, 0, 0, none⟩
    tasks := fun _ => none
    next := 0
    requestMap := fun _ => none
    callers := []
    made := [] }

/-- The call is counted in the request there is, or in a new one, which gets a task.
SOURCE: ObjectCacheI.cpp:376-387 -/
def join (s : State O) (id : ℤ) : ℕ × State O :=
  match s.requestMap (requestKey id) with
  | some q =>
    (q, { s with requests :=
      Function.update s.requests q { s.requests q with count := (s.requests q).count + 1 } })
  | none =>
    (s.next,
      { s with
        requests := Function.update s.requests s.next ⟨false, 1, id, none⟩
        tasks := Function.update s.tasks s.next (some .queued)
        next := s.next + 1
        requestMap := Function.update s.requestMap (requestKey id) (some s.next) })

/-- One round of the loop, from the look into the map to the wait or the return.
SOURCE: ObjectCacheI.cpp:388-406 -/
def look (s : State O) (id : ℤ) : Place O × State O :=
  match s.requestMap (requestKey id) with
  | none => (.returned none, s)
  | some q =>
    let request := s.requests q
    if request.finished then
      (.returned request.object,
        { s with
          requests := Function.update s.requests q { request with count := request.count - 1 }
          requestMap :=
            if request.count - 1 ≤ 0 then Function.update s.requestMap (requestKey request.id) none
            else s.requestMap })
    else (.asleep, s)

/-- A call begins. SOURCE: ObjectCacheI.cpp:375-407 -/
def create (s : State O) (id : ℤ) : State O :=
  let joined := s.join id
  let looked := joined.2.look id
  { looked.2 with callers := looked.2.callers ++ [⟨id, joined.1, looked.1⟩] }

/-- A call that is awake gets the monitor. -/
def resume (s : State O) (i : ℕ) : State O :=
  match s.callers[i]? with
  | some c =>
    match c.place with
    | .awake =>
      let looked := s.look c.id
      { looked.2 with callers := looked.2.callers.set i { c with place := looked.1 } }
    | _ => s
  | none => s

/-- A call wakes up without a reason, or its wait throws. SOURCE: ObjectCacheI.cpp:401-405 -/
def wake (s : State O) (i : ℕ) : State O :=
  match s.callers[i]? with
  | some c =>
    match c.place with
    | .asleep => { s with callers := s.callers.set i { c with place := .awake } }
    | _ => s
  | none => s

/-- A thread of the pool takes the task. SOURCE: ObjectCacheI.cpp:428-430, ObjectCacheI.h:298-300 -/
def handle (s : State O) (q : ℕ) : State O :=
  match s.tasks q with
  | some .queued => { s with tasks := Function.update s.tasks q (some .creating) }
  | _ => s

/-- The underlying create returns an object or null, or throws, which leaves the null there was.
SOURCE: ObjectCacheI.cpp:430-438 -/
def created (s : State O) (q : ℕ) (outcome : Option O) : State O :=
  match s.tasks q with
  | some .creating =>
    { s with
      requests := Function.update s.requests q { s.requests q with object := outcome }
      tasks := Function.update s.tasks q (some .created)
      made := s.made ++ [((s.requests q).id, outcome)] }
  | _ => s

/-- `notifyAll`. -/
def notify (c : Caller O) : Caller O :=
  match c.place with
  | .asleep => { c with place := .awake }
  | _ => c

/-- The task finishes the request that the map leads to. If there is none it makes one, in which
nothing sets the count and the id: `unset` is what they are.
SOURCE: ObjectCacheI.cpp:413-426, 439 -/
def finish (s : State O) (q : ℕ) (unset : ℤ × ℤ) : State O :=
  match s.tasks q with
  | some .created =>
    let key := requestKey (s.requests q).id
    let s := { s with
      tasks := Function.update s.tasks q (some .done)
      callers := s.callers.map notify }
    match s.requestMap key with
    | some p =>
      { s with requests := Function.update s.requests p { s.requests p with finished := true } }
    | none =>
      { s with
        requests := Function.update s.requests s.next ⟨true, unset.1, unset.2, none⟩
        next := s.next + 1
        requestMap := Function.update s.requestMap key (some s.next) }
  | _ => s

end State

/-! ## Runs -/

inductive Event (O : Type*) where
  | create (id : ℤ)
  | resume (caller : ℕ)
  | wake (caller : ℕ)
  | handle (request : ℕ)
  | created (request : ℕ) (outcome : Option O)
  | finish (request : ℕ) (unset : ℤ × ℤ)

namespace State

def step (s : State O) : Event O → State O
  | .create id => s.create id
  | .resume i => s.resume i
  | .wake i => s.wake i
  | .handle q => s.handle q
  | .created q outcome => s.created q outcome
  | .finish q unset => s.finish q unset

end State

end Oce.IceExt.SyncServantFactory
