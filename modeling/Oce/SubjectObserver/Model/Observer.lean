import Mathlib.Data.Int.Notation
import Mathlib.Logic.Function.Basic
import Oce.Base.Run

/-!
# The subject observer

`SubjectObserverI` keeps topics and their subscribers under one mutex. `notifyall` and `fetch` copy
the topic under the mutex, read the clock without it, and put the copy in the topic's place under the
mutex again; the subscribers are told only if the time of the topic that was there is an earlier one.
Each of the three is a step of its own, and so is each call of `opera` that a `NotifyTask` makes; `get`
makes its calls with the mutex held. The clock counts whole seconds.

Which subscribers fail is left open: `failing` are those whose `opera` throws when `get` calls it, and
`again` those whose second call throws too. Two things are not in the source: `due`, the subscribers
that were there when a call began and have not been unsubscribed since, and `operas`, the calls of
`opera` so far, each with the number of the call that it is for. Names and proxies are only compared;
the context of a request, which is passed on, and the log lines are left out.
-/

set_option autoImplicit false

namespace Oce.SubjectObserver

open Function Oce.Base

/-- A proxy: whom it is for, and its timeout if it has one. -/
structure SbjSubscriberPrx (ι : Type*) where
  subscriber : ι
  timeout : Option ℕ
  deriving DecidableEq, Repr

structure SbjTopic (κ : Type*) where
  name : κ
  timestamp : ℤ
  deriving DecidableEq, Repr

/-- `notifyall` or `fetch`. -/
inductive CallKind where
  | notifyall
  | fetch
  deriving DecidableEq, Repr

/-- Where a call is; the answers that a `fetch` returns are known by those who gave them. -/
inductive CallPlace (κ ι : Type*) where
  | getSbjTopic
  | time (sbjt : SbjTopic κ)
  | put (sbjt : SbjTopic κ)
  | returned (receives : List (SbjSubscriberPrx ι))
  deriving DecidableEq, Repr

/-- A call of `notifyall` or `fetch`. -/
structure ObserverCall (κ ι σ : Type*) where
  kind : CallKind
  name : κ
  state : σ
  place : CallPlace κ ι
  due : List (SbjSubscriberPrx ι)
  deriving DecidableEq, Repr

/-- A task, with the subscribers that it has still to call. SOURCE: SubjectObserverI.h:56-76 -/
structure NotifyTask (κ ι σ : Type*) where
  call : ℕ
  topic : SbjTopic κ
  subscribers : List (SbjSubscriberPrx ι)
  state : σ
  deriving DecidableEq, Repr

/-- A call of `opera`. -/
structure Opera (ι σ : Type*) where
  call : ℕ
  subscriber : SbjSubscriberPrx ι
  state : σ
  deriving DecidableEq, Repr

/-- SOURCE: SubjectObserverI.h:18-54 -/
structure SubjectObserverI (κ ι σ : Type*) where
  clock : ℤ
  topics : κ → Option (SbjTopic κ)
  subscribers : κ → Option (List (SbjSubscriberPrx ι))
  calls : List (ObserverCall κ ι σ)
  tasks : List (NotifyTask κ ι σ)
  operas : List (Opera ι σ)

variable {κ ι σ : Type*}

/-- A proxy without a timeout gets one of 300 ms. SOURCE: SubjectObserverI.cpp:30-35 -/
def SbjSubscriberPrx.withTimeout (p : SbjSubscriberPrx ι) : SbjSubscriberPrx ι :=
  if p.timeout = none then { p with timeout := some 300 } else p

/-- The calls of `opera` that a task has still to make. -/
def NotifyTask.operas (t : NotifyTask κ ι σ) : List (Opera ι σ) :=
  t.subscribers.map fun p => ⟨t.call, p, t.state⟩

variable [DecidableEq κ] [DecidableEq ι]

/-- A call does not owe a subscriber anything that has been unsubscribed. -/
def ObserverCall.forget (name : κ) (subscriber : SbjSubscriberPrx ι) (c : ObserverCall κ ι σ) :
    ObserverCall κ ι σ :=
  if c.name = name then { c with due := c.due.filter (· ≠ subscriber) } else c

namespace SubjectObserverI

def new (clock : ℤ) : SubjectObserverI κ ι σ := ⟨clock, fun _ => none, fun _ => none, [], [], []⟩

/-- SOURCE: SubjectObserverI.cpp:26-59 -/
def subscribe (s : SubjectObserverI κ ι σ) (name : κ) (subscriber : SbjSubscriberPrx ι) :
    SubjectObserverI κ ι σ :=
  let subscriberT := subscriber.withTimeout
  { s with
    topics := if s.topics name = none then update s.topics name (some ⟨name, s.clock⟩)
      else s.topics
    subscribers :=
      match s.subscribers name with
      | none => update s.subscribers name (some [subscriberT])
      | some sbjss =>
        if subscriberT ∈ sbjss then s.subscribers
        else update s.subscribers name (some (sbjss ++ [subscriberT])) }

/-- SOURCE: SubjectObserverI.cpp:61-78 -/
def doUnsubscribe (s : SubjectObserverI κ ι σ) (name : κ) (subscriber : SbjSubscriberPrx ι) :
    SubjectObserverI κ ι σ :=
  { s with
    subscribers :=
      match s.subscribers name with
      | none => s.subscribers
      | some sbjss => update s.subscribers name (some (sbjss.filter (· ≠ subscriber)))
    calls := s.calls.map (ObserverCall.forget name subscriber) }

/-- The topic that is there is an earlier one. SOURCE: SubjectObserverI.cpp:118-124, 137-143 -/
def isEarlier (s : SubjectObserverI κ ι σ) (sbjt : SbjTopic κ) : Bool :=
  (s.topics sbjt.name).any fun orig => orig.timestamp < sbjt.timestamp

/-- The subscribers that `update` and `get` tell.
SOURCE: SubjectObserverI.cpp:124-129, 143-147 -/
def told (s : SubjectObserverI κ ι σ) (sbjt : SbjTopic κ) : Option (List (SbjSubscriberPrx ι)) :=
  if s.isEarlier sbjt then s.subscribers sbjt.name else none

/-- SOURCE: SubjectObserverI.cpp:123, 142 -/
def putTopic (s : SubjectObserverI κ ι σ) (sbjt : SbjTopic κ) : SubjectObserverI κ ι σ :=
  { s with topics := update s.topics sbjt.name (some sbjt) }

/-- SOURCE: SubjectObserverI.cpp:115-132 -/
def update (s : SubjectObserverI κ ι σ) (call : ℕ) (sbjt : SbjTopic κ) (state : σ) :
    SubjectObserverI κ ι σ :=
  match s.told sbjt with
  | none => s.putTopic sbjt
  | some sbjss =>
    { s.putTopic sbjt with tasks := s.tasks ++ [⟨call, sbjt, sbjss, state⟩] }

/-- The answers, and what is left: those who fail twice are unsubscribed.
SOURCE: SubjectObserverI.cpp:134-195 -/
def get (s : SubjectObserverI κ ι σ) (call : ℕ) (sbjt : SbjTopic κ) (state : σ)
    (failing again : List (SbjSubscriberPrx ι)) :
    List (SbjSubscriberPrx ι) × SubjectObserverI κ ι σ :=
  match s.told sbjt with
  | none => ([], s.putTopic sbjt)
  | some subscriberSeq =>
    let failedSubscriberSeq := subscriberSeq.filter (· ∈ failing)
    let called := subscriberSeq ++ failedSubscriberSeq
    (subscriberSeq.filter (· ∉ failing) ++ failedSubscriberSeq.filter (· ∉ again),
      (failedSubscriberSeq.filter (· ∈ again)).foldl (doUnsubscribe · sbjt.name ·)
        { s.putTopic sbjt with operas := s.operas ++ called.map fun p => ⟨call, p, state⟩ })

/-- The call goes to a place. -/
def setPlace (s : SubjectObserverI κ ι σ) (call : ℕ) (place : CallPlace κ ι) :
    SubjectObserverI κ ι σ :=
  { s with calls := s.calls.modify call fun c => { c with place := place } }

/-- One step of a call of `notifyall` or `fetch`. SOURCE: SubjectObserverI.cpp:80-113 -/
def callStep (s : SubjectObserverI κ ι σ) (call : ℕ) (c : ObserverCall κ ι σ)
    (failing again : List (SbjSubscriberPrx ι)) : SubjectObserverI κ ι σ :=
  match c.place, c.kind with
  | .getSbjTopic, _ =>
    match s.topics c.name with
    | none => s.setPlace call (.returned [])
    | some oldTopic => s.setPlace call (.time oldTopic)
  | .time sbjt, _ => s.setPlace call (.put { sbjt with timestamp := s.clock })
  | .put sbjt, .notifyall => (s.update call sbjt c.state).setPlace call (.returned [])
  | .put sbjt, .fetch =>
    let (receives, s') := s.get call sbjt c.state failing again
    s'.setPlace call (.returned receives)
  | .returned _, _ => s

/-- A task calls the next of its subscribers, and has one that fails unsubscribed.
SOURCE: SubjectObserverI.cpp:198-224 -/
def handle (s : SubjectObserverI κ ι σ) (task : ℕ) (fails : Bool) : SubjectObserverI κ ι σ :=
  match s.tasks[task]? with
  | none => s
  | some t =>
    match t.subscribers with
    | [] => s
    | p :: rest =>
      let s' : SubjectObserverI κ ι σ :=
        { s with
          tasks := s.tasks.set task { t with subscribers := rest }
          operas := s.operas ++ [⟨t.call, p, t.state⟩] }
      if fails then s'.doUnsubscribe t.topic.name p else s'

/-- The calls of `opera` that the tasks have still to make. -/
def pending (s : SubjectObserverI κ ι σ) : List (Opera ι σ) := s.tasks.flatMap NotifyTask.operas

end SubjectObserverI

/-! ## Operations -/

inductive ObserverOp (κ ι σ : Type*) where
  | tick (seconds : ℕ)
  | subscribe (name : κ) (subscriber : SbjSubscriberPrx ι)
  | unsubscribe (name : κ) (subscriber : SbjSubscriberPrx ι)
  | call (kind : CallKind) (name : κ) (state : σ)
  | resume (call : ℕ) (failing again : List (SbjSubscriberPrx ι))
  | handle (task : ℕ) (fails : Bool)
  deriving DecidableEq, Repr

/-- One step of the observer. -/
def ObserverOp.step (s : SubjectObserverI κ ι σ) : ObserverOp κ ι σ → SubjectObserverI κ ι σ
  | tick seconds => { s with clock := s.clock + seconds }
  | subscribe name subscriber => s.subscribe name subscriber
  | unsubscribe name subscriber => s.doUnsubscribe name subscriber
  | call kind name state =>
    { s with calls := s.calls ++ [⟨kind, name, state, .getSbjTopic, (s.subscribers name).getD []⟩] }
  | resume i failing again =>
    match s.calls[i]? with
    | none => s
    | some c => s.callStep i c failing again
  | handle task fails => s.handle task fails

end Oce.SubjectObserver
