import Oce.UtilCxx.Model.Evictor

/-!
# The timed evictor

A `TimedEvictor` has the map and the queue of `EvictorQueue`, and with each object the time of its
last use. What is too old is evicted from the back of the queue, where a time that is too old is
handed on as an `int`. The queue holds iterators of the map, which are its keys here; an iterator
of a key that is gone, and a place that is not that of the back, have no defined result.
-/

set_option autoImplicit false


namespace Oce.UtilCxx

variable {κ α : Type*} [DecidableEq κ]

/-- An object with the time of its last use. SOURCE: Evictor.h:174-185 -/
structure Timed (α : Type*) where
  obj : α
  timestamp : ℤ
  deriving DecidableEq

/-- SOURCE: Evictor.h:182-184 -/
def Timed.expired (t : Timed α) (lastTime : ℤ) : Bool := t.timestamp < Base.asInt lastTime

/-- SOURCE: Evictor.h:167-195, 302-307 -/
structure TimedEvictor (κ α : Type*) where
  map : EvictorMap κ (Timed α)
  queue : EvictorQueue κ
  duration : ℤ

namespace TimedEvictor

def new (duration : ℤ) : TimedEvictor κ α := ⟨∅, ⟨[], 0⟩, duration⟩

/-- The queue gets a node for the key, and the map its place and the time. SOURCE: Evictor.h:297-300 -/
def hook (e : TimedEvictor κ α) (id : κ) (obj : α) (now : ℤ) : TimedEvictor κ α :=
  let r := e.queue.pushFront id
  { e with map := e.map.insert id ⟨⟨obj, now⟩, r.1⟩, queue := r.2 }

/-- The loop of `evict`, with the back of the queue first. SOURCE: Evictor.h:285-293 -/
def evictLoop (lastTime : ℤ) (map : EvictorMap κ (Timed α)) :
    List (ℕ × κ) → Option (EvictorMap κ (Timed α) × List (ℕ × κ))
  | [] => some (map, [])
  | n :: nodes =>
    match map.lookup n.2 with
    | none => none
    | some entry =>
      if entry.obj.expired lastTime then
        if entry.pos = n.1 then evictLoop lastTime (map.erase n.2) nodes else none
      else some (map, n :: nodes)

/-- SOURCE: Evictor.h:280-295 -/
def evict (e : TimedEvictor κ α) (now : ℤ) : Option (TimedEvictor κ α) :=
  if 0 < e.duration then
    (evictLoop (now - e.duration) e.map e.queue.nodes.reverse).map fun r =>
      { e with map := r.1, queue := { e.queue with nodes := r.2.reverse } }
  else some e

/-- SOURCE: Evictor.h:218-229 -/
def find (e : TimedEvictor κ α) (id : κ) (dflt : α) : α :=
  match e.map.lookup id with
  | some entry => entry.obj.obj
  | none => dflt

/-- SOURCE: Evictor.h:201-216 -/
def locate (e : TimedEvictor κ α) (id : κ) (dflt : α) (now : ℤ) : Option (α × TimedEvictor κ α) :=
  match e.map.lookup id with
  | some entry =>
    (e.queue.erase entry.pos).map fun q => (entry.obj.obj, { e with queue := q }.hook id entry.obj.obj now)
  | none => some (dflt, e)

/-- A key that is there is taken out of both, so that the second round inserts it; the clock is read
at the beginning and once more to evict. SOURCE: Evictor.h:231-249 -/
def add (e : TimedEvictor κ α) (obj : α) (id : κ) (now now' : ℤ) : Option (TimedEvictor κ α) :=
  match e.map.lookup id with
  | none => (e.hook id obj now).evict now'
  | some entry =>
    match e.queue.erase entry.pos with
    | none => none
    | some q => ({ e with map := e.map.erase id, queue := q }.hook id obj now).evict now'

/-- SOURCE: Evictor.h:251-261 -/
def remove (e : TimedEvictor κ α) (id : κ) : Option (Option α × TimedEvictor κ α) :=
  match e.map.lookup id with
  | some entry =>
    (e.queue.erase entry.pos).map fun q =>
      (some entry.obj.obj, { e with map := e.map.erase id, queue := q })
  | none => some (none, e)

/-- SOURCE: Evictor.h:263-267 -/
def clear (e : TimedEvictor κ α) : TimedEvictor κ α :=
  { e with map := ∅, queue := { e.queue with nodes := [] } }

/-- SOURCE: Evictor.h:197-199 -/
def setDuration (e : TimedEvictor κ α) (duration : ℤ) : TimedEvictor κ α := { e with duration := duration }

end TimedEvictor

/-! ## Calls -/

/-- The calls, with the times that the clock tells in them. -/
inductive TimedOp (κ α : Type*) where
  | add (obj : α) (id : κ) (now now' : ℤ)
  | locate (id : κ) (dflt : α) (now : ℤ)
  | find (id : κ) (dflt : α)
  | remove (id : κ)
  | clear
  | duration (d : ℤ)

namespace TimedOp

/-- What the clock tells in a call. -/
def readings : TimedOp κ α → List ℤ
  | add _ _ now now' => [now, now']
  | locate _ _ now => [now]
  | _ => []

/-- A call of the evictor, with the object that it returns. -/
def step (e : TimedEvictor κ α) : TimedOp κ α → Option (Option α × TimedEvictor κ α)
  | add obj id now now' => (e.add obj id now now').map (none, ·)
  | locate id dflt now => (e.locate id dflt now).map fun r => (some r.1, r.2)
  | find id dflt => some (some (e.find id dflt), e)
  | remove id => e.remove id
  | clear => some (none, e.clear)
  | duration d => some (none, e.setDuration d)

end TimedOp

end Oce.UtilCxx
