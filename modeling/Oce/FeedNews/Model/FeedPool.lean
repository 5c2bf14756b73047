import Oce.Base.Run
import Oce.FeedNews.Model.Ring

/-!
# The pool of feeds

`FeedPool` has one `Feed` for an id and counts its holders in it. A section under the mutex of a shard
is one event; `Add` and `Get` have two, and between them the handle that they return is
constructed, with a section of its own. A handle is known by the feed that it points to, and the
events of any number of threads come in any order.

An event that the code cannot do, such as the copy of a handle that is not there, leaves the state
as it is. A deleted feed, an index outside the array and a count above an `int` have no defined
result, which is `none`.
-/

set_option autoImplicit false

namespace Oce.FeedNews

/-- A feed of the pool. SOURCE: ItemCache.h:61-72, 134-143 -/
structure CountedFeed extends PoolFeed where
  refCount : ℤ
  deriving DecidableEq, Repr

/-- A call of `Add` or `Get` that has its pointer: the index, `f`, and whether there is `ptr`. -/
structure PoolCall where
  index : ℕ
  feed : ℕ
  constructed : Bool
  deriving DecidableEq, Repr

/-- The feeds by their addresses, the maps of the shards, the handles outside the calls, and the
calls. SOURCE: ItemCache.h:29-47 -/
structure PoolState where
  heap : ℕ → Option CountedFeed
  feedMap : ℕ → ℤ → Option ℕ
  handles : List ℕ
  calls : List PoolCall

namespace PoolState

def new : PoolState := ⟨fun _ => none, fun _ _ => none, [], []⟩

/-- The greatest count. -/
def maxInt : ℤ := 2147483647

/-- `kPoolSize`. SOURCE: ItemCache.h:31 -/
def poolSize : ℕ := 1000

/-- The negation of the least `long` is no `long`. SOURCE: ItemCache.h:40-43 -/
def getIndex (feedId : ℤ) : Option ℕ :=
  let feedId := if 0 < feedId then feedId else 0 - feedId
  if feedId < 2 ^ 63 then some (feedId % poolSize).toNat else none

/-! ## Sections -/

def setFeed (s : PoolState) (f : ℕ) (x : Option CountedFeed) : PoolState :=
  { s with heap := Function.update s.heap f x }

def setMap (s : PoolState) (i : ℕ) (id : ℤ) (f : Option ℕ) : PoolState :=
  { s with feedMap := Function.update s.feedMap i (Function.update (s.feedMap i) id f) }

/-- `++(f->ref_count_)`. -/
def incRef (s : PoolState) (f : ℕ) : Option PoolState :=
  (s.heap f).bind fun x =>
    if x.refCount < maxInt then some (s.setFeed f (some { x with refCount := x.refCount + 1 })) else none

/-- A call has found its feed. -/
def hold (s : PoolState) (i f : ℕ) : Option PoolState :=
  (s.incRef f).map fun s => { s with calls := s.calls ++ [⟨i, f, false⟩] }

/-- The first section of `Add`; `addr` is what `new` returns. SOURCE: ItemCache.cpp:17-32 -/
def add (s : PoolState) (item : RFeedItem) (addr : ℕ) : Option PoolState :=
  (getIndex item.feed).bind fun i =>
    match s.feedMap i item.feed with
    | some f => s.hold i f
    | none =>
      match s.heap addr with
      | some _ => some s
      | none => ((s.setFeed addr (some ⟨.ofItem item, 0⟩)).setMap i item.feed (some addr)).hold i addr

/-- The first section of `Get`. SOURCE: ItemCache.cpp:41-54 -/
def get (s : PoolState) (feedId : ℤ) : Option PoolState :=
  (getIndex feedId).bind fun i =>
    match s.feedMap i feedId with
    | some f => s.hold i f
    | none => some s

/-- SOURCE: ItemCache.cpp:63-70 -/
def inc (s : PoolState) (f : ℕ) : Option PoolState :=
  (s.heap f).bind fun x => (getIndex x.id).bind fun _ => s.incRef f

/-- SOURCE: ItemCache.cpp:72-85 -/
def release (s : PoolState) (f : ℕ) : Option PoolState :=
  (s.heap f).bind fun x =>
    (getIndex x.id).map fun i =>
      if x.refCount - 1 = 0 then (s.setMap i x.id none).setFeed f none
      else s.setFeed f (some { x with refCount := x.refCount - 1 })

/-- A call constructs its handle. SOURCE: ItemCache.cpp:33, 55 -/
def construct (s : PoolState) (k : ℕ) : Option PoolState :=
  match s.calls[k]? with
  | some c =>
    if c.constructed then some s
    else (s.inc c.feed).map fun s => { s with calls := s.calls.set k { c with constructed := true } }
  | none => some s

/-- The second section of `Add` and `Get`; the handle is the caller's then.
SOURCE: ItemCache.cpp:34-38, 56-60 -/
def finish (s : PoolState) (k : ℕ) : Option PoolState :=
  match s.calls[k]? with
  | some c =>
    if c.constructed then
      (s.heap c.feed).map fun x =>
        { s.setFeed c.feed (some { x with refCount := x.refCount - 1 }) with
          calls := s.calls.eraseIdx k
          handles := s.handles ++ [c.feed] }
    else some s
  | none => some s

/-- A handle is copied. SOURCE: ItemCache.h:119-121 -/
def copy (s : PoolState) (k : ℕ) : Option PoolState :=
  match s.handles[k]? with
  | some f => (s.inc f).map fun s => { s with handles := s.handles ++ [f] }
  | none => some s

/-- A handle is destroyed. SOURCE: ItemCache.h:122-124 -/
def destroy (s : PoolState) (k : ℕ) : Option PoolState :=
  match s.handles[k]? with
  | some f => (s.release f).map fun s => { s with handles := s.handles.eraseIdx k }
  | none => some s

/-! ## Events -/

inductive Event where
  | add (item : RFeedItem) (addr : ℕ)
  | get (feedId : ℤ)
  | construct (k : ℕ)
  | finish (k : ℕ)
  | copy (k : ℕ)
  | destroy (k : ℕ)

def event (s : PoolState) : Event → Option PoolState
  | .add item addr => s.add item addr
  | .get feedId => s.get feedId
  | .construct k => s.construct k
  | .finish k => s.finish k
  | .copy k => s.copy k
  | .destroy k => s.destroy k

def step (s : Option PoolState) (e : Event) : Option PoolState := s.bind fun s => s.event e

/-! ## Who holds a feed -/

/-- The handles that there are, in the calls and outside. -/
def liveHandles (s : PoolState) : List ℕ :=
  s.handles ++ (s.calls.filter PoolCall.constructed).map PoolCall.feed

/-- The pointers of the calls. -/
def rawPointers (s : PoolState) : List ℕ := s.calls.map PoolCall.feed

def refs (s : PoolState) (f : ℕ) : ℕ := s.liveHandles.count f + s.rawPointers.count f

/-- One more holder is an `int`. -/
def room (s : PoolState) (f : ℕ) : Prop := (s.refs f : ℤ) < maxInt

instance (s : PoolState) (f : ℕ) : Decidable (s.room f) := inferInstanceAs (Decidable (_ < _))

/-- The id has a shard, and there is room for one more holder of its feed. -/
def fitsId (s : PoolState) (feedId : ℤ) : Prop :=
  feedId.natAbs < 2 ^ 63 ∧ ∀ i ∈ getIndex feedId, ∀ f ∈ s.feedMap i feedId, s.room f

/-- The event names no id but a good one, and makes no holder too many. -/
def fits (s : PoolState) : Event → Prop
  | .add item _ => s.fitsId item.feed
  | .get feedId => s.fitsId feedId
  | .construct k => ∀ c ∈ s.calls[k]?, c.constructed = false → s.room c.feed
  | .finish _ => True
  | .copy k => ∀ f ∈ s.handles[k]?, s.room f
  | .destroy _ => True

end PoolState

end Oce.FeedNews
