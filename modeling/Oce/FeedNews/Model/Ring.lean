import Mathlib.Algebra.Group.Int.Defs
import Mathlib.Algebra.Group.Nat.Defs
import Mathlib.Algebra.Order.Group.Int
import Mathlib.Data.List.Count
import Mathlib.Logic.Function.Basic

/-!
# The ring of live feeds

A list keeps at most 250 feeds, and beside them how many it has of each kind. Before it takes one
more than that it puts the oldest out that is of no important kind or of one with more than 30 feeds.
It is an array of 250 slots. The feeds are in the `size_` slots before `end_`, the oldest
first, and the array goes round. A removal goes from the newest slot down and moves what stays
towards `end_`; `RemoveOldest` goes from the oldest slot up and moves what is older than the feed
it takes by one.

A slot may have no feed, and looking at the feed of such a slot has no defined result, which is
`none`. The feed that the pool returns for an item, or for an id, is given with the call: it is one
that was made before, of any kind, if another handle keeps it.
-/

set_option autoImplicit false

namespace Oce.FeedNews

/-! ## Feeds -/

/-- SOURCE: RFeed.ice, `FeedItem` -/
structure FeedItem where
  feed : ℤ
  merge : ℤ
  type : ℤ
  time : ℤ
  deriving DecidableEq, Repr

/-- SOURCE: ItemCache.h:49-142 -/
structure Feed where
  id : ℤ
  merge : ℤ
  type : ℤ
  deriving DecidableEq, Repr

/-- SOURCE: ItemCache.h:62-72 -/
def Feed.ofItem (item : FeedItem) : Feed := ⟨item.feed, item.merge, item.type⟩

/-- SOURCE: ItemCache.h:84-86 -/
def Feed.smallType (f : Feed) : ℕ := (f.type % 65536).toNat

/-- SOURCE: NewsUtil.h:23-35 -/
def main2comment : List (ℕ × ℕ) := [(601, 2901), (701, 2902), (709, 2906), (712, 2905)]

/-- The other type of feeds that are read together with those of this type.
SOURCE: LiveFeedCache.cpp:107-112 -/
def otherType (stype : ℕ) : ℕ :=
  match main2comment.find? fun p => p.2 = stype with
  | some p => p.1
  | none =>
    match main2comment.find? fun p => p.1 = stype with
    | some p => p.2
    | none => stype

/-- SOURCE: LiveFeedCache.cpp:706-722 -/
def typeIndex (stype : ℕ) : ℕ :=
  match stype / 100 * 100 with
  | 100 => 1
  | 500 => 2
  | 600 => 3
  | 700 => 4
  | 2000 => 5
  | _ => 0

/-- The important kinds are those other than 0. -/
def Feed.index (f : Feed) : ℕ := typeIndex f.smallType

/-! ## The list -/

/-- `COUNT`. SOURCE: LiveFeedCache.h:215 -/
def maxCount : ℕ := 250

/-- `KEY_COUNT`. SOURCE: LiveFeedCache.h:220 -/
def keyCount : ℕ := 30

/-! ## Feeds of the pool -/

/-- SOURCE: RFeed.ice:33-40 -/
structure RFeedItem extends FeedItem where
  weight : BitVec 32
  actor : ℤ

/-- SOURCE: ItemCache.h:61-72, 134-139 -/
structure PoolFeed extends Feed where
  actor : ℤ
  time : ℤ
  deriving DecidableEq, Repr

def PoolFeed.ofItem (item : RFeedItem) : PoolFeed := ⟨.ofItem item.toFeedItem, item.actor, item.time⟩

/-- What `FeedPool::Add` returns when the pool has `known` for the id. SOURCE: ItemCache.cpp:17-38 -/
def PoolFeed.add (known : Option PoolFeed) (item : RFeedItem) : PoolFeed := known.getD (.ofItem item)

/-! ## Slots -/

/-- SOURCE: LiveFeedCache.h:22-99 -/
structure LiveFeedItem where
  feed : Option PoolFeed
  weight : BitVec 32
  time : ℤ
  deriving DecidableEq, Repr

namespace LiveFeedItem

/-- SOURCE: LiveFeedCache.h:24-27 -/
def new (feed : PoolFeed) (weight : BitVec 32) (time : ℤ) : LiveFeedItem :=
  ⟨some feed, weight &&& 0xFFFF0000#32, time⟩

/-- SOURCE: LiveFeedCache.h:46-52 -/
def setUpdateTime (x : LiveFeedItem) (up : Bool) : LiveFeedItem :=
  { x with weight := if up then x.weight ||| 0x02#32 else x.weight &&& 0xFFFFFFFD#32 }

/-- SOURCE: LiveFeedCache.h:53-55 -/
def isUpdateTime (x : LiveFeedItem) : Bool := x.weight &&& 0x02#32 ≠ 0#32

/-- SOURCE: LiveFeedCache.h:57-65 -/
def isRandomed (x : LiveFeedItem) : Bool := x.weight &&& 0x04#32 ≠ 0#32

def setRandomed (x : LiveFeedItem) : LiveFeedItem := { x with weight := x.weight ||| 0x04#32 }

def clearRandomed (x : LiveFeedItem) : LiveFeedItem := { x with weight := x.weight &&& 0xFFFFFFFB#32 }

/-- SOURCE: LiveFeedCache.h:67-74 -/
def incViewedCount (x : LiveFeedItem) : LiveFeedItem :=
  let tmp := (x.weight &&& 0xFF00#32).sshiftRight 8 + 1#32
  let tmp := if 0xFF < tmp.toInt then 0xFF#32 else tmp
  { x with weight := (x.weight &&& 0xFFFF00FF#32) ||| (tmp <<< 8) }

/-- SOURCE: LiveFeedCache.h:75-77 -/
def getViewedCount (x : LiveFeedItem) : ℤ := ((x.weight &&& 0xFF00#32).sshiftRight 8).toInt

end LiveFeedItem

/-! ## The ring -/

/-- `INIT_VIEWED_COUNT`. SOURCE: LiveFeedCache.h:218 -/
def initViewedCount : ℕ := 2

/-- SOURCE: LiveFeedCache.h:213-231, 305-311 -/
structure LiveFeedRing where
  feeds : ℕ → LiveFeedItem
  size : ℤ
  endPos : ℕ
  partSize : ℕ → ℤ

namespace LiveFeedRing

/-- SOURCE: LiveFeedCache.h:223-231 -/
def new : LiveFeedRing := ⟨fun _ => ⟨none, 0#32, 0⟩, 0, 0, fun _ => 0⟩

/-- Its argument is not below `-COUNT` anywhere. SOURCE: LiveFeedCache.h:293-295 -/
def mod (i : ℤ) : ℕ := ((i + maxCount) % maxCount).toNat

def setFeed (r : LiveFeedRing) (i : ℕ) (x : LiveFeedItem) : LiveFeedRing :=
  { r with feeds := Function.update r.feeds i x }

/-- `feeds_[i].feed_ = 0`. -/
def clearFeed (r : LiveFeedRing) (i : ℕ) : LiveFeedRing :=
  r.setFeed i { r.feeds i with feed := none }

/-- SOURCE: LiveFeedCache.h:284-287 -/
def incPartSize (r : LiveFeedRing) (feed : PoolFeed) (step : ℤ) : LiveFeedRing :=
  { r with partSize := Function.update r.partSize feed.index (r.partSize feed.index + step) }

/-! ### Removals -/

/-- What the loop of a removal works on. -/
structure Compaction where
  ring : LiveFeedRing
  first : ℤ
  feedids : List ℤ

/-- One round of the loop of a removal of the feeds that `p` chooses.
SOURCE: LiveFeedCache.cpp:116-137, 163-180 -/
def compactAt (p : PoolFeed → Bool) (s : Compaction) (i : ℕ) : Option Compaction :=
  (s.ring.feeds (i % maxCount)).feed.map fun feed =>
    if 0 < s.first then
      if p feed then
        { s with
          ring := { (s.ring.clearFeed (i % maxCount)).incPartSize feed (-1) with size := s.ring.size - 1 }
          feedids := s.feedids ++ [feed.id] }
      else
        { s with
          ring := (s.ring.setFeed (s.first.toNat % maxCount) (s.ring.feeds (i % maxCount))).clearFeed
            (i % maxCount)
          first := s.first - 1 }
    else if p feed then
      { ring := { s.ring.incPartSize feed (-1) with size := s.ring.size - 1 }
        first := i
        feedids := s.feedids ++ [feed.id] }
    else s

/-- The loop, with the `n` slots from `end_` on left. SOURCE: LiveFeedCache.cpp:113-137, 159-180 -/
def compactLoop (p : PoolFeed → Bool) (endPos : ℕ) (size : ℤ) : ℕ → Compaction → Option Compaction
  | 0, s => some s
  | n + 1, s =>
    if (maxCount : ℤ) - (n + 1) < size then (compactAt p s (endPos + n)).bind (compactLoop p endPos size n)
    else some s

/-- A removal of the feeds that `p` chooses. -/
def compact (r : LiveFeedRing) (p : PoolFeed → Bool) : Option (List ℤ × LiveFeedRing) :=
  (compactLoop p r.endPos r.size maxCount ⟨r, -1, []⟩).map fun s => (s.feedids, s.ring)

/-- The other type of feeds that go with those of this type. SOURCE: LiveFeedCache.cpp:107-112 -/
def other (stype : ℤ) : ℤ := if 0 ≤ stype then otherType stype.toNat else stype

/-- SOURCE: LiveFeedCache.cpp:119-120, 130-131 -/
def chosen (stype merge : ℤ) (feed : PoolFeed) : Bool :=
  ((feed.smallType : ℤ) = stype ∨ (feed.smallType : ℤ) = other stype) ∧ feed.merge = merge

/-- SOURCE: LiveFeedCache.cpp:104-140 -/
def remove (r : LiveFeedRing) (stype merge : ℤ) : Option (List ℤ × LiveFeedRing) :=
  r.compact (chosen stype merge)

/-- `known` is what the pool has for the id. SOURCE: LiveFeedCache.cpp:142-148 -/
def removeFeed (r : LiveFeedRing) (known : Option PoolFeed) : Option (List ℤ × LiveFeedRing) :=
  match known with
  | none => some ([], r)
  | some feed => r.remove feed.smallType feed.merge

/-- SOURCE: LiveFeedCache.cpp:158-182 -/
def removeExactly (r : LiveFeedRing) (fids : List ℤ) : Option LiveFeedRing :=
  (r.compact fun feed => decide (feed.id ∈ fids)).map Prod.snd

/-- SOURCE: LiveFeedCache.cpp:150-156 -/
def removeAll (r : LiveFeedRing) : LiveFeedRing :=
  { r with size := 0, endPos := 0, partSize := fun _ => 0 }

/-! ### Adding -/

/-- The loop moves the slots before `del_idx` by one, up to `begin_idx`; `none` if it is not there
after a round. SOURCE: LiveFeedCache.h:296-302 -/
def shiftLoop (first : ℕ) : ℕ → ℕ → (ℕ → LiveFeedItem) → Option (ℕ → LiveFeedItem)
  | 0, _, _ => none
  | fuel + 1, i, feeds =>
    if i = first then some feeds
    else
      shiftLoop first fuel (mod ((i : ℤ) - 1)) (Function.update feeds (mod i) (feeds (mod ((i : ℤ) - 1))))

def shiftItems (r : LiveFeedRing) (del first : ℕ) : Option LiveFeedRing :=
  (shiftLoop (mod first) maxCount (mod del) r.feeds).map fun feeds => { r with feeds := feeds }

/-- SOURCE: LiveFeedCache.cpp:760 -/
def removable (r : LiveFeedRing) (feed : PoolFeed) : Bool :=
  feed.index = 0 ∨ (keyCount : ℤ) < r.partSize feed.index

/-- The scan from the oldest slot: the first feed that may go, its slot and how many it has passed.
SOURCE: LiveFeedCache.cpp:757-770 -/
def scan (r : LiveFeedRing) : ℕ → ℕ → ℕ → Option (Option (PoolFeed × ℕ × ℕ))
  | 0, _, _ => some none
  | n + 1, cur, consumed =>
    (r.feeds cur).feed.bind fun feed =>
      if r.removable feed then some (some (feed, cur, consumed))
      else scan r n (mod ((cur : ℤ) + 1)) (consumed + 1)

/-- SOURCE: LiveFeedCache.cpp:753-782 -/
def removeOldest (r : LiveFeedRing) : Option LiveFeedRing :=
  let first := mod ((r.endPos : ℤ) - r.size)
  (r.scan r.size.toNat first 0).bind fun found =>
    match found with
    | some (feed, cur, consumed) =>
      let r := { r.incPartSize feed (-1) with size := r.size - 1 }
      if 0 < consumed then r.shiftItems cur first else some r
    | none =>
      (r.feeds first).feed.map fun feed => { r.incPartSize feed (-1) with size := r.size - 1 }

/-- The slot of a new feed. SOURCE: LiveFeedCache.cpp:740-747 -/
def entered (x : LiveFeedItem) (updatetime checkenter : Bool) : LiveFeedItem :=
  let x := x.setUpdateTime updatetime
  if checkenter then x else Nat.iterate LiveFeedItem.incViewedCount initViewedCount x

/-- SOURCE: LiveFeedCache.cpp:730-751 -/
def add2 (r : LiveFeedRing) (feed : PoolFeed) (x : LiveFeedItem) : Option LiveFeedRing :=
  (if (maxCount : ℤ) ≤ r.size then r.removeOldest else some r).map fun r =>
    { (r.setFeed r.endPos x).incPartSize feed 1 with
      size := r.size + 1
      endPos := mod ((r.endPos : ℤ) + 1) }

/-- `known` is what the pool has for the id. SOURCE: LiveFeedCache.cpp:16-21 -/
def add (r : LiveFeedRing) (known : Option PoolFeed) (item : RFeedItem) (updatetime checkenter : Bool) :
    Option LiveFeedRing :=
  let feed := PoolFeed.add known item
  r.add2 feed (entered (.new feed item.weight item.time) updatetime checkenter)

end LiveFeedRing

/-! ## Calls -/

inductive RingOp where
  | add (known : Option PoolFeed) (item : RFeedItem) (updatetime checkenter : Bool)
  | remove (stype merge : ℤ)
  | removeFeed (known : Option PoolFeed)
  | removeExactly (fids : List ℤ)
  | removeAll

namespace RingOp

/-- A call, with the ids that it returns. -/
def step (r : LiveFeedRing) : RingOp → Option (List ℤ × LiveFeedRing)
  | add known item updatetime checkenter => (r.add known item updatetime checkenter).map ([], ·)
  | remove stype merge => r.remove stype merge
  | removeFeed known => r.removeFeed known
  | removeExactly fids => (r.removeExactly fids).map ([], ·)
  | removeAll => some ([], r.removeAll)

def run (r : LiveFeedRing) : List RingOp → Option LiveFeedRing
  | [] => some r
  | op :: ops => (op.step r).bind fun s => run s.2 ops

end RingOp

end Oce.FeedNews
