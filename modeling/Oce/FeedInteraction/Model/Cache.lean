import Mathlib.Algebra.Group.Int.Defs
import Mathlib.Algebra.Group.Nat.Defs
import Mathlib.Data.Int.Order.Basic
import Mathlib.Logic.Function.Basic
import Oce.Base.OrdMap
import Oce.Base.Run

/-!
# The interaction counts of feeds

A feed's clicks, replies and views are packed into one 64 bit number of its cache slot: the
clicks in the low 16 bits, the replies in the next 16, the views from bit 32 on. A slot holds
the feed that came last of those that share it. What changes goes into the dirty map as well,
which is written to the table from time to time; the table is written at once here, before it
is read again. The map and the table are split a hundred ways by the id, which is left out.

`made` is not in the source: the calls of `Inc` for each feed since it was added.
-/

set_option autoImplicit false

namespace Oce.FeedInteraction

open Function Oce.Base

/-! ## Items -/

/-- SOURCE: FeedInteractionI.h:68-73 -/
structure CacheItem where
  feed : ℤ
  range : ℤ
  count : ℤ
  deriving DecidableEq, Repr

/-- SOURCE: FeedInteractionI.h:71 -/
def CacheItem.new : CacheItem := ⟨-1, -1, -1⟩

/-- SOURCE: FeedInteractionI.h:82-94 -/
structure DbItem where
  feed : ℤ
  replyCount : ℤ
  clickCount : ℤ
  viewCount : ℤ
  range : ℤ
  actor : ℤ
  time : ℤ
  deriving DecidableEq, Repr

/-- A number as it is in an `Ice::Int`. -/
def toInt32 (n : ℤ) : ℤ := n.bmod (2 ^ 32)

/-- SOURCE: FeedInteractionI.h:28 -/
def kCacheSize : ℤ := 100000000

/-- SOURCE: FeedInteractionI.h:60-61 -/
def kReplyCountStep : ℤ := 2 ^ 16

def kViewCountStep : ℤ := 2 ^ 32

/-- SOURCE: FeedInteractionI.h:119-121 -/
def getCacheIndex (feed : ℤ) : ℤ := (feed.tdiv 10).tmod kCacheSize

/-- The item of a dirty entry, without its views; the sum is one of `Ice::Int`s.
SOURCE: FeedInteractionI.cpp:159-163 -/
def itemOfDirty (d : DbItem) : CacheItem :=
  ⟨d.feed, d.range, toInt32 (d.replyCount * 2 ^ 16 + d.clickCount)⟩

/-- The item of a row. SOURCE: FeedInteractionI.cpp:211-216, 792-797 -/
def itemOfRow (d : DbItem) : CacheItem :=
  ⟨d.feed, d.range, (BitVec.ofInt 64 d.viewCount <<< 32 ||| BitVec.ofInt 64 d.replyCount <<< 16 |||
    BitVec.ofInt 64 d.clickCount).toInt⟩

/-- The entry of an item. SOURCE: FeedInteractionI.cpp:337-341 -/
def entryOf (item : CacheItem) : DbItem where
  feed := item.feed
  clickCount := item.count % 2 ^ 16
  replyCount := item.count / 2 ^ 16 % 2 ^ 16
  viewCount := toInt32 (item.count / 2 ^ 32)
  range := -1
  actor := -1
  time := -1

/-- The larger of each count. SOURCE: FeedInteractionI.cpp:344-354 -/
def DbItem.raise (d new : DbItem) : DbItem :=
  { d with
    replyCount := if d.replyCount < new.replyCount then new.replyCount else d.replyCount
    clickCount := if d.clickCount < new.clickCount then new.clickCount else d.clickCount
    viewCount := if d.viewCount < new.viewCount then new.viewCount else d.viewCount }

/-- The row with the counts of the entry. SOURCE: FeedInteractionI.cpp:401-415 -/
def DbItem.save (d : DbItem) (row : Option DbItem) : DbItem :=
  match row with
  | none => d
  | some row =>
    { row with
      replyCount := d.replyCount
      clickCount := d.clickCount
      viewCount := d.viewCount }

/-! ## The service -/

/-- The calls of `Inc` of each type. -/
structure Tally where
  clicks : ℕ
  replies : ℕ
  views : ℕ
  deriving DecidableEq, Repr

/-- One more call of a type. -/
def Tally.inc (t : Tally) (type : ℕ) : Tally where
  clicks := if type = 1 then t.clicks + 1 else t.clicks
  replies := if type = 2 then t.replies + 1 else t.replies
  views := if type = 3 then t.views + 1 else t.views

/-- The cache, the dirty map and the table, and the queues of `UpdateTimer`. -/
structure Service where
  slots : ℤ → CacheItem
  dirty : ℤ → Option DbItem
  table : ℤ → Option DbItem
  clicks : List ℤ
  replys : List ℤ
  made : ℤ → Option Tally

namespace Service

/-- SOURCE: FeedInteractionI.cpp:81-85 -/
def new : Service where
  slots _ := { CacheItem.new with feed := 0 }
  dirty _ := none
  table _ := none
  clicks := []
  replys := []
  made _ := none

/-- The slot that a feed goes to. -/
def slot (s : Service) (feed : ℤ) : CacheItem := s.slots (getCacheIndex feed)

def setSlot (s : Service) (feed : ℤ) (item : CacheItem) : Service :=
  { s with slots := update s.slots (getCacheIndex feed) item }

/-- SOURCE: FeedInteractionI.cpp:137-146 -/
def isHitted (s : Service) (feed : ℤ) : Bool := feed = (s.slot feed).feed

/-- SOURCE: FeedInteractionI.cpp:149-223 -/
def queryCacheItemFromDb (s : Service) (feed : ℤ) : CacheItem :=
  match s.dirty feed with
  | some d => itemOfDirty d
  | none =>
    match s.table feed with
    | some row => itemOfRow row
    | none => .new

/-- SOURCE: FeedInteractionI.cpp:275-301 -/
def updateCache (s : Service) (feed : ℤ) (type : ℕ) : Service :=
  let item := s.slot feed
  s.setSlot feed { item with count :=
    if type = 1 then item.count + 1
    else if type = 2 then item.count + kReplyCountStep
    else if type = 3 then item.count + kViewCountStep
    else item.count }

/-- SOURCE: FeedInteractionI.cpp:335-358 -/
def markDirty (s : Service) (feed : ℤ) (item : CacheItem) : Service :=
  { s with dirty := update s.dirty feed (some
      (match s.dirty feed with
      | some d => d.raise (entryOf item)
      | none => entryOf item)) }

/-- SOURCE: FeedInteractionI.cpp:303-367 -/
def updateFeedInteraction (s : Service) (feed : ℤ) (type : ℕ) (load : Bool) : Bool × Service :=
  if s.isHitted feed then
    let s' := s.updateCache feed type
    (true, s'.markDirty feed (s'.slot feed))
  else if load then
    let item := s.queryCacheItemFromDb feed
    if item.feed = -1 then (true, s)
    else
      let s' := if (s.slot feed).feed ≠ item.feed then s.setSlot feed item else s
      let s'' := s'.updateCache feed type
      (true, s''.markDirty feed (s''.slot feed))
  else (false, s)

/-- SOURCE: FeedInteractionI.cpp:86-134 -/
def insertFeedInteraction (s : Service) (feed actor range time : ℤ) : Service :=
  if s.isHitted feed then s
  else if (s.queryCacheItemFromDb feed).feed = feed then s
  else
    { s.setSlot feed ⟨feed, range, 0⟩ with
      dirty := update s.dirty feed (some ⟨feed, 0, 0, 0, range, actor, time⟩) }

/-- The item that is found, and the cache. SOURCE: FeedInteractionI.cpp:460-486 -/
def findFeedInteraction (s : Service) (feed : ℤ) : CacheItem × Service :=
  if s.isHitted feed then (s.slot feed, s)
  else
    let item := s.queryCacheItemFromDb feed
    (item, if item.feed < 0 then s else s.setSlot feed item)

/-- What comes back of a query for many feeds: the dirty ones, then the rows in the order of
their ids, those of `arrived` that do not come too late. SOURCE: FeedInteractionI.cpp:225-273 -/
def queryCacheItems (s : Service) (arrived : ℤ → Bool) (feeds : List ℤ) : List CacheItem :=
  (feeds.filterMap fun feed => (s.dirty feed).map itemOfDirty) ++
    feeds.filterMap fun feed =>
      if (s.dirty feed).isNone ∧ arrived feed then (s.table feed).map itemOfRow else none

/-- SOURCE: FeedInteractionI.cpp:512-526 -/
def storeItem (s : Service) (item : CacheItem) : Service :=
  if item.feed < 0 then s else s.setSlot item.feed item

/-- The cache after a query for many feeds. SOURCE: FeedInteractionI.cpp:488-530 -/
def findFeedInteractions (s : Service) (arrived : ℤ → Bool) (feeds : List ℤ) : Service :=
  (s.queryCacheItems arrived (feeds.filter fun feed => ¬ s.isHitted feed)).foldl storeItem s

/-- SOURCE: FeedInteractionI.cpp:435-455 -/
def clearDirtyCache (s : Service) : Service :=
  { s with
    dirty := fun _ => none
    table := fun feed =>
      match s.dirty feed with
      | some d => some (d.save (s.table feed))
      | none => s.table feed }

/-! ## The calls -/

/-- The calls that are made for feeds that have been added. -/
def tally (s : Service) (feed : ℤ) (type : ℕ) : Service :=
  { s with made := update s.made feed ((s.made feed).map fun t => t.inc type) }

/-- SOURCE: FeedInteractionI.cpp:617-626 -/
def addFeedInteraction (s : Service) (feed actor range time : ℤ) : Service :=
  { s.insertFeedInteraction feed actor range time with
    made := update s.made feed (some ((s.made feed).getD ⟨0, 0, 0⟩)) }

/-- SOURCE: FeedInteractionI.cpp:650-661 -/
def inc (s : Service) (type : ℕ) (feed : ℤ) : Service :=
  let r := s.updateFeedInteraction feed type false
  let s' := r.2.tally feed type
  if r.1 then s'
  else if type = 1 then { s' with clicks := s'.clicks ++ [feed] }
  else if type = 2 then { s' with replys := s'.replys ++ [feed] }
  else s'

/-- The queued ids in ascending order. SOURCE: FeedInteractionI.cpp:814-820 -/
def idset (clicks replys : List ℤ) : List ℤ :=
  ((OrdMap.empty (κ := ℤ)).insertAll ((clicks ++ replys).map fun feed => (feed, ()))).entries.map Prod.fst

/-- SOURCE: FeedInteractionI.cpp:804-845 -/
def handle (s : Service) (arrived : ℤ → Bool) : Service :=
  let s' : Service := { s with clicks := [], replys := [] }
  let tmp := (idset s.clicks s.replys).filter fun feed => ¬ s'.isHitted feed
  if tmp = [] then s'
  else
    let loaded := s'.findFeedInteractions arrived tmp
    let clicked := s.clicks.foldl (fun s feed => (s.updateFeedInteraction feed 1 true).2) loaded
    s.replys.foldl (fun s feed => (s.updateFeedInteraction feed 2 true).2) clicked

/-- The clicks and the replies, and the cache. SOURCE: FeedInteractionI.cpp:672-688 -/
def getFeedInteractionCount (s : Service) (feed : ℤ) : (ℤ × ℤ) × Service :=
  let r := s.findFeedInteraction feed
  ((r.1.count % 2 ^ 16, toInt32 (r.1.count / 2 ^ 16)), r.2)

end Service

/-- What is done to the service. -/
inductive ServiceOp where
  | addFeedInteraction (feed actor range time : ℤ)
  | inc (type : ℕ) (feed : ℤ)
  | handle (arrived : ℤ → Bool)
  | getFeedInteractionCount (feed : ℤ)
  | clearDirtyCache

/-- One step of the service. -/
def ServiceOp.step (s : Service) : ServiceOp → Service
  | addFeedInteraction feed actor range time => s.addFeedInteraction feed actor range time
  | inc type feed => s.inc type feed
  | handle arrived => s.handle arrived
  | getFeedInteractionCount feed => (s.getFeedInteractionCount feed).2
  | clearDirtyCache => s.clearDirtyCache

end Oce.FeedInteraction
