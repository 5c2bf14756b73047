import Mathlib.Algebra.Order.Group.Int
import Mathlib.Logic.Function.Basic

/-!
# The feeds of a user

`UserFeed` is an array of 250 slots that goes round, the newest feed before `_end`. A feed that is
removed leaves its slot with the id 0 and its other fields as they were. Every loop goes from the
newest slot down, `n` slots from `_end` on being left, until it has met as many feeds as `_size`
says. A removal that finds enough feeds removed before it, and every rejection, goes through all
feeds and moves what is left towards the newest slot (`start` is `begin` there).
-/

set_option autoImplicit false

namespace Oce.FeedCacheN

/-- SOURCE: RFeed.ice:33-40 -/
structure FeedItem where
  feed : ℤ
  merge : ℤ
  type : ℤ
  time : ℤ
  weight : ℤ
  actor : ℤ
  deriving DecidableEq, Repr

namespace FeedItem

/-- A slot after `memset`. -/
def zero : FeedItem := ⟨0, 0, 0, 0, 0, 0⟩

/-- `item.type & 0xffff`. -/
def stype (item : FeedItem) : ℤ := item.type % 65536

/-- `_feeds[i].feed = 0`. -/
def cleared (item : FeedItem) : FeedItem := { item with feed := 0 }

/-- SOURCE: FeedCacheI.cpp:175 -/
def merges (mergeId stype : ℤ) (item : FeedItem) : Bool := item.merge = mergeId ∧ item.stype = stype

end FeedItem

/-- `FEED_COUNT`. SOURCE: FeedCacheI.h:46 -/
def feedCount : ℕ := 250

/-- SOURCE: FeedCacheI.h:44-77 -/
structure UserFeed where
  feeds : ℕ → FeedItem
  endPos : ℕ
  size : ℤ
  deletedCount : ℤ

namespace UserFeed

/-- SOURCE: FeedCacheI.h:47-53 -/
def new : UserFeed := ⟨fun _ => .zero, 0, 0, 0⟩

/-- The slot that is `n` slots after `_end`. -/
def slot (u : UserFeed) (n : ℕ) : ℕ := (u.endPos + n) % feedCount

/-- What is in that slot. -/
def look (u : UserFeed) (n : ℕ) : FeedItem := u.feeds (u.slot n)

/-- `_feeds[i%FEED_COUNT] = item`. -/
def setAt (u : UserFeed) (i : ℕ) (item : FeedItem) : UserFeed :=
  { u with feeds := Function.update u.feeds (i % feedCount) item }

def setSlot (u : UserFeed) (n : ℕ) (item : FeedItem) : UserFeed := u.setAt (u.endPos + n) item

/-- Whether the feeds are as many as there is room for, and the feeds.
SOURCE: FeedCacheI.cpp:35-53 -/
def put (u : UserFeed) (item : FeedItem) : Bool × UserFeed :=
  if item.feed ≤ 0 then (false, u)
  else
    let size := if (u.look 0).feed = 0 then min (u.size + 1) feedCount else u.size
    (feedCount ≤ size,
      { u.setSlot 0 item with endPos := (u.endPos + 1) % feedCount, size := size })

/-- SOURCE: FeedCacheI.cpp:63-74 -/
def modifyLoop (u : UserFeed) (item : FeedItem) : ℕ → ℤ → UserFeed
  | 0, _ => u
  | n + 1, c =>
    if c < u.size then
      if (u.look n).feed = item.feed then u.setSlot n item
      else modifyLoop u item n (if (u.look n).feed ≠ 0 then c + 1 else c)
    else u

/-- SOURCE: FeedCacheI.cpp:55-76 -/
def modify (u : UserFeed) (item : FeedItem) : UserFeed :=
  if item.feed = 0 then u else u.modifyLoop item feedCount 0

/-- SOURCE: FeedCacheI.cpp:83-90 -/
def getMoreLoop (u : UserFeed) (maxFeed : ℤ) : ℕ → ℤ → List FeedItem
  | 0, _ => []
  | n + 1, c =>
    if c < u.size then
      if (u.look n).feed ≠ 0 then
        (if (u.look n).feed > maxFeed then [u.look n] else []) ++ getMoreLoop u maxFeed n (c + 1)
      else getMoreLoop u maxFeed n c
    else []

/-- SOURCE: FeedCacheI.cpp:79-93 -/
def getMore (u : UserFeed) (maxFeed : ℤ) : List FeedItem := u.getMoreLoop maxFeed feedCount 0

/-! ## Removals -/

/-- What the loop of a removal works on; `taken` is how often it has cleared a slot.
SOURCE: FeedCacheI.cpp:117-119, 232-234 -/
structure Sweep where
  user : UserFeed
  start : ℤ
  taken : ℕ
  count : ℤ

/-- The slot `n` is the first free one, or its feed moves to the first free one.
SOURCE: FeedCacheI.cpp:133-142, 242-250 -/
def Sweep.tidyAt (s : Sweep) (n : ℕ) : Sweep :=
  let start := if s.start = -1 ∧ (s.user.look n).feed = 0 then (s.user.endPos + n : ℤ) else s.start
  if 0 < start ∧ 0 < (s.user.look n).feed then
    { s with
      user := (s.user.setAt start.toNat (s.user.look n)).setSlot n (s.user.look n).cleared
      start := start - 1 }
  else { s with start := start }

/-- The loop of a removal of what `p` says; one that does not tidy ends with the first.
SOURCE: FeedCacheI.cpp:120-143, 235-251 -/
def sweepLoop (p : ℤ → Bool) (tidy : Bool) (size : ℤ) : ℕ → Sweep → Sweep
  | 0, s => s
  | n + 1, s =>
    if s.count < size then
      let s := { s with count := if 0 < (s.user.look n).feed then s.count + 1 else s.count }
      if p (s.user.look n).feed then
        let s := { s with user := s.user.setSlot n (s.user.look n).cleared, taken := s.taken + 1 }
        if tidy then sweepLoop p tidy size n (s.tidyAt n) else s
      else sweepLoop p tidy size n (if tidy then s.tidyAt n else s)
    else s

/-- `deletedCount` is that of the configuration. SOURCE: FeedCacheI.cpp:111-151 -/
def remove (u : UserFeed) (deletedCount feedId : ℤ) : UserFeed :=
  if feedId = 0 then u
  else
    let tidy : Bool := deletedCount ≤ u.deletedCount
    let s := sweepLoop (fun feed => feed = feedId) tidy u.size feedCount ⟨u, -1, 0, 0⟩
    { s.user with
      size := if 0 < s.taken then u.size - 1 else u.size
      deletedCount :=
        if tidy then 0 else if 0 < s.taken then u.deletedCount + 1 else u.deletedCount }

/-- SOURCE: FeedCacheI.cpp:155-161 -/
def removeAll (_ : UserFeed) : UserFeed := new

/-- The ids of what merges, those of empty slots among them. SOURCE: FeedCacheI.cpp:168-178 -/
def mergeLoop (u : UserFeed) (mergeId stype : ℤ) : ℕ → ℤ → List ℤ
  | 0, _ => []
  | n + 1, c =>
    if c < u.size then
      (if (u.look n).merges mergeId stype then [(u.look n).feed] else []) ++
        mergeLoop u mergeId stype n (if (u.look n).feed ≠ 0 then c + 1 else c)
    else []

/-- SOURCE: FeedCacheI.cpp:163-187 -/
def removeByMerge (u : UserFeed) (deletedCount mergeId stype : ℤ) : List ℤ × UserFeed :=
  let deletedIds := u.mergeLoop mergeId stype feedCount 0
  (deletedIds, deletedIds.foldl (fun u feedId => u.remove deletedCount feedId) u)

/-- The first slot with that id. SOURCE: FeedCacheI.cpp:198-212 -/
def findLoop (u : UserFeed) (feedId : ℤ) : ℕ → ℤ → Option FeedItem
  | 0, _ => none
  | n + 1, c =>
    if c < u.size then
      if (u.look n).feed = feedId then some (u.look n)
      else findLoop u feedId n (if (u.look n).feed ≠ 0 then c + 1 else c)
    else none

/-- A merge id of -1 is taken for none. SOURCE: FeedCacheI.cpp:189-223 -/
def removeMergeByFeedId (u : UserFeed) (deletedCount feedId : ℤ) : List ℤ × UserFeed :=
  match u.findLoop feedId feedCount 0 with
  | none => ([], u)
  | some item =>
    if item.merge = -1 then ([], u) else u.removeByMerge deletedCount item.merge item.stype

/-- SOURCE: FeedCacheI.cpp:225-260 -/
def reject (u : UserFeed) (rejectedIds : List ℤ) : UserFeed :=
  let s := sweepLoop (fun feed => feed ∈ rejectedIds) true u.size feedCount ⟨u, -1, 0, 0⟩
  { s.user with size := u.size - s.taken, deletedCount := 0 }

end UserFeed

/-- What is done to the feeds of a user; a removal reads the configuration when it is made. -/
inductive FeedOp where
  | put (item : FeedItem)
  | modify (item : FeedItem)
  | remove (deletedCount feedId : ℤ)
  | removeByMerge (deletedCount mergeId stype : ℤ)
  | removeMergeByFeedId (deletedCount feedId : ℤ)
  | reject (rejectedIds : List ℤ)
  | removeAll

/-- One step of the feeds. -/
def FeedOp.step (u : UserFeed) : FeedOp → UserFeed
  | put item => (u.put item).2
  | modify item => u.modify item
  | remove deletedCount feedId => u.remove deletedCount feedId
  | removeByMerge deletedCount mergeId stype => (u.removeByMerge deletedCount mergeId stype).2
  | removeMergeByFeedId deletedCount feedId => (u.removeMergeByFeedId deletedCount feedId).2
  | reject rejectedIds => u.reject rejectedIds
  | removeAll => u.removeAll

end Oce.FeedCacheN
