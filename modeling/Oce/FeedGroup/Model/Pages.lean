import Mathlib.Data.List.Sort
import Oce.Base.Grouped
import Oce.FeedGroup.Model.Group

/-!
# Pages of a group's feeds

The rest of `GroupFeeds`: refreshing, evicting, merging and paging. Feeds that merge are put
behind the newest of them, in one pass over the list; the multimap that orders the groups has
them by the time of the newest, and is read from its end. Counts and positions are whole numbers
here, the times and positions of the interface being `int`s.
-/

set_option autoImplicit false


namespace Oce.FeedGroup

open Oce.Base

/-- SOURCE: RFeed.ice:12 -/
def feedMergeReplace : ℕ := 1

/-- SOURCE: RFeed.ice:11 -/
def feedMergeAppend : ℕ := 2

/-- SOURCE: GroupFeedCache.h:61-64 -/
def GroupFeedItem.miniMergeType (e : GroupFeedItem) : ℕ := e.type % 2 ^ 30 / 2 ^ 28

/-- What merges. SOURCE: GroupFeedCache.cpp:110 -/
def GroupFeedItem.mergeKey (e : GroupFeedItem) : ℕ × ℤ := (e.smallType, e.merge)

namespace GroupFeeds

/-- The first feed of that id, and the others. -/
def takeById (feedId : ℤ) : List GroupFeedItem → Option (GroupFeedItem × List GroupFeedItem)
  | [] => none
  | e :: l => if e.id = feedId then some (e, l) else (takeById feedId l).map fun r => (r.1, e :: r.2)

/-- The scan; from the first feed that is no newer on, the feed is looked for and put before
that one, and one that is found earlier stays. SOURCE: GroupFeedCache.cpp:12-30 -/
def refreshScan (feedId timestamp : ℤ) : List GroupFeedItem → List GroupFeedItem
  | [] => []
  | e :: l =>
    if e.time ≤ timestamp then
      match takeById feedId (e :: l) with
      | none => e :: l
      | some (item, others) => { item with time := timestamp } :: others
    else if e.id = feedId then e :: l
    else e :: refreshScan feedId timestamp l

/-- SOURCE: GroupFeedCache.cpp:10-31 -/
def refreshFeedItem (g : GroupFeeds) (feedId timestamp : ℤ) : GroupFeeds :=
  { g with feeds := refreshScan feedId timestamp g.feeds }

/-- `RemoveById` without merging. SOURCE: GroupFeedCache.cpp:134-148 -/
def removeOneById (g : GroupFeeds) (feedId : ℤ) : List GroupFeedItem × GroupFeeds :=
  match takeById feedId g.feeds with
  | some (e, others) => ([e], { g with feeds := others })
  | none => g.remove 0 0

/-- SOURCE: GroupFeedCache.h:33 -/
def loadFeedCount : ℕ := 20 * 2

/-- SOURCE: GroupFeedCache.cpp:162-173 -/
def evictOversize (g : GroupFeeds) : GroupFeeds := { g with feeds := g.feeds.take loadFeedCount }

/-- Whether a feed joins the feeds it merges with. SOURCE: GroupFeedCache.cpp:118-121 -/
def joins (items : List GroupFeedItem) (e : GroupFeedItem) : Bool :=
  ¬ (e.miniMergeType = feedMergeReplace ∨ e.miniMergeType = feedMergeAppend ∧ 5 ≤ items.length)

/-- SOURCE: GroupFeedCache.cpp:105-126 -/
def mergeFeed (g : GroupFeeds) : List (Grouped GroupFeedItem) :=
  gather GroupFeedItem.mergeKey joins g.feeds

/-- The multimap, each group after those of the same time. SOURCE: GroupFeedCache.cpp:127-130 -/
def orderByTime (merged : List (Grouped GroupFeedItem)) : List (Grouped GroupFeedItem) :=
  merged.foldl (fun order m => order.orderedInsert (fun m m' => m.front.time < m'.front.time) m) []

/-- SOURCE: GroupFeedCache.cpp:248-263 -/
def pageLoop (check : GroupFeedItem → Bool) (start limit : ℤ) :
    ℤ → List (Grouped GroupFeedItem) → List (List (List GroupFeedItem))
  | _, [] => []
  | count, m :: l =>
    if ¬ check m.front then pageLoop check start limit count l
    else if count < start then pageLoop check start limit (count + 1) l
    else if count + 1 > start + limit then []
    else [m.items] :: pageLoop check start limit (count + 1) l

/-- SOURCE: GroupFeedCache.cpp:242-266 -/
def getFeed (g : GroupFeeds) (check : GroupFeedItem → Bool) (start limit : ℤ) :
    List (List (List GroupFeedItem)) :=
  pageLoop check start limit 0 (orderByTime g.mergeFeed).reverse

end GroupFeeds

/-- What is done to the list of feeds. -/
inductive FeedsOp where
  | addFeedItem (item : GroupFeedItem)
  | addNewFeedItem (item : GroupFeedItem)
  | refreshFeedItem (feedId timestamp : ℤ)
  | remove (stype : ℕ) (merge : ℤ)
  | removeById (feedId : ℤ) (byMerge : Bool)
  | evictOversize

/-- One step of the list. -/
def FeedsOp.step (g : GroupFeeds) : FeedsOp → GroupFeeds
  | addFeedItem item => g.addFeedItem item
  | addNewFeedItem item => g.addNewFeedItem item
  | refreshFeedItem feedId timestamp => g.refreshFeedItem feedId timestamp
  | remove stype merge => (g.remove stype merge).2
  | removeById feedId byMerge =>
    if byMerge then (g.removeById feedId).2 else (g.removeOneById feedId).2
  | evictOversize => g.evictOversize

end Oce.FeedGroup
