import Mathlib.Algebra.Group.Int.Defs
import Mathlib.Algebra.Group.Nat.Defs
import Mathlib.Data.Int.Order.Basic
import Mathlib.Data.List.Sort
import Oce.Base.Grouped
import Oce.Base.OrdMap
import Oce.Base.Run

/-!
# The feeds of a group and the unread counts of its members

The group's feeds are all in memory, the newest first, and the table that `CountUnread` falls
back to has the same rows. A member's count is -1 until it is first asked for; from then on it
is adjusted. A last read feed of -1 says that everything there is has been read.

Nothing comes back from the webpager, so the notices that `AddFeed` sends are left out, as are
the columns that are only written back.
-/

set_option autoImplicit false

namespace Oce.FeedGroup

open Oce.Base

/-! ## Feeds -/

/-- SOURCE: GroupFeedCache.h:41-71 -/
structure GroupFeedItem where
  id : ℤ
  merge : ℤ
  type : ℕ
  time : ℤ
  actor : ℤ
  deriving DecidableEq, Repr

/-- SOURCE: GroupFeedCache.h:55-57 -/
def GroupFeedItem.smallType (e : GroupFeedItem) : ℕ := e.type % 2 ^ 24

/-- SOURCE: GroupFeedCache.h:73-116 -/
structure GroupFeeds where
  feeds : List GroupFeedItem
  maxFeed : ℤ

namespace GroupFeeds

/-- SOURCE: GroupFeedCache.h:75 -/
def new : GroupFeeds := ⟨[], -1⟩

/-- SOURCE: GroupFeedCache.cpp:33-46 -/
def addFeedItem (g : GroupFeeds) (item : GroupFeedItem) : GroupFeeds :=
  ⟨g.feeds ++ [item], max g.maxFeed item.id⟩

/-- SOURCE: GroupFeedCache.cpp:56-62 -/
def insertByTime (item : GroupFeedItem) : List GroupFeedItem → List GroupFeedItem
  | [] => [item]
  | e :: l => if e.time ≤ item.time then item :: e :: l else e :: insertByTime item l

/-- SOURCE: GroupFeedCache.cpp:48-63 -/
def addNewFeedItem (g : GroupFeeds) (item : GroupFeedItem) : GroupFeeds :=
  ⟨insertByTime item g.feeds, max g.maxFeed item.id⟩

/-- Whether `Remove` takes a feed out. SOURCE: GroupFeedCache.cpp:71 -/
def merges (stype : ℕ) (merge : ℤ) (e : GroupFeedItem) : Bool := e.smallType = stype ∧ e.merge = merge

/-- What is removed, and the rest. SOURCE: GroupFeedCache.cpp:66-79 -/
def remove (g : GroupFeeds) (stype : ℕ) (merge : ℤ) : List GroupFeedItem × GroupFeeds :=
  (g.feeds.filter (merges stype merge), { g with feeds := g.feeds.filter fun e => ¬ merges stype merge e })

/-- All that merges with the feed; a feed that is not there counts as one with zeros.
SOURCE: GroupFeedCache.cpp:134-155 -/
def removeById (g : GroupFeeds) (feedId : ℤ) : List GroupFeedItem × GroupFeeds :=
  match g.feeds.find? fun e => e.id = feedId with
  | some e => g.remove e.smallType e.merge
  | none => g.remove 0 0

/-- SOURCE: GroupFeedCache.cpp:157-160 -/
def removeAll (g : GroupFeeds) : GroupFeeds := { g with feeds := [] }

/-- SOURCE: GroupFeedCache.cpp:89-96 -/
def countLoop (maxReadFeed memberId : ℤ) : List GroupFeedItem → ℕ
  | [] => 0
  | e :: l =>
    if e.id ≤ maxReadFeed then 0
    else if e.actor ≠ memberId then countLoop maxReadFeed memberId l + 1
    else countLoop maxReadFeed memberId l

/-- Whether the feeds in memory reach back to the last read one, and the count; nothing for an
empty list, which has no `back()`. SOURCE: GroupFeedCache.cpp:81-98 -/
def countUnread (g : GroupFeeds) (maxReadFeed memberId : ℤ) : Option (Bool × ℕ) :=
  match g.feeds.getLast? with
  | none => none
  | some back =>
    if back.id > maxReadFeed then some (false, 0)
    else some (true, countLoop maxReadFeed memberId g.feeds)

end GroupFeeds

/-! ## Members -/

/-- SOURCE: GroupUnreadCount.h:14-22 -/
structure UnreadCount where
  count : ℤ
  maxReadFeed : ℤ
  replyCnt : ℤ
  deriving DecidableEq, Repr

namespace UnreadCount

/-- SOURCE: GroupUnreadCount.cpp:44-51 -/
def addFeed (item : GroupFeedItem) (memberId : ℤ) (u : UnreadCount) : UnreadCount :=
  { u with
    count := if u.maxReadFeed ≤ 0 ∨ u.maxReadFeed < item.id then u.count + 1 else u.count
    maxReadFeed :=
      if u.maxReadFeed ≤ 0 ∧ item.actor ≠ memberId then item.id - 1 else u.maxReadFeed }

/-- SOURCE: GroupUnreadCount.cpp:77-81 -/
def removeFeed (feedId : ℤ) (u : UnreadCount) : UnreadCount :=
  { u with count := if u.maxReadFeed < feedId ∧ 0 < u.count then u.count - 1 else u.count }

/-- SOURCE: GroupUnreadCount.cpp:89-91 -/
def removeAllFeed (u : UnreadCount) : UnreadCount := { u with count := 0, maxReadFeed := -1 }

/-- SOURCE: GroupUnreadCount.cpp:99-102 -/
def readAllFeed (maxFeed : ℤ) (_ : UnreadCount) : UnreadCount := ⟨0, maxFeed, 0⟩

end UnreadCount

/-! ## The group -/

/-- The feeds of a group, and `GroupUnreadInfo::member_unread_map_`. -/
structure Group where
  feeds : GroupFeeds
  members : OrdMap ℤ UnreadCount

namespace Group

/-- SOURCE: GroupUnreadCount.cpp:134-143 -/
def addMember (members : OrdMap ℤ UnreadCount) (row : ℤ × ℤ × ℤ) : OrdMap ℤ UnreadCount :=
  match members.find row.1 with
  | some _ => members
  | none => members.insert row.1 ⟨-1, row.2.1, row.2.2⟩

/-- The feeds as loaded, the newest first, and the members with their last read feeds and
reply counts. SOURCE: GroupUnreadCount.cpp:302-322 -/
def load (items : List GroupFeedItem) (rows : List (ℤ × ℤ × ℤ)) : Group :=
  ⟨items.foldl GroupFeeds.addFeedItem .new, rows.foldl addMember .empty⟩

/-- SOURCE: FeedGroupI.cpp:138-143, GroupUnreadCount.cpp:36-55 -/
def addFeed (g : Group) (item : GroupFeedItem) : Group :=
  ⟨g.feeds.addNewFeedItem item, g.members.map (UnreadCount.addFeed item)⟩

/-- SOURCE: FeedGroupI.cpp:152-155, GroupUnreadCount.cpp:73-83 -/
def removeItems (g : Group) (r : List GroupFeedItem × GroupFeeds) : Group :=
  ⟨r.2, r.1.foldl (fun members e => members.map fun _ => UnreadCount.removeFeed e.id) g.members⟩

/-- SOURCE: FeedGroupI.cpp:147-166 -/
def removeFeed (g : Group) (stype : ℕ) (merge : ℤ) : Group := g.removeItems (g.feeds.remove stype merge)

/-- The list and the marks; the row is deleted by the small type and by the merge id cut to an `int`,
which is not modelled, so the table may keep it. SOURCE: FeedGroupI.cpp:168-220 -/
def removeFeedById (g : Group) (feedId : ℤ) : Group := g.removeItems (g.feeds.removeById feedId)

/-- SOURCE: FeedGroupI.cpp:222-238, GroupUnreadCount.cpp:85-93 -/
def removeAllFeed (g : Group) : Group :=
  ⟨g.feeds.removeAll, g.members.map fun _ => UnreadCount.removeAllFeed⟩

/-- SOURCE: FeedGroupI.cpp:375-376, GroupUnreadCount.cpp:95-104 -/
def readAllFeed (g : Group) (memberId : ℤ) : Group :=
  match g.members.find memberId with
  | none => g
  | some u => { g with members := g.members.insert memberId (u.readAllFeed g.feeds.maxFeed) }

/-- SOURCE: FeedGroupI.cpp:59-82 -/
def countUnread (g : Group) (maxReadFeed memberId : ℤ) : Option ℕ :=
  if maxReadFeed ≤ 0 then some 0
  else
    match g.feeds.countUnread maxReadFeed memberId with
    | none => none
    | some (true, count) => some count
    | some (false, _) =>
      some (min 105 (g.feeds.feeds.countP fun e => maxReadFeed < e.id ∧ e.actor ≠ memberId))

/-- The answer, and the group; there is none where the count is undefined.
SOURCE: GroupUnreadCount.cpp:106-132 -/
def getUnreadCount (g : Group) (memberId : ℤ) : Option (ℤ × ℤ) × Group :=
  match g.members.find memberId with
  | none => (some (0, 0), g)
  | some u =>
    if 0 ≤ u.count then (some (u.count, u.replyCnt), g)
    else
      match g.countUnread u.maxReadFeed memberId with
      | none => (none, g)
      | some count =>
        (some (count, u.replyCnt),
          { g with members := g.members.insert memberId { u with count := count } })

end Group

/-- What is done to a group. -/
inductive GroupOp where
  | addFeed (item : GroupFeedItem)
  | removeFeed (stype : ℕ) (merge : ℤ)
  | removeFeedById (feedId : ℤ)
  | removeAllFeed
  | readAllFeed (memberId : ℤ)
  | getUnreadCount (memberId : ℤ)

/-- One step of a group. -/
def GroupOp.step (g : Group) : GroupOp → Group
  | addFeed item => g.addFeed item
  | removeFeed stype merge => g.removeFeed stype merge
  | removeFeedById feedId => g.removeFeedById feedId
  | removeAllFeed => g.removeAllFeed
  | readAllFeed memberId => g.readAllFeed memberId
  | getUnreadCount memberId => (g.getUnreadCount memberId).2

end Oce.FeedGroup
