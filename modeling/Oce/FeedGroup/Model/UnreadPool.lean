import Oce.FeedGroup.Model.Group
import Oce.Base.AscSeq

/-!
# The unread counts of a group, and the table behind them

A group's unread counts are in memory for an hour from when they were loaded; the first call
after that loads them again, from the members the minigroup table lists and the rows of the
unread table. A timer writes the counts that have changed back, whether the group is stale or
not. The minigroup table is changed before the call that is told of it.
-/

set_option autoImplicit false

namespace Oce.FeedGroup

open Oce.Base

/-- A member's counts, and whether they are still to be written.
SOURCE: GroupUnreadCount.h:14-22 -/
structure MemberUnread extends UnreadCount where
  changed : Bool
  deriving DecidableEq, Repr

namespace MemberUnread

/-- SOURCE: GroupUnreadCount.h:15 -/
def new (count maxRead replyCnt : ℤ) : MemberUnread := ⟨⟨count, maxRead, replyCnt⟩, true⟩

/-- The last read feed and the reply count, as a row has them. -/
def marks (u : MemberUnread) : ℤ × ℤ := (u.maxReadFeed, u.replyCnt)

/-- SOURCE: GroupUnreadCount.cpp:44-51 -/
def addFeed (item : GroupFeedItem) (memberId : ℤ) (u : MemberUnread) : MemberUnread :=
  ⟨u.toUnreadCount.addFeed item memberId,
    u.changed || decide (u.maxReadFeed ≤ 0 ∧ item.actor ≠ memberId)⟩

/-- SOURCE: GroupUnreadCount.cpp:89-91 -/
def removeAllFeed (u : MemberUnread) : MemberUnread := ⟨u.toUnreadCount.removeAllFeed, true⟩

/-- SOURCE: GroupUnreadCount.cpp:99-102 -/
def readAllFeed (maxFeed : ℤ) (u : MemberUnread) : MemberUnread :=
  ⟨u.toUnreadCount.readAllFeed maxFeed, true⟩

/-- SOURCE: GroupUnreadCount.cpp:239-243 -/
def replyFeed (replier memberId : ℤ) (u : MemberUnread) : MemberUnread :=
  if replier ≠ memberId then ⟨{ u.toUnreadCount with replyCnt := u.replyCnt + 1 }, true⟩ else u

/-- Whether the row goes, rather than being replaced. SOURCE: GroupUnreadCount.cpp:181 -/
def Dropped (u : MemberUnread) : Prop := u.changed = true ∧ u.count < 0 ∧ u.replyCnt = 0

instance : DecidablePred Dropped := fun _ => inferInstanceAs (Decidable (_ ∧ _))

end MemberUnread

/-- SOURCE: GroupUnreadCount.h:24-54 -/
structure GroupUnreadInfo where
  loadTime : ℕ
  members : OrdMap ℤ MemberUnread

namespace GroupUnreadInfo

/-- SOURCE: GroupUnreadCount.h:26 -/
def new (now : ℕ) : GroupUnreadInfo := ⟨now, .empty⟩

/-- SOURCE: GroupUnreadCount.h:43-45 -/
def IsStale (g : GroupUnreadInfo) (now : ℕ) : Prop := 60 * 60 < now - g.loadTime

instance (g : GroupUnreadInfo) (now : ℕ) : Decidable (g.IsStale now) :=
  inferInstanceAs (Decidable (_ < _))

/-- SOURCE: GroupUnreadCount.cpp:134-143 -/
def addMember (memberId maxRead replyCnt : ℤ) (g : GroupUnreadInfo) : GroupUnreadInfo :=
  { g with members := g.members.insertNew memberId (.new (-1) maxRead replyCnt) }

/-- SOURCE: GroupUnreadCount.cpp:145-148 -/
def removeMember (memberId : ℤ) (g : GroupUnreadInfo) : GroupUnreadInfo :=
  { g with members := g.members.erase memberId }

/-- SOURCE: GroupUnreadCount.cpp:36-55 -/
def addFeed (item : GroupFeedItem) (g : GroupUnreadInfo) : GroupUnreadInfo :=
  { g with members := g.members.map (MemberUnread.addFeed item) }

/-- SOURCE: GroupUnreadCount.cpp:85-93 -/
def removeAllFeed (g : GroupUnreadInfo) : GroupUnreadInfo :=
  { g with members := g.members.map fun _ => MemberUnread.removeAllFeed }

/-- SOURCE: GroupUnreadCount.cpp:95-104 -/
def readAllFeed (memberId maxFeed : ℤ) (g : GroupUnreadInfo) : GroupUnreadInfo :=
  match g.members.find memberId with
  | none => g
  | some u => { g with members := g.members.insert memberId (u.readAllFeed maxFeed) }

/-- SOURCE: GroupUnreadCount.cpp:230-249 -/
def replyFeed (replier : ℤ) (g : GroupUnreadInfo) : GroupUnreadInfo :=
  { g with members := g.members.map (MemberUnread.replyFeed replier) }

end GroupUnreadInfo

/-- A group in the pool, the two tables and the clock. -/
structure UnreadPool where
  now : ℕ
  group : Option GroupUnreadInfo
  minigroup : AscSeq ℤ
  table : OrdMap ℤ (ℤ × ℤ)

namespace UnreadPool

/-- A row of a member, which is taken out of the set of those still to be added.
SOURCE: GroupUnreadCount.cpp:302-313 -/
def loadRow (acc : GroupUnreadInfo × AscSeq ℤ) (row : ℤ × ℤ × ℤ) : GroupUnreadInfo × AscSeq ℤ :=
  if row.1 ∈ acc.2 then (acc.1.addMember row.1 row.2.1 row.2.2, acc.2.eraseAll row.1) else acc

/-- SOURCE: GroupUnreadCount.cpp:260-333 -/
def loadGroup (s : UnreadPool) : GroupUnreadInfo :=
  let acc := s.table.entries.foldl loadRow (.new s.now, s.minigroup)
  acc.2.vals.foldl (fun g memberId => g.addMember memberId (-1) 0) acc.1

/-- SOURCE: GroupUnreadCount.cpp:372-390 -/
def findGroup (s : UnreadPool) : Option GroupUnreadInfo :=
  s.group.filter fun g => ¬ g.IsStale s.now

/-- SOURCE: GroupUnreadCount.cpp:359-370 -/
def locateGroup (s : UnreadPool) : GroupUnreadInfo :=
  match s.findGroup with
  | some g => g
  | none => s.loadGroup

/-- A call on the group that is located. SOURCE: GroupUnreadCount.cpp:392-452 -/
def withGroup (s : UnreadPool) (f : GroupUnreadInfo → GroupUnreadInfo) : UnreadPool :=
  { s with group := some (f s.locateGroup) }

/-- What the two statements do to a row. SOURCE: GroupUnreadCount.cpp:178-200 -/
def writeEntry (table : OrdMap ℤ (ℤ × ℤ)) (e : ℤ × MemberUnread) : OrdMap ℤ (ℤ × ℤ) :=
  if e.2.changed then
    if e.2.Dropped then table.erase e.1 else table.insert e.1 e.2.marks
  else table

/-- SOURCE: GroupUnreadCount.cpp:161-228 -/
def writeDB (s : UnreadPool) : UnreadPool :=
  match s.group with
  | none => s
  | some g =>
    { s with
      group := some { g with members := g.members.map fun _ u => { u with changed := false } }
      table := g.members.entries.foldl writeEntry s.table }

end UnreadPool

/-- What is done to the group; `locate` is any call that only reads. -/
inductive PoolOp where
  | addFeed (item : GroupFeedItem)
  | readAllFeed (memberId maxFeed : ℤ)
  | removeAllFeed
  | replyFeed (replier : ℤ)
  | addMember (memberId : ℤ)
  | removeMember (memberId : ℤ)
  | locate
  | writeDB
  | pass (seconds : ℕ)

namespace PoolOp

/-- The minigroup table that a call finds. -/
def minigroup (s : UnreadPool) : PoolOp → AscSeq ℤ
  | addMember memberId => s.minigroup.insert memberId
  | removeMember memberId => s.minigroup.eraseAll memberId
  | _ => s.minigroup

/-- One step of the pool. SOURCE: GroupUnreadCount.cpp:339-452 -/
def step (s : UnreadPool) : PoolOp → UnreadPool
  | addFeed item => s.withGroup (.addFeed item)
  | readAllFeed memberId maxFeed => s.withGroup (.readAllFeed memberId maxFeed)
  | removeAllFeed => s.withGroup .removeAllFeed
  | replyFeed replier => s.withGroup (.replyFeed replier)
  | addMember memberId =>
    { s with minigroup := s.minigroup.insert memberId }.withGroup (.addMember memberId (-1) 0)
  | removeMember memberId =>
    { s with minigroup := s.minigroup.eraseAll memberId }.withGroup (.removeMember memberId)
  | locate => s.withGroup id
  | writeDB => s.writeDB
  | pass seconds => { s with now := s.now + seconds }

end PoolOp

end Oce.FeedGroup
