import Oce.FeedCacheN.Model.UserFeed

/-!
# A user in the pool, and the store

What is done to one user of `UserFeedPool`. The store has all feeds of the user, the newest first;
a caller changes the store and then calls the pool, and `loadUser` reads the store and then takes
the lock, so each is two steps here and other steps may come between. A put that finds the ring full
leaves a `RejectTask` with the feeds that the ring has then, which runs at any time later. The other
users of the pool count only in that their loads put this one out (`leave`). The user's id is not
negative.

`history`, the numbers in `pending` and in `loads`, `given` and `rejected` are not in the source:
all changes of the store, which of them are meant, the feeds that the ring has been given since it
was loaded (the newest first, cleared when the pool has been called to remove them) and the ids that
its tasks have rejected since.
-/

set_option autoImplicit false

namespace Oce.FeedCacheN

/-- A change of the store and of the cache. -/
inductive Change where
  | put (item : FeedItem)
  | remove (feedId : ℤ)
  | removeByMerge (mergeId stype : ℤ)
  | removeAll
  deriving DecidableEq, Repr

namespace Change

/-- The feeds that a removal leaves in the store. -/
def keeps : Change → FeedItem → Bool
  | put _, _ => true
  | remove feedId, e => e.feed ≠ feedId
  | removeByMerge mergeId stype, e => ¬ e.merges mergeId stype
  | removeAll, _ => false

/-- What the store makes of it. -/
def onStore : Change → List FeedItem → List FeedItem
  | put item, l => item :: l
  | c, l => l.filter c.keeps

/-- What the cache is called with. SOURCE: FeedCacheI.cpp:507-603 -/
def toOp (deletedCount : ℤ) : Change → FeedOp
  | put item => .put item
  | remove feedId => .remove deletedCount feedId
  | removeByMerge mergeId stype => .removeByMerge deletedCount mergeId stype
  | removeAll => .removeAll

def isPut : Change → Bool
  | put _ => true
  | _ => false

/-- The feeds that have been given, with what is removed cleared. -/
def onGiven : Change → List FeedItem → List FeedItem
  | put item, given => item :: given
  | c, given => given.map fun e => if c.keeps e then e else e.cleared

/-- A feed that is put is not rejected any more. -/
def onRejected : Change → List ℤ → List ℤ
  | put item, rejected => rejected.filter fun feedId => feedId ≠ item.feed
  | _, rejected => rejected

end Change

/-- The ids that a task rejects of the feeds it was left with, `resorted` being what
`FeedCacheLogic` answers (nothing when it throws): the 20 oldest when there are none.
SOURCE: Tasks.cpp:11-51 -/
def rejectedIds (enableLogicReject enableCacheReject : Bool) (resorted : List ℤ) (fis : List FeedItem) :
    List ℤ :=
  let rejectedIds := if enableLogicReject then resorted else []
  if rejectedIds = [] ∧ enableCacheReject then (fis.reverse.take 20).map FeedItem.feed else rejectedIds

/-- One user of the pool; `rejects` are the feeds that the tasks have been left with. -/
structure UserFeedPool where
  store : List FeedItem
  history : List Change
  user : Option UserFeed
  given : List FeedItem
  rejected : List ℤ
  pending : List (ℕ × Change)
  loads : List (ℕ × List FeedItem)
  rejects : List (List FeedItem)

namespace UserFeedPool

/-- A store, and nothing cached. -/
def start (store : List FeedItem) : UserFeedPool := ⟨store, [], none, [], [], [], [], []⟩

/-- The feeds that were read, put from the oldest on. SOURCE: FeedCacheI.cpp:454-457 -/
def load (items : List FeedItem) : UserFeed :=
  items.reverse.foldl (fun user item => (user.put item).2) .new

/-- The task that a put leaves: the feeds, if the ring is full. SOURCE: FeedCacheI.cpp:523-530 -/
def rejectTask (u : UserFeed) : Change → Option (List FeedItem)
  | .put item => if (u.put item).1 then some ((u.put item).2.getMore (-1)) else none
  | _ => none

/-- The pool is called with a change; a user who is not in it is left out.
SOURCE: FeedCacheI.cpp:507-536, 551-563, 581-603 -/
def callWith (s : UserFeedPool) (deletedCount : ℤ) (c : Change) : UserFeedPool :=
  match s.user with
  | none => s
  | some u =>
    { s with
      user := some ((c.toOp deletedCount).step u)
      given := c.onGiven s.given
      rejected := c.onRejected s.rejected
      rejects := s.rejects ++ (rejectTask u c).toList }

/-- SOURCE: FeedCacheI.cpp:540-550 -/
def reject (s : UserFeedPool) (rejectedIds : List ℤ) : UserFeedPool :=
  match s.user with
  | none => s
  | some u => { s with user := some (u.reject rejectedIds), rejected := s.rejected ++ rejectedIds }

/-- The lock is taken with what was read. SOURCE: FeedCacheI.cpp:443-458 -/
def insertLoaded (s : UserFeedPool) (items : List FeedItem) : UserFeedPool :=
  match s.user with
  | some _ => s
  | none => { s with user := some (load items), given := items, rejected := [] }

end UserFeedPool

/-- A step of a caller, of a load or of a task: the store is changed or read, or the lock is taken by
the `i`-th of those who have not had it. A task reads the configuration when it runs. -/
inductive PoolStep where
  | apply (c : Change)
  | call (i : ℕ) (deletedCount : ℤ)
  | read
  | insert (i : ℕ)
  | giveUp (i : ℕ)
  | reject (i : ℕ) (enableLogicReject enableCacheReject : Bool) (resorted : List ℤ)
  | leave

namespace PoolStep

/-- SOURCE: FeedCacheI.cpp:412-475, 507-603 -/
def step (s : UserFeedPool) : PoolStep → UserFeedPool
  | apply c =>
    { s with
      store := c.onStore s.store
      history := s.history ++ [c]
      pending := s.pending ++ [(s.history.length, c)] }
  | call i deletedCount =>
    match s.pending[i]? with
    | none => s
    | some p => { s.callWith deletedCount p.2 with pending := s.pending.eraseIdx i }
  | read => { s with loads := s.loads ++ [(s.history.length, s.store.take feedCount)] }
  | insert i =>
    match s.loads[i]? with
    | none => s
    | some r => { s.insertLoaded r.2 with loads := s.loads.eraseIdx i }
  | giveUp i => { s with loads := s.loads.eraseIdx i }
  | reject i enableLogicReject enableCacheReject resorted =>
    match s.rejects[i]? with
    | none => s
    | some fis =>
      { s.reject (rejectedIds enableLogicReject enableCacheReject resorted fis) with
        rejects := s.rejects.eraseIdx i }
  | leave => { s with user := none }

end PoolStep

end Oce.FeedCacheN
