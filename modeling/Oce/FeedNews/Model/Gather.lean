import Oce.FeedNews.Model.Ring

/-!
# Gathering the live feeds

`GetGatheredFeed` reads the ring from the newest feed down. `MergeFeed` puts the feeds of one merge
id, version and type into a group, with what is known of the group in five more vectors; then
the groups come in the order of their weights or times, and each goes into an entry of the
result, with the groups of the same actor before it or as a new one.

A feed is known by its slot, which stands for the pointer to its item; the result has the feeds
themselves. The clock is read for every feed anew, to compare its time and to set it, and the
weights are what `CaculateWeightForSort` returns: both are given. An index beyond a vector,
or a slot without a feed, has no defined result, which is `none`.
-/

set_option autoImplicit false

namespace Oce.FeedNews

open Function

/-! ## Types -/

/-- SOURCE: NewsUtil.h:35-37 -/
def isMain (stype : ℕ) : Bool := (main2comment.map Prod.fst).contains stype

/-- SOURCE: NewsUtil.h:38-40 -/
def isComment (stype : ℕ) : Bool := (main2comment.map Prod.snd).contains stype

/-- SOURCE: NewsUtil.h:42-49 -/
def main2Comment (stype : ℕ) : ℕ :=
  match main2comment.find? fun p => p.1 = stype with
  | some p => p.2
  | none => stype

/-- SOURCE: ItemCache.h:97-99 -/
def Feed.ver (f : Feed) : ℕ := (f.type / 65536 % 256).toNat

/-- The key of a feed's group: its version and its main or comment type, and its merge id.
SOURCE: LiveFeedCache.cpp:212-222 -/
def Feed.mergeKey (f : Feed) : ℕ × ℤ := (f.ver <<< 16 ||| main2Comment f.smallType, f.merge)

/-- SOURCE: ItemCache.h:112-118 -/
def PoolFeed.gatherKey (f : PoolFeed) : ℤ × ℕ :=
  if f.smallType = 2002 ∨ f.smallType = 3707 then (0, f.smallType) else (f.actor, f.smallType)

namespace LiveFeedRing

/-! ## Groups -/

/-- What `MergeFeed` is given: its arguments, the clock and the weights, by the number of the feed. -/
structure MergeArgs where
  first : ℤ
  sort : Bool
  getcomment : Bool
  now : ℕ → ℤ
  later : ℕ → ℤ
  weight : ℕ → LiveFeedItem → ℤ

/-- What `MergeFeed` works on. SOURCE: LiveFeedCache.cpp:188-195 -/
structure Merging where
  feeds : ℕ → LiveFeedItem
  mergeFeeds : List (List ℕ)
  weights : List ℤ
  viewedCount : List ℤ
  updateTimes : List ℤ
  updateBool : List Bool
  commentBool : List Bool
  mergeIndex : ℕ × ℤ → Option ℕ
  getEdm : Bool
  edmCount : ℤ

/-- The time of an advertising feed as it is shown. SOURCE: LiveFeedCache.h:269-274 -/
def resetEdmTime (t now : ℤ) : ℤ := if t = -1 then now + 480 else if t < 0 then now - t else t

/-- `(9 << 16) | (weight & 0xFF00FFFF)`. -/
def edmWeight (w : BitVec 32) : BitVec 32 := (9#32 <<< 16) ||| (w &&& 0xFF00FFFF#32)

/-- The time is negative, or in the future. -/
def isEdm (x : LiveFeedItem) (now : ℤ) : Prop := x.time < 0 ∨ now < x.time

instance (x : LiveFeedItem) (now : ℤ) : Decidable (isEdm x now) := inferInstanceAs (Decidable (_ ∨ _))

def Merging.setSlot (s : Merging) (slot : ℕ) (x : LiveFeedItem) : Merging :=
  { s with feeds := update s.feeds slot x }

/-- A feed goes to a group that there is. SOURCE: LiveFeedCache.cpp:224-275 -/
def joinGroup (a : MergeArgs) (c slot g : ℕ) (x : LiveFeedItem) (stype : ℕ) (s : Merging) :
    Option Merging := do
  let group ← s.mergeFeeds[g]?
  let updateBool ← s.updateBool[g]?
  let commentBool ← s.commentBool[g]?
  let viewedCount ← s.viewedCount[g]?
  let _ ← s.updateTimes[g]?
  let _ ← s.weights[g]?
  let timed := !updateBool && (!isMain stype || !commentBool)
  let edm := decide (isEdm x (a.now c))
  let x' := if timed && edm && decide (x.time < 0) then
    { x with time := resetEdmTime x.time (a.later c), weight := edmWeight x.weight } else x
  some { s.setSlot slot x' with
    mergeFeeds := s.mergeFeeds.set g (group ++ [slot])
    updateTimes := if timed then s.updateTimes.set g x.time else s.updateTimes
    weights := if timed then s.weights.set g (if edm then 0x0FFFFFFF else a.weight c x) else s.weights
    viewedCount :=
      if viewedCount < x'.getViewedCount then s.viewedCount.set g x'.getViewedCount else s.viewedCount
    commentBool := if isComment stype then s.commentBool.set g true else s.commentBool }

/-- A feed opens a group. SOURCE: LiveFeedCache.cpp:300-309, 314-322 -/
def openGroup (slot : ℕ) (x : LiveFeedItem) (key : ℕ × ℤ) (stype : ℕ) (w : ℤ) (s : Merging) : Merging :=
  { s with
    mergeFeeds := s.mergeFeeds ++ [[slot]]
    weights := s.weights ++ [w]
    viewedCount := s.viewedCount ++ [x.getViewedCount]
    updateTimes := s.updateTimes ++ [x.time]
    updateBool := s.updateBool ++ [x.isUpdateTime]
    commentBool := s.commentBool ++ [isComment stype]
    mergeIndex := update s.mergeIndex key (some s.mergeFeeds.length) }

/-- A feed for whose key there is no group. SOURCE: LiveFeedCache.cpp:276-325 -/
def newGroup (a : MergeArgs) (c slot : ℕ) (x : LiveFeedItem) (key : ℕ × ℤ) (stype : ℕ) (s : Merging) :
    Merging :=
  if isEdm x (a.now c) then
    let x' := if x.time < 0 then
        { x with
          time := if s.getEdm then a.later c else resetEdmTime x.time (a.later c)
          weight := edmWeight x.weight }
      else x
    let s := s.setSlot slot x'
    if s.getEdm then s
    else
      { openGroup slot x' key stype 0x0FFFFFFF s with
        getEdm := true
        edmCount := if x.time < 0 then -1 else 1 }
  else openGroup slot x key stype (a.weight c x) s

/-- The `c`-th feed from the newest. SOURCE: LiveFeedCache.cpp:196-326 -/
def mergeAt (a : MergeArgs) (s : Merging) (c slot : ℕ) : Option Merging :=
  let x := if a.first = 0 then (s.feeds slot).clearRandomed else s.feeds slot
  let s := s.setSlot slot x
  if x.isRandomed then some s
  else
    x.feed.bind fun feed =>
      let stype := feed.smallType
      if !a.getcomment && isComment stype then some s
      else
        match s.mergeIndex feed.mergeKey with
        | some g => joinGroup a c slot g x stype s
        | none => some (newGroup a c slot x feed.mergeKey stype s)

/-- The slot of the `c`-th feed from the newest. SOURCE: LiveFeedCache.cpp:193, 196-198 -/
def newest (r : LiveFeedRing) (c : ℕ) : ℕ := (r.endPos + maxCount - 1 - c) % maxCount

def mergeLoop (r : LiveFeedRing) (a : MergeArgs) : ℕ → ℕ → Merging → Option Merging
  | 0, _, s => some s
  | n + 1, c, s => (mergeAt a s c (r.newest c)).bind (mergeLoop r a n (c + 1))

/-- `edmCount` is the caller's variable. SOURCE: LiveFeedCache.cpp:185-326 -/
def mergeFeed (r : LiveFeedRing) (a : MergeArgs) (edmCount : ℤ) : Option Merging :=
  mergeLoop r a r.size.toNat 0
    ⟨r.feeds, [], [], [], [], [], [], fun _ => none, false, edmCount⟩

/-- The multimap of the groups: by weight or time, and where these are equal in the order of the
groups. SOURCE: LiveFeedCache.cpp:327-333 -/
def orderByTime (a : MergeArgs) (s : Merging) : Option (List (ℤ × ℕ)) :=
  ((List.range s.weights.length).mapM fun i =>
    (if a.sort then s.weights[i]? else s.updateTimes[i]?).map (·, i)).map
      fun l => l.mergeSort fun p q => decide (p.1 ≤ q.1)

/-! ## Entries -/

/-- The arguments of `GetGatheredFeed`. -/
structure GatherArgs where
  first : ℤ
  limit : ℤ
  hot : Bool

/-- What `GetGatheredFeed` works on. SOURCE: LiveFeedCache.cpp:339-354 -/
structure Gathering where
  feeds : ℕ → LiveFeedItem
  flags : ℤ × ℕ → Option (ℤ × ℕ)
  res : List (List (List ℕ))
  unviewedCount : ℤ
  leastViewed : List ℕ
  leastViewedCount : ℤ

/-- The feed of a group that stands for it: the newest that is no comment.
SOURCE: LiveFeedCache.cpp:358-376 -/
def groupFeed (feeds : ℕ → LiveFeedItem) (group : List ℕ) : Option (Option PoolFeed) :=
  match group with
  | [] => some none
  | slot :: rest =>
    (feeds slot).feed.bind fun feed =>
      if isComment feed.smallType then groupFeed feeds rest else some (some feed)

/-- A feed of a group is counted as viewed, if it is shown. SOURCE: LiveFeedCache.cpp:426-436, 458-466 -/
def view (a : GatherArgs) (size : ℕ) (x : LiveFeedItem) : LiveFeedItem :=
  let x := if 0 < a.limit ∧ x.getViewedCount = 0 then x.incViewedCount else x
  if 0 < a.limit ∧ a.first ≤ size ∧ (size : ℤ) < a.first + a.limit then x.incViewedCount else x

def viewGroup (a : GatherArgs) (size : ℕ) (group : List ℕ) (feeds : ℕ → LiveFeedItem) :
    ℕ → LiveFeedItem :=
  group.foldl (fun feeds slot => update feeds slot (view a size (feeds slot))) feeds

/-- SOURCE: LiveFeedCache.cpp:405 -/
def gatherTime (feed : PoolFeed) : ℤ :=
  if feed.smallType = 2002 ∨ feed.smallType = 3707 then 60 * 60 * 24 else 60 * 5

/-- The entry that a group goes to, if there is one for its actor and type.
SOURCE: LiveFeedCache.cpp:403-410 -/
def Gathering.entryFor (s : Gathering) (feed : PoolFeed) : Option ℕ :=
  if feed.smallType = 2901 then none
  else
    (s.flags feed.gatherKey).bind fun p =>
      if ((p.1 - feed.time).natAbs : ℤ) < gatherTime feed then some p.2 else none

/-- What is counted for the group `g`. SOURCE: LiveFeedCache.cpp:387-399, 411-413, 440-442 -/
def Gathering.tally (a : GatherArgs) (g : ℕ) (feed : PoolFeed) (viewed : ℤ) (s : Gathering) : Gathering :=
  let s :=
    if a.first = 0 ∧ a.hot ∧ feed.smallType = 601 ∧ viewed < s.leastViewedCount ∧ 20 < s.res.length then
      { s with leastViewed := [g], leastViewedCount := viewed }
    else s
  if viewed = 0 then { s with unviewedCount := s.unviewedCount + 1 } else s

/-- The group goes to the end of an entry or is a new one. SOURCE: LiveFeedCache.cpp:403-483 -/
def Gathering.enter (a : GatherArgs) (group : List ℕ) (feed : PoolFeed) (s : Gathering) : Option Gathering :=
  match s.entryFor feed with
  | some k =>
    (s.res[k]?).map fun entry =>
      { s with
        res := s.res.set k (entry ++ [group])
        feeds := viewGroup a s.res.length group s.feeds }
  | none =>
    some { s with
      res := s.res ++ [[group]]
      feeds := viewGroup a (s.res.length + 1) group s.feeds
      flags := update s.flags feed.gatherKey (some (feed.time, s.res.length)) }

/-- One round, for the group `g`. SOURCE: LiveFeedCache.cpp:355-484 -/
def gatherAt (a : GatherArgs) (m : Merging) (s : Gathering) (g : ℕ) : Option Gathering := do
  let group ← m.mergeFeeds[g]?
  match ← groupFeed s.feeds group with
  | none => some s
  | some feed =>
    let viewed ← m.viewedCount[g]?
    (s.tally a g feed viewed).enter a group feed

def gatherLoop (a : GatherArgs) (m : Merging) : List ℕ → Gathering → Option Gathering
  | [], s => some s
  | g :: gs, s => (gatherAt a m s g).bind (gatherLoop a m gs)

/-- A feed is shown as random. SOURCE: LiveFeedCache.cpp:508-516 -/
def showRandom (x : LiveFeedItem) : LiveFeedItem :=
  let x := Nat.iterate LiveFeedItem.incViewedCount (initViewedCount - x.getViewedCount).toNat x
  x.incViewedCount.setRandomed

/-- What `GetGatheredFeed` returns, with the slots of the groups and of the entries. -/
structure Gathered where
  res : List (List (List PoolFeed))
  random : List (List (List PoolFeed))
  unviewedCount : ℤ
  edmCount : ℤ
  ring : LiveFeedRing
  groups : List (List ℕ)
  entries : List (List (List ℕ))

/-- The feeds of the slots. -/
def feedsAt (feeds : ℕ → LiveFeedItem) (entries : List (List (List ℕ))) :
    Option (List (List (List PoolFeed))) :=
  entries.mapM fun entry => entry.mapM fun group => group.mapM fun slot => (feeds slot).feed

/-- SOURCE: LiveFeedCache.cpp:336-538 -/
def getGatheredFeed (r : LiveFeedRing) (a : GatherArgs) (now later : ℕ → ℤ)
    (weight : ℕ → LiveFeedItem → ℤ) (edmCount : ℤ) : Option Gathered := do
  let args : MergeArgs := ⟨a.first, a.hot, true, now, later, weight⟩
  let m ← r.mergeFeed args edmCount
  let order ← orderByTime args m
  let s ← gatherLoop a m (order.reverse.map Prod.snd) ⟨m.feeds, fun _ => none, [], 0, [], 2⟩
  let res ← feedsAt s.feeds s.res
  match s.leastViewed with
  | [] => some ⟨res, [], s.unviewedCount, m.edmCount, { r with feeds := s.feeds }, m.mergeFeeds, s.res⟩
  | g :: _ =>
    let group ← m.mergeFeeds[g]?
    let random ← feedsAt s.feeds [[group]]
    let feeds := group.foldl (fun feeds slot => update feeds slot (showRandom (feeds slot))) s.feeds
    some ⟨res, random, s.unviewedCount, m.edmCount, { r with feeds := feeds }, m.mergeFeeds, s.res⟩

end LiveFeedRing

end Oce.FeedNews
