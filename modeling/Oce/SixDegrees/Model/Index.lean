import Mathlib.Data.Int.Order.Basic
import Mathlib.Data.List.Dedup
import Mathlib.Data.List.Sort
import Oce.Base.Bisect

/-!
# The index of join nodes

From a user a builder goes to the join nodes that are reached over two or three degrees, and
pushes an entry for each. The entries are cut into batches, which are kept by user for the
searches that read them. The caches of friends and of join nodes are parameters.
-/

set_option autoImplicit false

namespace Oce.SixDegrees

/-- An entry: the node, and the users on the way to it. SOURCE: BuddySixDegrees.ice -/
structure IndexInfo where
  id : ℤ
  degree : ℤ
  friends : List ℤ
  deriving DecidableEq, Repr

/-- SOURCE: FriendsIndex.h:89-101 -/
abbrev IndexData := List IndexInfo

/-- SOURCE: FriendsIndex.h:38 -/
def MAX_INDEX : ℕ := 10000

/-- SOURCE: FriendsIndex.h:39 -/
def MAX_DATA : ℕ := 10

/-- The cached friends of users and of join nodes. -/
structure Caches where
  friends : ℤ → Option (List ℤ)
  join : ℤ → Option (List ℤ)

/-! ## The builder -/

/-- The entries of a join node, and whether there are now too many nodes.
SOURCE: FriendsIndex.cpp:192-219 -/
def asynBuildIndexInfo (c : Caches) (id degree preId : ℤ) (indexSum : ℕ) :
    Bool × List IndexInfo × ℕ :=
  match c.join id with
  | none => (false, [], indexSum)
  | some friends =>
    (MAX_INDEX < indexSum + 1,
      friends.map fun f =>
        ⟨f, degree, if degree = 2 then [id] else if degree = 3 then [preId, id] else []⟩,
      indexSum + 1)

/-- The friends of the user: the entries, whether it stopped, the friends whose friends come next
and the number of nodes. SOURCE: FriendsIndex.cpp:139-155 -/
def buildTwoDegrees (c : Caches) : List ℤ → ℕ → List IndexInfo × Bool × List ℤ × ℕ
  | [], indexSum => ([], false, [], indexSum)
  | f :: friends, indexSum =>
    let r := asynBuildIndexInfo c f 2 0 indexSum
    if r.1 then (r.2.1, true, [], r.2.2)
    else
      let rest := buildTwoDegrees c friends r.2.2
      (r.2.1 ++ rest.1, rest.2.1, f :: rest.2.2.1, rest.2.2.2)

/-- The friends of the friends, each with the one before. SOURCE: FriendsIndex.cpp:164-180 -/
def buildThreeDegrees (c : Caches) : List (ℤ × ℤ) → ℕ → List IndexInfo
  | [], _ => []
  | (preId, f) :: friends, indexSum =>
    let r := asynBuildIndexInfo c f 3 preId indexSum
    if r.1 then r.2.1 else r.2.1 ++ buildThreeDegrees c friends r.2.2

/-- The users that are cached, by id, with their friends. SOURCE: BuddySixDegreesI.h:113-115 -/
def locateFriends (c : Caches) (ids : List ℤ) : List (ℤ × List ℤ) :=
  (ids.dedup.insertionSort (· ≤ ·)).filterMap fun id => (c.friends id).map fun fs => (id, fs)

/-- All entries that are pushed for a user, in order. SOURCE: FriendsIndex.cpp:123-184 -/
def asynBuildIndex (c : Caches) (id : ℤ) : List IndexInfo :=
  match c.friends id with
  | none => []
  | some friends =>
    let two := buildTwoDegrees c friends 0
    if two.2.1 then two.1
    else two.1 ++ buildThreeDegrees c
      ((locateFriends c two.2.2.1).flatMap fun e => e.2.map fun f => (e.1, f)) two.2.2.2

/-! ## The batches of a user -/

/-- SOURCE: FriendsIndex.h:146-233 -/
structure AsynIndexData where
  freshersDataSeq : List IndexData
  dataSum : ℕ
  finish : Bool
  deriving DecidableEq, Repr

namespace AsynIndexData

/-- SOURCE: FriendsIndex.h:149-150 -/
def new : AsynIndexData := ⟨[], 0, false⟩

/-- SOURCE: FriendsIndex.h:157-175 -/
def getFreshersData (d : AsynIndexData) (i : ℕ) : IndexData := d.freshersDataSeq.getD i []

/-- SOURCE: FriendsIndex.h:177-194 -/
def push (d : AsynIndexData) (freshersData : IndexData) : AsynIndexData :=
  if MAX_DATA < d.dataSum then d
  else { d with freshersDataSeq := d.freshersDataSeq ++ [freshersData], dataSum := d.dataSum + 1 }

/-- SOURCE: FriendsIndex.h:214-217 -/
def setFinish (d : AsynIndexData) (finish : Bool) : AsynIndexData := { d with finish := finish }

end AsynIndexData

/-! ## Sorted entries -/

/-- SOURCE: FriendsIndex.h:124-128 -/
def lowerBound (l : List IndexInfo) (x : IndexInfo) : ℕ := Base.bisect (fun e => e.id < x.id) l

/-- The degrees that are compared are those of one entry. SOURCE: FriendsIndex.h:119-121 -/
def isOptimalPath (first second : IndexInfo) : Bool :=
  first.id ≠ second.id ∨ (first.id = second.id ∧ first.degree < first.degree)

/-- SOURCE: BuddySixDegreesI.cpp:375-381 -/
def addNewFriend (allFriends : List IndexInfo) (indexInfo : IndexInfo) : List IndexInfo :=
  let i := lowerBound allFriends indexInfo
  match allFriends[i]? with
  | none => allFriends ++ [indexInfo]
  | some e =>
    if isOptimalPath indexInfo e then allFriends.take i ++ indexInfo :: allFriends.drop i
    else allFriends

/-- SOURCE: BuddySixDegreesI.cpp:362-385 -/
def addNewFriends (newFriends allFriends : List IndexInfo) : List IndexInfo :=
  newFriends.foldl addNewFriend allFriends

end Oce.SixDegrees
