import Oce.SixDegrees.Model.Index

/-!
# Routes between two users

Two users meet in a node that is in the indexes of both. The entries of the one are compared with
those of the other by leaps of bisection from both sides, and a pair of entries of one node is
tried for a route: the route is not taken when a friend of the other user is on it already, or
when a user comes twice. The friends of two users are searched by the same loop, in which `key` is
the number that an element is searched by. The iterators are places in the two vectors: what is
read behind a range, or searched in a range that is none, is `none` here, and so is a loop that
does not come to its end.
-/

set_option autoImplicit false

namespace Oce.SixDegrees

variable {α : Type}

/-! ## Routes -/

/-- Whether `lower_bound` finds a user among friends. SOURCE: CompareFriends.h:160-161 -/
def hasFriend (friends : List ℤ) (id : ℤ) : Bool :=
  friends[Base.bisect (fun f => f < id) friends]? = some id

/-- Routes over one common friend. SOURCE: CompareFriends.h:30-51 -/
def hasCommonFriend (id1 id2 : ℤ) (friendsA friendsB : List ℤ) : List (List ℤ) :=
  if friendsA = [] ∨ friendsB = [] then []
  else (friendsA.filter (hasFriend friendsB)).map fun f => [id1, f, id2]

/-- SOURCE: CompareFriends.h:215-227 -/
def checkSameNode (rout : List ℤ) : Bool := ¬ rout.Nodup

/-- The route over a pair of entries, if it is taken. SOURCE: CompareFriends.h:154-213 -/
def routListAdd (id1 id2 : ℤ) (hostFriends guestFriends : List ℤ) (data1 data2 : IndexInfo) :
    Option (List ℤ) :=
  let rout := id1 :: data1.friends ++ data1.id :: data2.friends.reverse ++ [id2]
  if data1.friends.any (hasFriend guestFriends) then none
  else if hasFriend guestFriends data1.id then none
  else if hasFriend hostFriends data1.id then none
  else if data2.friends.any (hasFriend hostFriends) then none
  else if checkSameNode rout then none
  else some rout

/-! ## The two-way search -/

/-- `lower_bound` between two places. -/
def boundIn (key : α → ℤ) (l : List α) (first last : ℕ) (x : ℤ) : Option ℕ :=
  if first ≤ last ∧ last ≤ l.length then
    some (first + Base.bisect (fun e => key e < x) ((l.take last).drop first))
  else none

/-- The loop from the places `ia` and `ib` on, with the pairs `found` so far; a round takes one of
`fuel`. SOURCE: CompareFriends.h:77-96, 265-283 -/
def twoWayLoop (key : α → ℤ) (as bs : List α) (iaEnd ibEnd : ℕ) :
    ℕ → ℕ → ℕ → List (α × α) → Option (List (α × α))
  | 0, ia, _, found => if ia = iaEnd then some found else none
  | fuel + 1, ia, ib, found =>
    if ia = iaEnd then some found
    else do
      let a ← as[ia]?
      let ib ← boundIn key bs ib ibEnd (key a)
      if ib = ibEnd then some found
      else
        let b ← bs[ib]?
        if key b = key a then twoWayLoop key as bs iaEnd ibEnd fuel (ia + 1) (ib + 1) (found ++ [(a, b)])
        else
          let ia ← boundIn key as ia iaEnd (key b)
          if ia = iaEnd then twoWayLoop key as bs iaEnd ibEnd fuel ia ib found
          else
            let a ← as[ia]?
            if key a = key b then
              twoWayLoop key as bs iaEnd ibEnd fuel (ia + 1) (ib + 1) (found ++ [(a, b)])
            else twoWayLoop key as bs iaEnd ibEnd fuel ia ib found

/-- What the other side has of the last element, where it is cut off.
SOURCE: CompareFriends.h:64-75, 253-263 -/
def lastPair (key : α → ℤ) (l : List α) (place : ℕ) (x : ℤ) (pair : α → α × α) : Option (List (α × α)) :=
  if place = l.length then some []
  else (l[place]?).map fun e => if key e = x then [pair e] else []

/-- The last element of one side cuts off the other, and is looked at apart.
SOURCE: CompareFriends.h:59-97, 249-284 -/
def twoWay (key : α → ℤ) (fuel : ℕ) (as bs : List α) : Option (List (α × α)) := do
  let backA ← as.getLast?
  let backB ← bs.getLast?
  if key backB < key backA then
    let iaEnd ← boundIn key as 0 as.length (key backB)
    let found ← lastPair key as iaEnd (key backB) fun a => (a, backB)
    twoWayLoop key as bs iaEnd bs.length fuel 0 0 found
  else
    let ibEnd ← boundIn key bs 0 bs.length (key backA)
    let found ← lastPair key bs ibEnd (key backA) fun b => (backA, b)
    twoWayLoop key as bs as.length ibEnd fuel 0 0 found

namespace FriendsCompare

/-- The routes of the object with those of a call. SOURCE: CompareFriends.h:30-51 -/
def hasCommonFriend (routList : List (List ℤ)) (id1 id2 : ℤ) (friendsA friendsB : List ℤ) :
    List (List ℤ) :=
  routList ++ SixDegrees.hasCommonFriend id1 id2 friendsA friendsB

/-- SOURCE: CompareFriends.h:59-97 -/
def hasCommonFriendNew (fuel : ℕ) (routList : List (List ℤ)) (id1 id2 : ℤ)
    (newFriendsA allFriendsB : List ℤ) : Option (List (List ℤ)) :=
  (twoWay id fuel newFriendsA allFriendsB).map fun found =>
    routList ++ found.map fun p => [id1, p.1, id2]

end FriendsCompare

/-- A pair of entries that is tried for a route. -/
abbrev Pair := IndexInfo × IndexInfo

namespace FriendsCompareSixDegreesNew

/-- The pairs that are tried, in their order. SOURCE: CompareFriends.h:249-284 -/
def comparePrivate (fuel : ℕ) (newFriendsA allFriendsB : List IndexInfo) : Option (List Pair) :=
  twoWay IndexInfo.id fuel newFriendsA allFriendsB

/-- Nothing is compared unless both users have new entries. A round of the loop goes on at one side
at least, or all later rounds are like it. SOURCE: CompareFriends.h:126-147 -/
def hasCommonFriendNew (newFriendsA newFriendsB allFriendsA allFriendsB : List IndexInfo) :
    Option (List Pair) :=
  if allFriendsA = [] ∨ allFriendsB = [] ∨ newFriendsA = [] ∨ newFriendsB = [] then some []
  else do
    let pairsA ← comparePrivate (newFriendsA.length + allFriendsB.length) newFriendsA allFriendsB
    let pairsB ← comparePrivate (allFriendsA.length + newFriendsB.length) allFriendsA newFriendsB
    some (pairsA ++ pairsB)

end FriendsCompareSixDegreesNew

end Oce.SixDegrees
