import Oce.Base.Int32

/-!
# Friends who are fans, and friends who are not

`MutualFriendsCacheManagerI` runs through the fans of a page and the friends of a user side by side,
both ascending. It counts what it wants to return and returns what stands from `begin` on, until it
has counted enough or one of the two is at its end. The fans and the friends are what
`getAllFansAsc` and `getFriendsAsc` gave.
-/

set_option autoImplicit false

namespace Oce.Buddy

open Oce.Base

/-- The loop; `both` says whether the friends who are fans are wanted, or the others.
SOURCE: MutualFriendsCacheI.cpp:124-137, 160-175 -/
def pageLoop (both : Bool) (first stop : ℤ) : List ℤ → List ℤ → ℤ → List ℤ
  | f :: fids, u :: uids, count =>
    if count < stop then
      if f < u then pageLoop both first stop fids (u :: uids) count
      else if u < f then
        if both then pageLoop both first stop (f :: fids) uids count
        else (if first ≤ count then [u] else []) ++ pageLoop both first stop (f :: fids) uids (count + 1)
      else
        if both then (if first ≤ count then [f] else []) ++ pageLoop both first stop fids uids (count + 1)
        else pageLoop both first stop fids uids count
    else []
  | _, _, _ => []
termination_by fids uids => fids.length + uids.length

/-- The request, with the friends `uids` of the user `uid`. The sum of the two bounds is built in an
`int`, once both sequences have something. -/
def pageOf (both : Bool) (fids uids : List ℤ) (uid first limit : ℤ) : Option (List ℤ) :=
  if limit < -1 ∨ first < 0 ∨ uid < 0 then some []
  else
    let countLimit := if limit = -1 then asInt uids.length else limit
    if fids = [] ∨ uids = [] then some []
    else if IsInt (countLimit + first) then some (pageLoop both first (countLimit + first) fids uids 0)
    else none

/-- SOURCE: MutualFriendsCacheI.cpp:108-141 -/
def getMutualFriends : List ℤ → List ℤ → ℤ → ℤ → ℤ → Option (List ℤ) := pageOf true

/-- SOURCE: MutualFriendsCacheI.cpp:144-177 -/
def getUnMutualFriends : List ℤ → List ℤ → ℤ → ℤ → ℤ → Option (List ℤ) := pageOf false

/-- SOURCE: MutualFriendsCacheI.cpp:179-185 -/
def getMutualFriendsCount (fids uids : List ℤ) (uid : ℤ) : Option ℤ :=
  (getMutualFriends fids uids uid 0 (-1)).map fun l => asInt l.length

/-- SOURCE: MutualFriendsCacheI.cpp:187-193 -/
def getUnMutualFriendsCount (fids uids : List ℤ) (uid : ℤ) : Option ℤ :=
  (getUnMutualFriends fids uids uid 0 (-1)).map fun l => asInt l.length

end Oce.Buddy
