import Mathlib.Data.Int.Order.Basic
import Oce.Base.AscSeq
import Oce.Base.Bisect
import Oce.Base.Int32

/-!
# Members of a page among the friends of a user

`RelationData` holds the members of a page in the order in which the database gave them and is
searched, added to and removed from as if that were by ids. `GetCommon` intersects it with the
friends of a user and keeps what came out, page by page, in one string for the user; such a string
is here the list of items that it stands for.
-/

set_option autoImplicit false

namespace Oce.Buddy

open Oce.Base

/-! ## RelationData -/

/-- SOURCE: CommonFriendCacheI.h:30-110 -/
structure RelationData where
  ids : List ℤ
  timestamp : ℤ
  deriving DecidableEq

namespace RelationData

/-- The `lower_bound` of an id. -/
def place (d : RelationData) (id : ℤ) : ℕ := bisect (fun y => decide (y < id)) d.ids

/-- SOURCE: CommonFriendCacheI.h:58-67 -/
def find (d : RelationData) (id : ℤ) : Bool := (d.ids.drop (d.place id)).head? = some id

/-- SOURCE: CommonFriendCacheI.h:69-76 -/
def add (d : RelationData) (id : ℤ) : RelationData :=
  if d.find id then d
  else { d with ids := d.ids.take (d.place id) ++ id :: d.ids.drop (d.place id) }

/-- SOURCE: CommonFriendCacheI.h:78-84 -/
def remove (d : RelationData) (id : ℤ) : RelationData :=
  if d.find id then { d with ids := d.ids.take (d.place id) ++ (d.ids.drop (d.place id)).tail } else d

end RelationData

/-- The rows as they come, read at the time `now`. SOURCE: CommonFriendCacheI.h:249-264 -/
def createRelation (rows : List ℤ) (now : ℤ) : RelationData := ⟨rows, now⟩

/-! ## GetCommon -/

/-- One page of the string of a user. -/
structure Item where
  gid : ℤ
  common : List ℤ
  deriving DecidableEq

/-- `set_intersection` of the standard library. -/
def setIntersection : List ℤ → List ℤ → List ℤ
  | x :: l, y :: m =>
    if x < y then setIntersection l (y :: m)
    else if y < x then setIntersection (x :: l) m
    else x :: setIntersection l m
  | _, _ => []
termination_by l m => l.length + m.length

/-- The answer of the friend service, cut at 2000; without an answer there are no friends.
SOURCE: CommonFriendCacheI.cpp:65-70 -/
def getFriendListAsc (friends : AscSeq ℤ) (answered : Bool) : List ℤ :=
  if answered then friends.vals.take 2000 else []

/-- The string of the user behind the computation. SOURCE: CommonFriendCacheI.cpp:48-105 -/
def computeMessage (globalId : ℤ) (userIdSeq friendIdSeq : List ℤ) (data : List Item) : List Item :=
  let commonFriendSeq := setIntersection userIdSeq friendIdSeq
  if commonFriendSeq = [] then data else data ++ [⟨globalId, commonFriendSeq⟩]

/-- SOURCE: CommonFriendCacheI.h:206-212 -/
def checkParam (first limit : ℤ) : Bool := ¬(first < 0 ∨ limit < -1 ∨ limit = 0)

/-- The part of an item that was asked for; the end is built in an `int`.
SOURCE: CommonFriendCacheI.cpp:221-232 -/
def sliceOf (common : List ℤ) (first limit : ℤ) : Option (List ℤ) :=
  if limit = -1 then some (common.drop first.toNat)
  else if IsInt (first + limit) then some ((common.take (first + limit).toNat).drop first.toNat)
  else none

/-- What the two caches hold of a page and a user. -/
structure CommonCaches where
  relation : Option RelationData
  commons : Option (List Item)

/-- What is left to a thread of the pool. -/
inductive RelationTask where
  | load
  | reload

/-- The answer, the caches behind it and the task that was started.
SOURCE: CommonFriendCacheI.cpp:152-237 -/
def getCommon (c : CommonCaches) (friends : AscSeq ℤ) (answered : Bool) (globalId now first limit : ℤ) :
    Option (List ℤ) × CommonCaches × Option RelationTask :=
  if checkParam first limit then
    match c.relation with
    | none => (some [], c, some .load)
    | some rdata =>
      if 7200 < now - rdata.timestamp then
        (some [], { c with relation := some { rdata with timestamp := now } }, some .reload)
      else
        let items := c.commons.getD []
        let hit := items.any fun item => globalId = item.gid
        let data :=
          if hit then items
          else computeMessage globalId (getFriendListAsc friends answered) rdata.ids items
        let commons := if hit ∨ data = items then c.commons else some data
        match data.find? fun item => globalId = item.gid with
        | none => (some [], { c with commons := commons }, none)
        | some item => (sliceOf item.common first limit, { c with commons := commons }, none)
  else (some [], c, none)

/-! ## Updates -/

/-- What the updates of a page do to its members. -/
inductive MemberUpdate where
  | add (id : ℤ)
  | remove (id : ℤ)

/-- SOURCE: CommonFriendCacheI.cpp:268-294 -/
def RelationData.update (d : RelationData) : MemberUpdate → RelationData
  | .add id => d.add id
  | .remove id => d.remove id

end Oce.Buddy
