import Mathlib.Algebra.Group.Int.Defs
import Mathlib.Algebra.Group.Nat.Defs
import Mathlib.Data.Int.Order.Basic
import Mathlib.Logic.Function.Basic
import Oce.Base.OrdMap
import Oce.Base.Run
import Oce.TalkCommon.Model.Types

/-!
# The pool of the users who are online

A user has an avatar for each client that is logged in, found by the index of its jid. The
pool keeps the avatars of each kind in a list, the oldest first, and what the user keeps is
the avatar's position in its list.

A position is a list node and the avatar it holds; `nodes` counts the nodes that were made,
so that no two are the same. What only goes into statistics (the time a user has been on) is
left out.
-/

set_option autoImplicit false

namespace Oce.OnlineCenter

open Oce.Base Oce.TalkCommon

/-! ## Kinds -/

/-- SOURCE: User.h:17-23 -/
def unknowType : ℕ := 0

def webOnline : ℕ := 1

def wpOnline : ℕ := 2

def imOnline : ℕ := 4

def phoneOnline : ℕ := 8

/-- The kind by the first character of the endpoint. SOURCE: User.h:25-37 -/
def onlineTypeFromJid (jid : Jid) : ℕ :=
  match jid.endpoint.toList.head? with
  | some 'W' => wpOnline
  | some 'T' => imOnline
  | some 'w' => webOnline
  | some 'P' => phoneOnline
  | _ => unknowType

/-! ## Lists -/

/-- A `list<AvatarPtr>::iterator`. -/
structure Pos where
  node : ℕ
  avatar : Avatar
  deriving DecidableEq, Repr

/-- The kind of the list that the position is in. -/
def Pos.kind (pos : Pos) : ℕ := onlineTypeFromJid pos.avatar.jid

/-- `UserPool::_avatars`. -/
abbrev AvatarLists := ℕ → List Pos

namespace AvatarLists

/-- `push_back` into the list of the kind of `pos`. -/
def pushBack (lists : AvatarLists) (pos : Pos) : AvatarLists :=
  Function.update lists pos.kind (lists pos.kind ++ [pos])

/-- SOURCE: User.h:116-119 -/
def erase (lists : AvatarLists) (pos : Pos) : AvatarLists :=
  Function.update lists pos.kind ((lists pos.kind).filter fun p => p.node ≠ pos.node)

/-- The node of `pos` holds its avatar from now on. -/
def assign (lists : AvatarLists) (pos : Pos) : AvatarLists :=
  Function.update lists pos.kind
    ((lists pos.kind).map fun p => if p.node = pos.node then pos else p)

end AvatarLists

/-! ## Users -/

/-- SOURCE: User.h:39-79 -/
structure User where
  avatars : OrdMap ℤ Pos
  onlineStat : OnlineStat
  onlineType : ℕ

namespace User

/-- SOURCE: User.h:41-44 -/
def new : User := ⟨.empty, .online, 0⟩

/-- SOURCE: User.h:46-51 -/
def shownType (u : User) : ℕ := if u.onlineStat = .invisiable then unknowType else u.onlineType

/-- The kind of an avatar in `updateOnlineStatAndOnlineType`. SOURCE: User.cpp:73-87 -/
def typeOf (pos : Pos) : ℕ :=
  match pos.avatar.jid.endpoint.toList.head? with
  | some 'W' => wpOnline
  | some 'T' => imOnline
  | some 'P' => phoneOnline
  | _ => unknowType

/-- The kinds of the avatars together. -/
def unionOfTypes (l : List Pos) : ℕ := l.foldl (fun t pos => t ||| typeOf pos) unknowType

/-- The lowest status of the avatars. SOURCE: User.cpp:88-90 -/
def leastStat (l : List Pos) : OnlineStat :=
  l.foldl (fun s pos => if pos.avatar.stat.val < s.val then pos.avatar.stat else s) .online

/-- SOURCE: User.cpp:66-98 -/
def updateOnlineStatAndOnlineType (u : User) : User :=
  { u with onlineType := unionOfTypes u.avatars.values, onlineStat := leastStat u.avatars.values }

/-- The endpoints that `add` takes. SOURCE: User.cpp:16-29 -/
def accepts (jid : Jid) : Bool :=
  if jid.endpoint = "" ∨ jid.endpoint = "web" then false
  else
    match jid.endpoint.toList.head? with
    | some 'W' | some 'T' | some 'P' => true
    | _ => false

/-- The new avatar takes over what the one that it replaces knows. SOURCE: User.cpp:41-47 -/
def inherit (pos old : Pos) : Pos :=
  { pos with avatar := { pos.avatar with
      ver := if pos.avatar.ver = "" then old.avatar.ver else pos.avatar.ver
      ext := if pos.avatar.ext = "" then old.avatar.ext else pos.avatar.ext
      stamp := old.avatar.stamp } }

/-- SOURCE: User.cpp:13-64 -/
def add (u : User) (lists : AvatarLists) (pos : Pos) : Bool × AvatarLists × User :=
  let jid := pos.avatar.jid
  if accepts jid then
    match u.avatars.find jid.index with
    | some old =>
      let pos := inherit pos old
      (true, (lists.assign pos).erase old,
        ({ u with avatars := u.avatars.insert jid.index pos } : User).updateOnlineStatAndOnlineType)
    | none =>
      (true, lists,
        ({ u with avatars := u.avatars.insert jid.index pos } : User).updateOnlineStatAndOnlineType)
  else (false, lists, u)

/-- The user with the avatar at `index` gone. SOURCE: User.cpp:99-113 -/
def remove (u : User) (lists : AvatarLists) (index : ℤ) : AvatarLists × User :=
  match u.avatars.find index with
  | none => (lists, u)
  | some pos =>
    let u' : User := { u with avatars := u.avatars.erase index }
    (lists.erase pos,
      if u'.avatars.entries.isEmpty then u' else u'.updateOnlineStatAndOnlineType)

/-- One round of the loop over the avatars. SOURCE: User.cpp:118-126 -/
def removeAt (endpoint : String) (s : AvatarLists × User) (e : ℤ × Pos) : AvatarLists × User :=
  if e.2.avatar.jid.endpoint ≠ endpoint then s
  else (s.1.erase e.2, { s.2 with avatars := s.2.avatars.erase e.1 })

/-- The user with the avatars at `endpoint` gone. SOURCE: User.cpp:115-142 -/
def removeEndpoint (u : User) (lists : AvatarLists) (endpoint : String) : AvatarLists × User :=
  let s := u.avatars.entries.foldl (removeAt endpoint) (lists, u)
  (s.1, if s.2.avatars.entries.isEmpty then s.2 else s.2.updateOnlineStatAndOnlineType)

/-- The loop of `getJidSeq` and `getAvatars`, which tells the kinds by the index and stops at
the first client avatar that is not asked for. SOURCE: User.cpp:147-165, 193-211 -/
def select (onlineType : ℕ) : List (ℤ × Pos) → List Avatar
  | [] => []
  | e :: l =>
    if e.1 = 0 then
      if onlineType &&& wpOnline ≠ 0 then e.2.avatar :: select onlineType l else select onlineType l
    else if e.1 = 2 then
      if onlineType &&& phoneOnline ≠ 0 then e.2.avatar :: select onlineType l
      else select onlineType l
    else if onlineType &&& imOnline ≠ 0 then e.2.avatar :: select onlineType l
    else []

/-- SOURCE: User.cpp:189-212 -/
def getAvatars (u : User) (onlineType : ℕ) : List Avatar := select onlineType u.avatars.entries

/-- SOURCE: User.cpp:144-166 -/
def getJidSeq (u : User) (onlineType : ℕ) : List Jid :=
  (select onlineType u.avatars.entries).map Avatar.jid

end User

/-! ## The pool -/

/-- SOURCE: User.h:82-138 -/
structure UserPool where
  users : OrdMap ℤ User
  avatars : AvatarLists
  nodes : ℕ

namespace UserPool

def empty : UserPool := ⟨.empty, fun _ => [], 0⟩

/-- Whether the avatar was taken, and the pool; `endpoint.at(0)` throws for an empty endpoint,
which leaves the pool as it is. SOURCE: User.cpp:271-289 -/
def add (p : UserPool) (avatar : Avatar) : Bool × UserPool :=
  if avatar.jid.endpoint = "" then (false, p)
  else
    let userId := avatar.jid.userId
    match p.users.find userId with
    | none =>
      let r := User.new.add (p.avatars.pushBack ⟨p.nodes, avatar⟩) ⟨p.nodes, avatar⟩
      (r.1, ⟨if r.1 then p.users.insert userId r.2.2 else p.users, r.2.1, p.nodes + 1⟩)
    | some u =>
      let r := u.add (p.avatars.pushBack ⟨p.nodes, avatar⟩) ⟨p.nodes, avatar⟩
      (r.1, ⟨p.users.insert userId r.2.2, r.2.1, p.nodes + 1⟩)

/-- A user whose avatars are gone is put out of the pool. SOURCE: User.cpp:340-346, 358-367 -/
def put (p : UserPool) (userId : ℤ) (s : AvatarLists × User) : UserPool :=
  { p with
    users := if s.2.avatars.entries.isEmpty then p.users.erase userId else p.users.insert userId s.2
    avatars := s.1 }

/-- SOURCE: User.cpp:328-347 -/
def remove (p : UserPool) (jid : Jid) : UserPool :=
  match p.users.find jid.userId with
  | none => p
  | some u => p.put jid.userId (u.remove p.avatars jid.index)

/-- One round of the loop over the users. SOURCE: User.cpp:355-368 -/
def removeEndpointOf (endpoint : String) (p : UserPool) (userId : ℤ) : UserPool :=
  match p.users.find userId with
  | none => p
  | some u => p.put userId (u.removeEndpoint p.avatars endpoint)

/-- SOURCE: User.cpp:349-370 -/
def removeEndpoint (p : UserPool) (endpoint : String) : UserPool :=
  (p.users.entries.map Prod.fst).foldl (removeEndpointOf endpoint) p

/-- SOURCE: User.cpp:424-436 -/
def getUserOnlineType (p : UserPool) (userId : ℤ) : ℕ :=
  match p.users.find userId with
  | none => unknowType
  | some u => u.shownType

/-- SOURCE: User.cpp:437-446 -/
def getUserOnlineStat (p : UserPool) (userId : ℤ) : OnlineStat :=
  match p.users.find userId with
  | none => .offline
  | some u => u.onlineStat

/-- SOURCE: User.cpp:450-462 -/
def getUserBitmapValue (p : UserPool) (userId : ℤ) : ℕ :=
  match p.users.find userId with
  | none => 0
  | some u => u.shownType ||| (u.onlineStat.val <<< 4)

/-- SOURCE: User.cpp:518-529 -/
def getUsersBitmapValues (p : UserPool) : List (ℤ × ℤ) :=
  p.users.entries.map fun e => (e.1, ((e.2.shownType ||| (e.2.onlineStat.val <<< 4) : ℕ) : ℤ))

/-- The loop of `getOldestAvatars`. SOURCE: User.cpp:540-548 -/
def takeOldest (beg limit : ℤ) : ℤ → List Pos → List Avatar
  | _, [] => []
  | count, pos :: l =>
    if beg ≤ count ∧ count - beg < limit then pos.avatar :: takeOldest beg limit (count + 1) l else []

/-- The difference of a place and `beg` is an `int`. SOURCE: User.cpp:531-550 -/
def getOldestAvatars (p : UserPool) (beg limit : ℤ) (type : ℕ) : List Avatar :=
  takeOldest beg limit 0 (p.avatars type)

end UserPool

/-- What is done to a pool. -/
inductive PoolOp where
  | presence (avatar : Avatar)
  | offline (jid : Jid)
  | removeEndpoint (endpoint : String)

/-- One step of a pool. -/
def PoolOp.step (p : UserPool) : PoolOp → UserPool
  | presence avatar => (p.add avatar).2
  | offline jid => p.remove jid
  | removeEndpoint endpoint => p.removeEndpoint endpoint

end Oce.OnlineCenter
