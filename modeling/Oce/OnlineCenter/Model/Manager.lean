import Mathlib.Data.Int.Bitwise
import Oce.Base.Int32
import Oce.OnlineCenter.Model.UserPool

/-!
# The manager of the pools and the bitmap of the users

The manager keeps the users in `kUserPoolCount` pools by their ids, and sends what a user shows
to the bitmap service, which has a `char` for each id. A call runs to its end, what it sends
included; the notices that go to the buddies are left out.

`SyncBitmap` with the number of a pool goes through the ids of that pool with an `int`. Its loops
are run for a number of rounds, and `touched` keeps the indices that it has used.
-/

set_option autoImplicit false

namespace Oce.OnlineCenter

open Oce.Base Oce.TalkCommon

/-! ## The bitmap -/

/-- A byte for each id from 0 to below 2147483647. SOURCE: OnlineBitmapManagerI.h:50 -/
abbrev Bitmap := ℤ → BitVec 8

namespace Bitmap

/-- `SyncBitmap` with `userPoolIndex` -1. SOURCE: OnlineBitmapManagerI.cpp:133-143 -/
def syncBitmap (bitmap : Bitmap) (stateSeq : List (ℤ × ℕ)) : Bitmap :=
  stateSeq.foldl
    (fun b p => if 0 < p.1 then Function.update b p.1 (BitVec.ofNat 8 p.2) else b) bitmap

/-- SOURCE: OnlineBitmapManagerI.cpp:161-168 -/
def getUserType (bitmap : Bitmap) (userId : ℤ) : ℕ := (bitmap userId &&& 14#8).toNat

/-- SOURCE: OnlineBitmapManagerI.cpp:197-204 -/
def getUserStat (bitmap : Bitmap) (userId : ℤ) : ℤ := (bitmap userId).toInt >>> 4

end Bitmap

/-! ## The manager -/

/-- SOURCE: OnlineCenter.ice:18 -/
def kUserPoolCount : ℤ := 100000

/-- The manager's pools, and the bitmap. -/
structure Center where
  pools : ℤ → UserPool
  bitmap : Bitmap

namespace Center

/-- SOURCE: OnlineManagerI.cpp:62-69, OnlineBitmapManagerI.cpp:67 -/
def new : Center := ⟨fun _ => .empty, fun _ => 0⟩

/-- The number of a user's pool. SOURCE: OnlineManagerI.cpp:71-79 -/
def getPool (userId : ℤ) : Option ℤ :=
  if 0 ≤ userId then some (userId % kUserPoolCount) else none

def setPool (c : Center) (i : ℤ) (pool : UserPool) : Center :=
  { c with pools := Function.update c.pools i pool }

/-- The one user's value goes to the bitmap. -/
def sync (c : Center) (userId : ℤ) (onlineType : ℕ) : Center :=
  { c with bitmap := c.bitmap.syncBitmap [(userId, onlineType)] }

/-- SOURCE: OnlineManagerI.cpp:88-159 -/
def presence (c : Center) (avatar : Avatar) : Center :=
  let userId := avatar.jid.userId
  match getPool userId with
  | none => c
  | some i =>
    if avatar.jid.endpoint = "web" then c
    else
      let r := (c.pools i).add avatar
      if r.1 then (c.setPool i r.2).sync userId (r.2.getUserBitmapValue userId)
      else c.setPool i r.2

/-- SOURCE: OnlineManagerI.cpp:204-248 -/
def offline (c : Center) (jid : Jid) : Center :=
  match getPool jid.userId with
  | none => c
  | some i =>
    let pool := (c.pools i).remove jid
    (c.setPool i pool).sync jid.userId (pool.getUserOnlineType jid.userId)

/-- SOURCE: OnlineManagerI.cpp:556-560, 611-670, 755-765 -/
def closeProxyServer (c : Center) (endpoint : String) : Center :=
  { c with
    pools := fun i =>
      if 0 ≤ i ∧ i < kUserPoolCount then (c.pools i).removeEndpoint endpoint else c.pools i }

end Center

/-! ## A pool at a time -/

/-- SOURCE: OnlineBitmapManagerI.h:22 -/
def BITMAP_SIZE : ℤ := 0x7fffffff

/-- `onlineType` is an `int` and goes into a `char`. SOURCE: OnlineCenter.ice:11-22 -/
structure SyncBitmapData where
  userPoolIndex : ℤ
  stateSeq : List (ℤ × ℤ)

/-- What is sent for a pool. SOURCE: OnlineManagerI.cpp:700-719 -/
def Center.reloadUserPool (c : Center) (poolIndex : ℤ) : SyncBitmapData where
  userPoolIndex := poolIndex
  stateSeq := (c.pools (poolIndex % kUserPoolCount)).getUsersBitmapValues

/-- Where `SyncBitmap` stands. -/
structure Sweep where
  pos : ℤ
  bitmap : Bitmap
  touched : List ℤ

namespace Sweep

/-- `bitmap_[i] = onlineType` -/
def store (s : Sweep) (i onlineType : ℤ) : Sweep where
  pos := s.pos
  bitmap := Function.update s.bitmap i (BitVec.ofInt 8 onlineType)
  touched := s.touched ++ [i]

/-- `pos += kUserPoolCount` -/
def advance (s : Sweep) : Sweep := { s with pos := asInt (s.pos + kUserPoolCount) }

/-- A round of the loops that clear. SOURCE: OnlineBitmapManagerI.cpp:102-107, 122-127 -/
def clear (s : Sweep) : Sweep := (s.store s.pos 0).advance

/-- The ids before the next user. SOURCE: OnlineBitmapManagerI.cpp:101-108 -/
def gap (userId : ℤ) (fuel : ℕ) (s : Sweep) : Option Sweep :=
  whileLoop (fun s => s.pos < userId) clear fuel s

/-- SOURCE: OnlineBitmapManagerI.cpp:99-118 -/
def users (fuel : ℕ) : List (ℤ × ℤ) → Sweep → Option Sweep
  | [], s => some s
  | next :: l, s => (gap next.1 fuel s).bind fun s => users fuel l (s.store next.1 next.2).advance

/-- The ids after the last user. SOURCE: OnlineBitmapManagerI.cpp:120-128 -/
def tail (fuel : ℕ) (s : Sweep) : Option Sweep :=
  whileLoop (fun s => 0 < s.pos) clear fuel s.advance

/-- Every state is stored, whatever the user had. SOURCE: OnlineBitmapManagerI.cpp:89-94 -/
def storeAll (s : Sweep) (l : List (ℤ × ℤ)) : Sweep := l.foldl (fun s p => s.store p.1 p.2) s

end Sweep

/-- `reloadCount` is `g_reload_count`. SOURCE: OnlineBitmapManagerI.cpp:86-144 -/
def SyncBitmap (reloadCount : ℤ) (data : SyncBitmapData) (bitmap : Bitmap) (fuel : ℕ) :
    Option Sweep :=
  let s : Sweep := ⟨data.userPoolIndex, bitmap, []⟩
  if 0 ≤ data.userPoolIndex then
    if reloadCount = 1 then some (s.storeAll data.stateSeq)
    else if 1 < reloadCount then (Sweep.users fuel data.stateSeq s).bind (Sweep.tail fuel)
    else some s
  else some (s.storeAll (data.stateSeq.filter fun p => 0 < p.1))

/-- A call of the manager. -/
inductive CenterOp where
  | presence (avatar : Avatar)
  | offline (jid : Jid)
  | closeProxyServer (endpoint : String)

/-- One step of the manager. -/
def CenterOp.step (c : Center) : CenterOp → Center
  | presence avatar => c.presence avatar
  | offline jid => c.offline jid
  | closeProxyServer endpoint => c.closeProxyServer endpoint

end Oce.OnlineCenter
