import Oce.Base.Bytes
import Oce.Base.Int32
import Oce.Buddy.Model.Relation

/-!
# The friend list with its bit filter

Beside the six lists of a user, `BuddyList` has a small table of bits, one for each remainder by a
prime that is picked by the number of friends. A lookup asks the table first. The ids of the lists
are `int`s and the ids of the table are `uint32_t`s, so every id passes from the one to the other.

`at` throws where the position is not there, which is `none` here.
-/

set_option autoImplicit false

namespace Oce.Buddy

open Oce.Base

/-! ## Searching the lists -/

/-- SOURCE: BuddyRelation.cpp:59-69, BuddyListI.cpp:102-112 -/
def findSeq (toId : ℤ) (seq : AscSeq ℤ) : Bool := (lowerBound toId seq.vals).head? = some toId

/-- The first of the lists that the user is in. SOURCE: BuddyRelation.cpp:119-155 -/
def BuddyRelation.getDesc (r : BuddyRelation) (toId : ℤ) : BuddyDesc :=
  if findSeq toId r.apply then .apply
  else if findSeq toId r.applied then .applied
  else if findSeq toId r.friends then .friend
  else if findSeq toId r.block then .block
  else if findSeq toId r.blocked then .blocked
  else if findSeq toId r.biblock then .biBlock
  else .noPath

/-! ## Numbers -/

/-- An `int` as a `uint32_t`. -/
def toUInt32 (n : ℤ) : ℕ := (n % 2 ^ 32).toNat

/-- A `uint32_t` as an `int`. -/
def ofUInt32 (n : ℕ) : ℤ := asInt n

/-! ## BuddyListHelper -/

/-- SOURCE: BuddyListI.h:13-21 -/
def primeArray : List ℕ := [29, 71, 131, 431, 761, 1103]

/-- SOURCE: BuddyListI.h:43-61 -/
def getPrimeNum (num : ℕ) : Byte :=
  if num > 50 then
    if num < 200 then 3
    else if num < 350 then 4
    else if num < 500 then 5
    else 0xFF
  else if num > 30 then 2
  else if num > 10 then 1
  else 0

/-- The bit of a byte that the `switch` picks. SOURCE: BuddyListI.h:65-92, 137-172 -/
def bitOf : ℕ → Byte
  | 0 => 0x01
  | 1 => 0x02
  | 2 => 0x04
  | 3 => 0x08
  | 4 => 0x10
  | 5 => 0x20
  | 6 => 0x40
  | 7 => 0x80
  | _ => 0

/-- SOURCE: BuddyListI.h:63-93 -/
def setBit (id : ℕ) (littlehash : List Byte) (index : Byte) : Option (List Byte) := do
  let prime ← primeArray[index.toNat]?
  let offset := id % prime
  let byte ← littlehash[offset / 8]?
  some (littlehash.set (offset / 8) (byte ||| bitOf (offset % 8)))

/-- SOURCE: BuddyListI.h:132-174 -/
def findHash (id : ℕ) (littlehash : List Byte) (index : Byte) : Option Bool :=
  if littlehash = [] ∨ index = 0xFF then some false
  else do
    let prime ← primeArray[index.toNat]?
    let offset := id % prime
    let byte ← littlehash[offset / 8]?
    some (byte &&& bitOf (offset % 8) ≠ 0)

/-- The ids that go into the table, list after list. -/
def BuddyRelation.hashed (r : BuddyRelation) : List ℤ :=
  r.friends.vals ++ r.apply.vals ++ r.applied.vals ++ r.block.vals ++ r.blocked.vals ++ r.biblock.vals

/-- The table and its index. SOURCE: BuddyListI.h:94-130 -/
def initHash (r : BuddyRelation) : Option (List Byte × Byte) :=
  let index := getPrimeNum (r.friends.vals.length % 2 ^ 32)
  if index = 0xFF then some ([], index)
  else do
    let prime ← primeArray[index.toNat]?
    let littlehash ← r.hashed.foldlM (fun littlehash id => setBit (toUInt32 id) littlehash index)
      (List.replicate (prime / 8 + 1) 0)
    some (littlehash, index)

/-! ## BuddyListI -/

/-- SOURCE: BuddyCommon.ice:98-102 -/
structure BuddyList where
  hbr : BuddyRelation
  hlittlehash : List Byte
  hindex : Byte

namespace BuddyList

/-- SOURCE: BuddyCreate.h:154-160 -/
def create (r : BuddyRelation) : Option BuddyList :=
  (initHash r).map fun h => ⟨r, h.1, h.2⟩

/-- The relation, and the counts of the lookups that the table answered and of all of them.
SOURCE: BuddyListI.cpp:23-66 -/
def getDesc (l : BuddyList) (id hit total : ℕ) : Option (BuddyDesc × ℕ × ℕ) := do
  let found ← findHash id l.hlittlehash l.hindex
  if found then some (l.hbr.getDesc (ofUInt32 id), hit, total + 1)
  else some (.noPath, hit + 1, total + 1)

/-- SOURCE: BuddyListI.cpp:68-79 -/
def isFriend (l : BuddyList) (id : ℕ) : Option Bool := do
  let found ← findHash id l.hlittlehash l.hindex
  if found then some (findSeq (ofUInt32 id) l.hbr.friends) else some false

end BuddyList

end Oce.Buddy
