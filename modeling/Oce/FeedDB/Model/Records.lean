import Mathlib.Data.Int.Basic
import Mathlib.Data.Int.Order.Basic

/-!
# The records the feed database exchanges

The slice records of `FeedDB.ice` and `RFeed.ice`, with the constants both programs
derive from them. An `int` field is an integer; the conversions to `UINT32` the code
makes are the functions `uint32` and `int32` below.
-/

set_option autoImplicit false

namespace Oce.FeedDB

/-- Blocks of a data file. SOURCE: FeedDB.ice:14 -/
def blockCount : ℤ := 2000000

/-- Bytes of a block. SOURCE: FeedDB.ice:15 -/
def blockSize : ℕ := 2048

/-- Bytes of a `FeedItem`: two longs and four ints. SOURCE: RFeed.ice:33-40 -/
def sizeofFeedItem : ℕ := 32

/-- Feed items of a block; one slot of the block is kept for its head.
SOURCE: Cache.h:47, DataNodeManager.h:48 -/
def recordPerBlock : ℕ := blockSize / sizeofFeedItem - 1

@[simp] theorem recordPerBlock_eq : recordPerBlock = 63 := rfl

/-- A feed. SOURCE: RFeed.ice:33-40 -/
structure FeedItem where
  feed : ℤ
  merge : ℤ
  type : ℤ
  time : ℤ
  weight : ℤ
  actor : ℤ
  deriving DecidableEq, Repr

/-- Where a record of a user goes: its block, the counts after it is written, and the
block before it. SOURCE: FeedDB.ice:19-29 -/
structure BlockInfo where
  serverId : ℤ
  userId : ℤ
  totalCount : ℤ
  curCount : ℤ
  fileId : ℤ
  blockIndex : ℤ
  preFileId : ℤ
  preBlockIndex : ℤ
  weight : ℤ
  deriving DecidableEq, Repr

/-- A record of the log: a feed and its block. SOURCE: FeedDB.ice:33-36 -/
structure FeedItemBlockInfo where
  item : FeedItem
  blk : BlockInfo
  deriving DecidableEq, Repr

/-- The cast `(UINT32)` of an `int`. -/
def uint32 (i : ℤ) : UInt32 := UInt32.ofInt i

/-- A `UINT32` assigned to an `int`. -/
def int32 (u : UInt32) : ℤ := u.toInt32.toInt

/-- An unsigned value survives its round trip through `int`. -/
@[simp] theorem uint32_int32 (u : UInt32) : uint32 (int32 u) = u := by
  have h : int32 u = Int.bmod u.toNat 4294967296 := by
    simp only [int32, Int32.toInt, Int32.toBitVec, UInt32.toInt32, BitVec.toInt_eq_toNat_bmod]
    rfl
  have hu := u.toNat_lt
  have hm : Int.bmod u.toNat 4294967296 % 4294967296 = u.toNat % 4294967296 := by
    simpa using Int.bmod_emod (x := (u.toNat : ℤ)) (m := 4294967296)
  apply UInt32.toNat_inj.mp
  rw [h, uint32, UInt32.ofInt]
  simp only [UInt32.toNat_ofNat']
  omega

/-- A count between 0 and 63 passes the bound `(UINT32)curCount <= RECORD_PER_BLOCK`. -/
theorem uint32_le_recordPerBlock {c : ℤ} (h0 : 0 ≤ c) (h : c ≤ recordPerBlock) :
    uint32 c ≤ UInt32.ofNat recordPerBlock := by
  rw [recordPerBlock_eq] at h ⊢
  rw [uint32, UInt32.ofInt, UInt32.le_iff_toNat_le]
  simp only [UInt32.toNat_ofNat']
  omega

/-- The record carries an item and is not a removal. -/
def IsInsert (data : FeedItemBlockInfo) : Prop :=
  0 ≤ data.item.feed ∧ uint32 data.blk.curCount ≤ UInt32.ofNat recordPerBlock

instance (data : FeedItemBlockInfo) : Decidable (IsInsert data) :=
  inferInstanceAs (Decidable (_ ∧ _))

end Oce.FeedDB
