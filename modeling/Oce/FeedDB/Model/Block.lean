import Oce.Base.Descending
import Oce.Base.Window
import Oce.FeedDB.Model.Records

/-!
# A block of a data file

The `BlockCache` of the data node: a head and up to 63 feed items in descending order of
their feed ids. The array is filled from its end, so `Begin()` is the buffer's start
exactly when it is full; the list of the items in use stands for it, with `cur_count` its
length. The order and the bound are fields, so a block that breaks them cannot be built.

`Init`, `PutData`, `Remove`, `RemoveAll` and `GetData` are the operations of the source.
`reload` is what `DataFile::Locate` does to a block it has read: one whose head is all
zero, as in a region of the file that was never written, is initialised.
-/

set_option autoImplicit false

namespace Oce.FeedDB

open Oce.Base

section Values

/-- SOURCE: BlockCache.h:15-24 -/
structure BlockHead where
  userId : UInt32
  totalCount : UInt32
  preFileId : ℤ
  preBlockIndex : ℤ
  nextFileId : ℤ
  nextBlockIndex : ℤ
  deriving DecidableEq, Repr

/-- SOURCE: BlockCache.h:26-121 -/
structure Block where
  head : BlockHead
  items : List FeedItem
  sorted : Descending FeedItem.feed items
  fits : items.length ≤ recordPerBlock
  deriving DecidableEq

namespace Block

/-- `cur_count`. -/
def curCount (b : Block) : ℕ := b.items.length

/-- The record with this feed id. -/
def find (b : Block) (feed : ℤ) : Option FeedItem := lookup FeedItem.feed feed b.items

/-- SOURCE: BlockCache.h:41-43 -/
def isEmpty (b : Block) : Bool := b.items.isEmpty

/-- A block of a region of the file that was never written. SOURCE: File.cpp:164-171 -/
def zeroed : Block := ⟨⟨0, 0, 0, 0, 0, 0⟩, [], List.Pairwise.nil, by decide⟩

/-- SOURCE: BlockCache.cpp:29-49 -/
def init : Block := ⟨⟨0, 0, 0, -1, 0, -1⟩, [], List.Pairwise.nil, by decide⟩

/-- SOURCE: BlockCache.h:103-109 -/
def isZero (b : Block) : Bool :=
  b.head.userId = 0 ∧ b.head.preBlockIndex = 0 ∧ b.head.nextBlockIndex = 0

/-- A block just read from the file. SOURCE: File.cpp:490-499 -/
def reload (b : Block) : Block := if b.isZero then init else b

/-- `head->pre_file_id = ..., head->pre_block_index = ...`. -/
def setPre (b : Block) (fileId blockIndex : ℤ) : Block :=
  { b with head := { b.head with preFileId := fileId, preBlockIndex := blockIndex } }

/-- `head->next_file_id = ..., head->next_block_index = ...`. -/
def setNext (b : Block) (fileId blockIndex : ℤ) : Block :=
  { b with head := { b.head with nextFileId := fileId, nextBlockIndex := blockIndex } }

/-- `head->user_id = ...`. -/
def setUser (b : Block) (userId : UInt32) : Block :=
  { b with head := { b.head with userId := userId } }

/-- SOURCE: BlockCache.cpp:59-72 -/
def getData (b : Block) (count : ℕ) : List FeedItem := b.items.take count

theorem length_place_le {b : Block} (h : b.items.length ≠ recordPerBlock) (x : FeedItem)
    (overwrite : Bool) :
    (place FeedItem.feed x overwrite b.items).2.length ≤ recordPerBlock := by
  have hfits := b.fits
  rw [length_place]
  split <;> omega

/-- The scan of `PutData` over a block that is not full. SOURCE: BlockCache.cpp:116-141 -/
def placeItem (b : Block) (x : FeedItem) (overwrite : Bool)
    (h : b.items.length ≠ recordPerBlock) : Block where
  head := { b.head with
    totalCount :=
      if (place FeedItem.feed x overwrite b.items).1 = .inserted then b.head.totalCount + 1
      else b.head.totalCount }
  items := (place FeedItem.feed x overwrite b.items).2
  sorted := descending_place x overwrite b.sorted
  fits := length_place_le h x overwrite

/-- SOURCE: BlockCache.cpp:73-144 -/
def putData (b : Block) (blk : BlockInfo) (data : FeedItem) (overwrite : Bool) : Bool × Block :=
  if 0 < b.head.userId ∧ uint32 blk.userId ≠ b.head.userId then (false, b)
  else
    let b := b.setUser (uint32 blk.userId)
    if h : b.items.length = recordPerBlock then (false, b)
    else (decide ((place FeedItem.feed data overwrite b.items).1 ≠ .refused),
      b.placeItem data overwrite h)

/-- SOURCE: BlockCache.cpp:145-154, 160-165 -/
def remove (b : Block) (feed : ℤ) : Bool × Block :=
  ((removeKey FeedItem.feed feed b.items).1,
    { b with
      items := (removeKey FeedItem.feed feed b.items).2
      sorted := descending_removeKey feed b.sorted
      fits := (length_removeKey_le feed b.items).trans b.fits })

/-- SOURCE: BlockCache.cpp:156-158 -/
def removeAll (b : Block) : Block :=
  { b with items := [], sorted := List.Pairwise.nil, fits := by decide }

/-! ## What the operations do -/

@[ext] theorem ext {b b' : Block} (hh : b.head = b'.head) (hi : b.items = b'.items) : b = b' := by
  cases b
  cases b'
  congr

@[simp] theorem setPre_items (b : Block) (f i : ℤ) : (b.setPre f i).items = b.items := rfl
@[simp] theorem setNext_items (b : Block) (f i : ℤ) : (b.setNext f i).items = b.items := rfl
@[simp] theorem setUser_items (b : Block) (u : UInt32) : (b.setUser u).items = b.items := rfl
@[simp] theorem setPre_userId (b : Block) (f i : ℤ) :
    (b.setPre f i).head.userId = b.head.userId := rfl
@[simp] theorem setNext_userId (b : Block) (f i : ℤ) :
    (b.setNext f i).head.userId = b.head.userId := rfl
@[simp] theorem setUser_userId (b : Block) (u : UInt32) : (b.setUser u).head.userId = u := rfl
@[simp] theorem remove_head (b : Block) (feed : ℤ) : (b.remove feed).2.head = b.head := rfl
@[simp] theorem removeAll_head (b : Block) : b.removeAll.head = b.head := rfl
@[simp] theorem removeAll_items (b : Block) : b.removeAll.items = [] := rfl
@[simp] theorem init_items : init.items = [] := rfl
@[simp] theorem init_userId : init.head.userId = 0 := rfl

/-- Setting the owner a block has changes nothing. -/
@[simp] theorem setUser_self (b : Block) : b.setUser b.head.userId = b := rfl

/-- A block with an owner is kept as it was read. -/
theorem reload_of_userId {b : Block} (h : b.head.userId ≠ 0) : b.reload = b := by
  simp [reload, isZero, h]

@[simp] theorem reload_zeroed : zeroed.reload = init := rfl
@[simp] theorem reload_init : init.reload = init := rfl

/-- The block refuses the item: it is full, or it has the feed. -/
def Refuses (b : Block) (x : FeedItem) (overwrite : Bool) : Prop :=
  b.curCount = recordPerBlock ∨ overwrite = false ∧ b.find x.feed ≠ none

instance (b : Block) (x : FeedItem) (overwrite : Bool) : Decidable (b.Refuses x overwrite) :=
  inferInstanceAs (Decidable (_ ∨ _))

/-- The ways a `PutData` can go: the block is another user's, it is full, it has the feed,
or the item is written. -/
theorem putData_cases (b : Block) (blk : BlockInfo) (x : FeedItem) (overwrite : Bool) :
    (0 < b.head.userId ∧ uint32 blk.userId ≠ b.head.userId ∧
      b.putData blk x overwrite = (false, b)) ∨
    ((b.head.userId = 0 ∨ b.head.userId = uint32 blk.userId) ∧
      b.Refuses x overwrite ∧
      b.putData blk x overwrite = (false, b.setUser (uint32 blk.userId))) ∨
    ((b.head.userId = 0 ∨ b.head.userId = uint32 blk.userId) ∧
      ¬ b.Refuses x overwrite ∧
      ∃ h : (b.setUser (uint32 blk.userId)).items.length ≠ recordPerBlock,
        b.putData blk x overwrite =
          (true, (b.setUser (uint32 blk.userId)).placeItem x overwrite h)) := by
  unfold putData
  by_cases hu : 0 < b.head.userId ∧ uint32 blk.userId ≠ b.head.userId
  · rw [if_pos hu]
    exact Or.inl ⟨hu.1, hu.2, rfl⟩
  have howner : b.head.userId = 0 ∨ b.head.userId = uint32 blk.userId := by
    by_cases h0 : b.head.userId = 0
    · exact Or.inl h0
    · right
      by_contra hne
      exact hu ⟨UInt32.pos_iff_ne_zero.mpr h0, Ne.symm hne⟩
  rw [if_neg hu]
  have hiff := place_refused_iff x overwrite b.sorted
  by_cases hfull : b.items.length = recordPerBlock
  · refine Or.inr (Or.inl ⟨howner, Or.inl hfull, ?_⟩)
    simp [hfull]
  by_cases href : (place FeedItem.feed x overwrite b.items).1 = .refused
  · refine Or.inr (Or.inl ⟨howner, Or.inr (hiff.mp href), ?_⟩)
    have hitems := place_of_refused href
    simp only [setUser_items, hfull, dite_false, href, ne_eq, not_true_eq_false, decide_false,
      Prod.mk.injEq, true_and]
    apply ext
    · simp [placeItem, setUser, href]
    · exact hitems
  · refine Or.inr (Or.inr ⟨howner, ?_, hfull, ?_⟩)
    · rintro (h | h)
      · exact hfull h
      · exact href (hiff.mpr h)
    · simp only [setUser_items, dif_neg hfull, ne_eq, href, not_false_eq_true, decide_true]

/-- An item that is not refused is found afterwards. -/
theorem find_placeItem {b : Block} {x : FeedItem} {overwrite : Bool} (href : ¬ b.Refuses x overwrite)
    (h : b.items.length ≠ recordPerBlock) (feed : ℤ) :
    (b.placeItem x overwrite h).find feed = if x.feed = feed then some x else b.find feed := by
  have hne : (place FeedItem.feed x overwrite b.items).1 ≠ .refused := fun hp =>
    href (Or.inr ((place_refused_iff x overwrite b.sorted).mp hp))
  have hlookup := lookup_place x overwrite feed b.sorted
  simp only [hne, ne_eq, not_false_eq_true, true_and] at hlookup
  exact hlookup

theorem find_remove (b : Block) (feed feed' : ℤ) :
    (b.remove feed).2.find feed' = if feed' = feed then none else b.find feed' :=
  lookup_removeKey feed feed' b.sorted

/-- A removal that finds nothing leaves the block as it is. -/
theorem remove_of_not {b : Block} {feed : ℤ} (h : (b.remove feed).1 = false) :
    (b.remove feed).2 = b := by
  apply ext
  · rfl
  · exact removeKey_of_not h

/-- Two blocks with the same records have the same items. -/
theorem items_eq_of_find {b b' : Block} (h : ∀ feed, b.find feed = b'.find feed) :
    b.items = b'.items :=
  ext_lookup b.sorted b'.sorted h

end Block

end Values

/-!
## The buffer of a block

A block as it lies in memory: 63 slots for feed items, the head behind them, and the items
in the last `cur_count` slots. A pointer to an item is the number of its slot, so slots
below 0 and from 63 on are memory that the block does not own (slot 63 is its head). The
items grow to the front: an insertion moves the items before it one slot down, a removal one
slot up.

`PutData` goes through the items from the front, `Remove` finds its item by `lower_bound`.
`step` is one operation of a sequence, and `Models` says which `Block` a buffer stands for.
-/

/-- SOURCE: BlockCache.h:15-24, 112-114 -/
structure BlockBuf where
  head : BlockHead
  curCount : UInt32
  slots : ℤ → FeedItem

namespace BlockBuf

/-- `End()`, the place of the head. SOURCE: BlockCache.h:48-50, BlockCache.cpp:24-27 -/
def endPos : ℤ := recordPerBlock

/-- `Begin()`. SOURCE: BlockCache.h:44-47 -/
def beginPos (b : BlockBuf) : ℤ := endPos - b.curCount.toNat

/-- The last `cur_count` slots. -/
def items (b : BlockBuf) : List FeedItem := window b.slots b.beginPos b.curCount.toNat

/-- The bytes of the block are zeroed, whatever the memory held. SOURCE: BlockCache.cpp:29-47 -/
def init (memory : ℤ → FeedItem) : BlockBuf where
  head := ⟨0, 0, 0, -1, 0, -1⟩
  curCount := 0
  slots := fun i => if 0 ≤ i ∧ i < endPos then ⟨0, 0, 0, 0, 0, 0⟩ else memory i

/-- SOURCE: BlockCache.cpp:58-71 -/
def getData (b : BlockBuf) (count : UInt32) : List FeedItem :=
  let c := if b.curCount < count then b.curCount else count
  window b.slots (endPos - b.curCount.toNat) c.toNat

/-- The scan of `PutData` over the next `n` slots: the place it stops at, and whether the feed
is there. SOURCE: BlockCache.cpp:113-125 -/
def scan (slots : ℤ → FeedItem) (feed : ℤ) : ℕ → ℤ → ℤ × Bool
  | 0, pos => (pos, false)
  | n + 1, pos =>
    if (slots pos).feed < feed then (pos, false)
    else if (slots pos).feed = feed then (pos, true)
    else scan slots feed n (pos + 1)

/-- The items before `pos` move one slot down, and the new one goes into the gap.
SOURCE: BlockCache.cpp:127-132 -/
def insertAt (b : BlockBuf) (pos : ℤ) (data : FeedItem) : BlockBuf :=
  let slots := if pos ≠ b.beginPos then
    memmove (b.beginPos - 1) b.beginPos (pos - b.beginPos).toNat b.slots else b.slots
  { head := { b.head with totalCount := b.head.totalCount + 1 }
    curCount := b.curCount + 1
    slots := Function.update slots (pos - 1) data }

/-- The part of `PutData` behind the check of the user. SOURCE: BlockCache.cpp:94-139 -/
def putItem (b : BlockBuf) (data : FeedItem) (overwrite : Bool) : Bool × BlockBuf :=
  if b.beginPos = 0 then (false, b)
  else match scan b.slots data.feed (endPos - b.beginPos).toNat b.beginPos with
    | (pos, true) =>
      if overwrite then (true, { b with slots := Function.update b.slots pos data })
      else (false, b)
    | (pos, false) => (true, b.insertAt pos data)

/-- `head->user_id = ...`. -/
def setUser (b : BlockBuf) (userId : UInt32) : BlockBuf :=
  { b with head := { b.head with userId := userId } }

/-- SOURCE: BlockCache.cpp:73-143 -/
def putData (b : BlockBuf) (blk : BlockInfo) (data : FeedItem) (overwrite : Bool) :
    Bool × BlockBuf :=
  if 0 < b.head.userId ∧ uint32 blk.userId ≠ b.head.userId then (false, b)
  else (b.setUser (uint32 blk.userId)).putItem data overwrite

/-- SOURCE: BlockCache.cpp:160-165 -/
def find (b : BlockBuf) (feed : ℤ) : ℤ :=
  b.beginPos + bisect (fun item => decide (feed < item.feed)) b.items

/-- SOURCE: BlockCache.cpp:145-154 -/
def remove (b : BlockBuf) (feed : ℤ) : Bool × BlockBuf :=
  let pos := b.find feed
  if pos ≠ endPos ∧ (b.slots pos).feed = feed then
    (true, { b with
      slots := memmove (b.beginPos + 1) b.beginPos (pos - b.beginPos).toNat b.slots
      curCount := b.curCount - 1 })
  else (false, b)

/-- SOURCE: BlockCache.cpp:156-158 -/
def removeAll (b : BlockBuf) : BlockBuf := { b with curCount := 0 }

end BlockBuf

/-- The part of `PutData` behind the check of the user, for the block as a list. -/
def Block.putItem (b : Block) (data : FeedItem) (overwrite : Bool) : Bool × Block :=
  if h : b.items.length = recordPerBlock then (false, b)
  else (decide ((place FeedItem.feed data overwrite b.items).1 ≠ .refused),
    b.placeItem data overwrite h)

/-- The operations that change a block. -/
inductive BlockOp where
  | putData (blk : BlockInfo) (data : FeedItem) (overwrite : Bool)
  | remove (feed : ℤ)
  | removeAll
  deriving DecidableEq

def BlockBuf.step (b : BlockBuf) : BlockOp → BlockBuf
  | .putData blk data overwrite => (b.putData blk data overwrite).2
  | .remove feed => (b.remove feed).2
  | .removeAll => b.removeAll

def Block.step (b : Block) : BlockOp → Block
  | .putData blk data overwrite => (b.putData blk data overwrite).2
  | .remove feed => (b.remove feed).2
  | .removeAll => b.removeAll

namespace BlockBuf

/-- The buffer holds this block. -/
structure Models (b : BlockBuf) (block : Block) : Prop where
  head : b.head = block.head
  items : b.items = block.items

end BlockBuf

end Oce.FeedDB
