import Oce.FeedDB.Analysis.RestoreSteps

/-!
# Replaying a log over a newer image

After a crash the log is replayed from its start over blocks that were flushed somewhere
in the middle of it. `Slot` is the abstract view of one block for one feed id: whether the
block is in memory, its owner, and the record with that id. `Slot.step` is what a record
of the log does to it, and as long as no block overflows it is what the node does
(`slot_restoreRecord`, `slot_restore`).
-/

set_option autoImplicit false

namespace Oce.FeedDB

open Oce.Base Node

variable {n n' : Node} {id : BlockId} {b : Block} {data : FeedItemBlockInfo} {feed : ℤ}
  {feeds : List ℤ}

/-- One block, seen for one feed id. -/
structure Slot where
  loaded : Bool
  user : UInt32
  item : Option FeedItem
  deriving DecidableEq

namespace Slot

/-- The put of a record into the block. -/
def put (data : FeedItemBlockInfo) (feed : ℤ) (s : Slot) : Slot :=
  let s := if data.blk.curCount = 1 ∧ s.loaded = false then ⟨true, 0, none⟩
    else { s with loaded := true }
  if s.user ≠ 0 ∧ s.user ≠ uint32 data.blk.userId then s
  else if uint32 data.blk.curCount ≤ UInt32.ofNat recordPerBlock then
    { s with
      user := uint32 data.blk.userId
      item := if data.item.feed = feed then s.item.or (some data.item) else s.item }
  else s

/-- The removal, or the put with the pointer update it issues. -/
def main (id : BlockId) (feed : ℤ) (s : Slot) (data : FeedItemBlockInfo) : Slot :=
  if data.item.feed < 0 then
    if data.blk.id = id ∧ id.isNone = false then
      { s with loaded := true, item := if -data.item.feed = feed then none else s.item }
    else s
  else
    let s := if data.blk.id = id then s.put data feed else s
    if data.blk.curCount = 1 ∧ data.blk.preId = id ∧ id.isNone = false then
      { s with loaded := true } else s

/-- What a record of the log does to block `id`, seen for one feed id. -/
def step (id : BlockId) (feed : ℤ) (s : Slot) (data : FeedItemBlockInfo) : Slot :=
  if data.blk.curCount = -3 ∧ data.blk.id = id then
    { s.main id feed data with loaded := true, item := none }
  else s.main id feed data

end Slot

/-- The slot of a block of a node. -/
def Node.slot (n : Node) (id : BlockId) (feed : ℤ) : Slot :=
  ⟨(n.cache id).isSome, (n.view id).head.userId, (n.view id).find feed⟩

/-! ## The node follows its slots -/

theorem slot_of_cache (h : n.cache id = some b) (feed : ℤ) :
    n.slot id feed = ⟨true, b.head.userId, b.find feed⟩ := by
  unfold Node.slot
  rw [view_of_cache h, h]
  rfl

theorem Node.Frame.slot {S : BlockId → Prop} (h : Frame S n n') (hid : ¬ S id) (feed : ℤ) :
    n'.slot id feed = n.slot id feed := by
  unfold Node.slot
  rw [h.view hid, h.cache id hid]

/-- What a put does to a block, seen for one feed id, if the block has room or the feed. -/
theorem putBlock_slot (hroom : uint32 data.blk.curCount ≤ UInt32.ofNat recordPerBlock →
      b.curCount = recordPerBlock → b.find data.item.feed ≠ none) (feed : ℤ) :
    (⟨true, (putBlock b data false).2.head.userId, (putBlock b data false).2.find feed⟩ : Slot) =
      if b.head.userId ≠ 0 ∧ b.head.userId ≠ uint32 data.blk.userId then
        ⟨true, b.head.userId, b.find feed⟩
      else if uint32 data.blk.curCount ≤ UInt32.ofNat recordPerBlock then
        ⟨true, uint32 data.blk.userId,
          if data.item.feed = feed then (b.find feed).or (some data.item) else b.find feed⟩
      else ⟨true, b.head.userId, b.find feed⟩ := by
  by_cases hu : b.head.userId ≠ 0 ∧ b.head.userId ≠ uint32 data.blk.userId
  · rw [if_pos hu]
    simp only [putBlock, if_pos hu]
  rw [if_neg hu]
  by_cases hc : uint32 data.blk.curCount ≤ UInt32.ofNat recordPerBlock
  · obtain ⟨h1, h2⟩ := curCount_ne_of_le hc
    have hput : (⟨true, (b.putData data.blk data.item false).2.head.userId,
        (b.putData data.blk data.item false).2.find feed⟩ : Slot) =
        ⟨true, uint32 data.blk.userId,
          if data.item.feed = feed then (b.find feed).or (some data.item) else b.find feed⟩ := by
      rcases b.putData_cases data.blk data.item false with
        ⟨hpos, hne, -⟩ | ⟨-, href, he⟩ | ⟨-, href, hplace, he⟩
      · exact absurd ⟨UInt32.pos_iff_ne_zero.mp hpos, hne.symm⟩ hu
      · -- the block has the feed already
        have hsome : b.find data.item.feed ≠ none := href.elim (hroom hc) fun h => h.2
        obtain ⟨x, hx⟩ := Option.ne_none_iff_exists'.mp hsome
        rw [he]
        simp only [Block.setUser_userId, Slot.mk.injEq, true_and]
        show b.find feed = _
        by_cases hf : data.item.feed = feed
        · rw [if_pos hf, ← hf, hx]
          rfl
        · rw [if_neg hf]
      · have hnone : b.find data.item.feed = none := by
          by_contra hne
          exact href (Or.inr ⟨rfl, hne⟩)
        have hfind := Block.find_placeItem (b := b.setUser (uint32 data.blk.userId)) href hplace feed
        rw [he]
        simp only [hfind, Slot.mk.injEq, true_and]
        refine ⟨rfl, ?_⟩
        by_cases hf : data.item.feed = feed
        · rw [if_pos hf, if_pos hf, ← hf, hnone]
          rfl
        · rw [if_neg hf, if_neg hf]
          rfl
    rw [if_pos hc, ← hput]
    simp only [putBlock, if_neg hu, if_neg h1, if_neg h2, if_pos hc]
    split <;> rfl
  · rw [if_neg hc]
    unfold putBlock
    simp only [if_neg hu, if_neg hc]
    split
    · rfl
    split
    · rfl
    split <;> rfl

/-- The put of a record, if the block it finds has room or the feed. -/
theorem slot_put (hfile : data.blk.fileId ∈ n.files) (hin : InFile data.blk.id)
    (hroom : uint32 data.blk.curCount ≤ UInt32.ofNat recordPerBlock →
      (n.view data.blk.id).curCount = recordPerBlock →
      (n.view data.blk.id).find data.item.feed ≠ none) (feed : ℤ) :
    (n.put data false).slot data.blk.id feed = (n.slot data.blk.id feed).put data feed := by
  rw [slot_of_cache (put_located hfile hin false), putBlock_slot ?_ feed]
  · unfold Slot.put Node.slot Node.content Node.view
    by_cases h1 : data.blk.curCount = 1
    · cases hc : n.cache data.blk.id with
      | none => simp [h1, Block.find]
      | some b => simp [h1]
    · cases hc : n.cache data.blk.id with
      | none => simp [h1]
      | some b => simp [h1]
  · intro hc hfull
    by_cases hblank : n.cache data.blk.id = none ∧ data.blk.curCount = 1
    · have hcontent : n.content data.blk.id (data.blk.curCount ≠ 1) = Block.init := by
        simp [Node.content, hblank.1, hblank.2]
      rw [hcontent] at hfull
      exact absurd hfull (by decide)
    · rw [content_of_not_blank fun hnone h1 => hblank ⟨hnone, h1⟩] at hfull ⊢
      exact hroom hc hfull

/-- A block loaded with its owner and its items as they are. -/
theorem slot_loaded (hb : n'.cache id = some b) (hu : b.head.userId = (n.view id).head.userId)
    (hi : b.items = (n.view id).items) (feed : ℤ) :
    n'.slot id feed = { n.slot id feed with loaded := true } := by
  rw [slot_of_cache hb]
  simp only [Node.slot, Block.find, hu, hi]

theorem slot_changeNextPtr {userId : ℤ} {next : BlockId} (hid : id.isNone = false)
    (hfile : id.fileId ∈ n.files) (hin : InFile id) (feed : ℤ) :
    (n.changeNextPtr userId id next).slot id feed = { n.slot id feed with loaded := true } := by
  obtain ⟨b, hb, hu, hi⟩ : ∃ b, (n.changeNextPtr userId id next).cache id = some b ∧
      b.head.userId = (n.view id).head.userId ∧ b.items = (n.view id).items := by
    unfold changeNextPtr
    rw [hid]
    exact pointer_located (Or.inr rfl) hfile hin
  exact slot_loaded hb hu hi feed

/-- The block has room for the item of the record, or has its feed. -/
def Node.Room (n : Node) (id : BlockId) (data : FeedItemBlockInfo) : Prop :=
  data.blk.id = id → IsInsert data →
    (n.view id).curCount = recordPerBlock → (n.view id).find data.item.feed ≠ none

/-- **A record does to a located block what it does to its slots.** -/
theorem slot_restoreRecord (hfile : id.fileId ∈ n.files) (hin : InFile id)
    (hroom : n.Room id data) (feed : ℤ) :
    (n.restoreRecord data).slot id feed = (n.slot id feed).step id feed data := by
  have hmain : ∃ m, m = (if data.item.feed < 0 then
        n.remove data.blk (-data.item.feed) false false 1 else n.syncPut data false) ∧
      m.slot id feed = (n.slot id feed).main id feed data ∧ id.fileId ∈ m.files := by
    refine ⟨_, rfl, ?_⟩
    unfold Slot.main
    by_cases hfeed : data.item.feed < 0
    · rw [if_pos hfeed, if_pos hfeed]
      have hframe := frame_remove n data.blk (-data.item.feed)
      refine ⟨?_, hframe.files hfile⟩
      by_cases hid : data.blk.id = id
      · subst hid
        cases hnone : data.blk.id.isNone with
        | true =>
            have hsame : n.remove data.blk (-data.item.feed) false false 1 = n := by
              unfold remove removeLoop
              rw [if_pos hnone]
            rw [hsame, if_neg (by simp)]
        | false =>
            obtain ⟨b, hb, hu, hi⟩ := remove_located (-data.item.feed) hnone hfile hin
            rw [slot_of_cache hb, if_pos ⟨rfl, rfl⟩]
            have hfind := (n.view data.blk.id).find_remove (-data.item.feed) feed
            simp only [Node.slot, hu, Slot.mk.injEq, true_and]
            rw [Block.find, hi]
            rw [Block.find] at hfind
            rw [hfind]
            by_cases hf : feed = -data.item.feed
            · rw [if_pos hf, if_pos hf.symm]
            · rw [if_neg hf, if_neg (Ne.symm hf)]
      · rw [if_neg fun h => hid h.1]
        exact hframe.slot (Ne.symm hid) feed
    · rw [if_neg hfeed, if_neg hfeed]
      have hframe := frame_syncPut n data
      refine ⟨?_, hframe.files hfile⟩
      have hput : (n.put data false).slot id feed =
          if data.blk.id = id then (n.slot id feed).put data feed else n.slot id feed := by
        by_cases hid : data.blk.id = id
        · rw [if_pos hid]
          subst hid
          exact slot_put hfile hin (fun hc => hroom rfl ⟨by omega, hc⟩) feed
        · rw [if_neg hid]
          exact (frame_put n data false).slot (Ne.symm hid) feed
      unfold syncPut
      simp only [Bool.false_eq_true, if_false]
      rw [← hput]
      by_cases h1 : data.blk.curCount = 1
      · rw [if_pos h1]
        by_cases hpre : data.blk.preId = id
        · subst hpre
          cases hnone : data.blk.preId.isNone with
          | true =>
              unfold changeNextPtr
              rw [hnone, if_pos rfl, if_neg (by simp)]
          | false =>
              rw [if_pos ⟨h1, rfl, rfl⟩]
              exact slot_changeNextPtr hnone ((frame_put n data false).files hfile) hin feed
        · rw [if_neg fun h => hpre h.2.1]
          exact (frame_changeNextPtr _ _ _ _).slot (Ne.symm hpre) feed
      · rw [if_neg h1, if_neg fun h => h1 h.1]
  obtain ⟨m, hm, hslot, hmem⟩ := hmain
  unfold restoreRecord Slot.step
  dsimp only
  rw [← hm]
  by_cases h3 : data.blk.curCount = -3
  · rw [if_pos h3]
    by_cases hid : data.blk.id = id
    · subst hid
      rw [if_pos ⟨h3, rfl⟩, ← hslot, slot_of_cache (removeAll_located _ hmem hin)]
      rfl
    · rw [if_neg fun h => hid h.2, ← hslot]
      exact (frame_removeAll _ _ _).slot (Ne.symm hid) feed
  · rw [if_neg h3, if_neg fun h => h3 h.1, hslot]

/-! ## A whole log -/

/-- The feeds of the block are among those listed. -/
def Node.KeysIn (n : Node) (id : BlockId) (feeds : List ℤ) : Prop :=
  ∀ feed, (n.slot id feed).item ≠ none → feed ∈ feeds

/-- A feed is found after a put only if it was there or the record brought it. -/
theorem item_put {s : Slot} (h : (s.put data feed).item ≠ none) :
    s.item ≠ none ∨
      uint32 data.blk.curCount ≤ UInt32.ofNat recordPerBlock ∧ data.item.feed = feed := by
  unfold Slot.put at h
  dsimp only at h
  have hbase : (if data.blk.curCount = 1 ∧ s.loaded = false then (⟨true, 0, none⟩ : Slot)
      else { s with loaded := true }).item ≠ none → s.item ≠ none := by
    split
    · exact fun h => absurd rfl h
    · exact fun h => h
  generalize (if data.blk.curCount = 1 ∧ s.loaded = false then (⟨true, 0, none⟩ : Slot)
      else { s with loaded := true }) = s₁ at h hbase
  by_cases hu : s₁.user ≠ 0 ∧ s₁.user ≠ uint32 data.blk.userId
  · rw [if_pos hu] at h
    exact Or.inl (hbase h)
  rw [if_neg hu] at h
  by_cases hc : uint32 data.blk.curCount ≤ UInt32.ofNat recordPerBlock
  · rw [if_pos hc] at h
    by_cases hf : data.item.feed = feed
    · exact Or.inr ⟨hc, hf⟩
    · simp only [if_neg hf] at h
      exact Or.inl (hbase h)
  · rw [if_neg hc] at h
    exact Or.inl (hbase h)

/-- A feed is found after a record only if it was there or the record brought it. -/
theorem item_step {s : Slot} (h : (s.step id feed data).item ≠ none) :
    s.item ≠ none ∨ data.blk.id = id ∧ IsInsert data ∧ data.item.feed = feed := by
  unfold Slot.step at h
  split at h
  · exact absurd rfl h
  unfold Slot.main at h
  by_cases hfeed : data.item.feed < 0
  · rw [if_pos hfeed] at h
    split at h
    · dsimp only at h
      split at h
      · exact absurd rfl h
      · exact Or.inl h
    · exact Or.inl h
  · rw [if_neg hfeed] at h
    have hput : (if data.blk.id = id then s.put data feed else s).item ≠ none := by
      dsimp only at h
      generalize (if data.blk.id = id then s.put data feed else s) = s₁ at h
      split at h <;> exact h
    by_cases hid : data.blk.id = id
    · rw [if_pos hid] at hput
      rcases item_put hput with hold | ⟨hc, hf⟩
      · exact Or.inl hold
      · exact Or.inr ⟨hid, ⟨by omega, hc⟩, hf⟩
    · rw [if_neg hid] at hput
      exact Or.inl hput

/-- A block that uses no more feeds than fit has room for each of them. -/
theorem Node.KeysIn.room (h : n.KeysIn id feeds) (hlen : feeds.length ≤ recordPerBlock)
    (hdata : data.blk.id = id → IsInsert data → data.item.feed ∈ feeds) : n.Room id data := by
  intro hid hins hfull hnone
  have hkeys : ∀ a ∈ (n.view id).items, a.feed ∈ feeds := by
    intro a ha
    refine h a.feed ?_
    have hfind : (n.view id).find a.feed = some a := lookup_of_mem (n.view id).sorted ha
    show (n.view id).find a.feed ≠ none
    rw [hfind]
    exact Option.some_ne_none a
  have hlt := (n.view id).sorted.length_lt hkeys (hdata hid hins) hnone
  have hcount : (n.view id).items.length = recordPerBlock := hfull
  omega

/-- **A log does to a located block what it does to its slots, if the feeds of the block and
of the log's records for it fit a block.** -/
theorem slot_restore (hfile : id.fileId ∈ n.files) (hin : InFile id)
    (hlen : feeds.length ≤ recordPerBlock) (hkeys : n.KeysIn id feeds)
    {records : List FeedItemBlockInfo}
    (hrec : ∀ r ∈ records, r.blk.id = id → IsInsert r → r.item.feed ∈ feeds) :
    (∀ feed, (n.restore records).slot id feed =
      records.foldl (Slot.step id feed) (n.slot id feed)) ∧
    (n.restore records).KeysIn id feeds := by
  induction records generalizing n with
  | nil => exact ⟨fun _ => rfl, hkeys⟩
  | cons r records ih =>
      have hroom := hkeys.room hlen (hrec r List.mem_cons_self)
      have hstep := fun feed => slot_restoreRecord hfile hin hroom feed
      have hkeys' : (n.restoreRecord r).KeysIn id feeds := by
        intro feed hne
        rw [hstep] at hne
        rcases item_step hne with hold | ⟨hid, hins, rfl⟩
        · exact hkeys feed hold
        · exact hrec r List.mem_cons_self hid hins
      obtain ⟨hslots, hlast⟩ := ih ((frame_restoreRecord n r).files hfile) hkeys'
        fun r' hr' => hrec r' (List.mem_cons_of_mem _ hr')
      refine ⟨fun feed => ?_, hlast⟩
      rw [List.foldl_cons, ← hstep]
      exact hslots feed

end Oce.FeedDB
