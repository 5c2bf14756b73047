import Oce.FeedDB.Analysis.BlockSet
import Oce.FeedDB.Analysis.RestoreSteps
import Oce.FeedDB.Analysis.ReplayWrites

/-!
# A restart after a modification

`modify` logs its record and puts it with `overwrite`. The record does not say so: `Restore`
puts every record without, and a block that has the feed refuses it. So a restart gives the
old item back, unless the record changes nothing, or the replay meets the block with a
curCount-1 record while it is not in memory and begins with an empty one.

`KeptByRestart` is the exact condition. Everything is said in terms of what `get` reads of a
block (`Block.seen`): a pointer record to the block before, which a curCount-1 record also
brings, does not change that.
-/

set_option autoImplicit false

namespace Oce.FeedDB

open Oce.Base

variable {b b' : Block} {data : FeedItemBlockInfo} {n m : Node}

/-! ## A put into a block that has the feed -/

namespace Block

variable {b : Block} {x y : FeedItem}

theorem putItem_seen (b : Block) (x : FeedItem) (overwrite : Bool) :
    (b.putItem x overwrite).2.seen = (b.head.userId, (b.putItem x overwrite).2.items, b.pre) := by
  unfold putItem
  split <;> rfl

theorem putItem_items_congr (h : b.items = b'.items) (x : FeedItem) (overwrite : Bool) :
    (b.putItem x overwrite).2.items = (b'.putItem x overwrite).2.items := by
  unfold putItem
  by_cases hfull : b.items.length = recordPerBlock
  · rw [dif_pos hfull, dif_pos (h ▸ hfull)]
    exact h
  · rw [dif_neg hfull, dif_neg (h ▸ hfull)]
    show (place FeedItem.feed x overwrite b.items).2 = (place FeedItem.feed x overwrite b'.items).2
    rw [h]

/-- A block that holds the item is not changed by a `PutData` of it. -/
theorem items_putItem_of_mem (hx : x ∈ b.items) (overwrite : Bool) :
    (b.putItem x overwrite).2.items = b.items := by
  by_cases href : b.Refuses x overwrite
  · exact items_putItem_of_refuses href
  · refine ext_mem (b.putItem x overwrite).2.sorted b.sorted fun y => ?_
    rw [mem_putItem href]
    constructor
    · rintro (rfl | ⟨hy, -⟩)
      · exact hx
      · exact hy
    · intro hy
      by_cases hf : y.feed = x.feed
      · have hfx := (b.mem_items_iff x).mp hx
        have hfy := (b.mem_items_iff y).mp hy
        rw [hf, hfx] at hfy
        exact Or.inl (Option.some.inj hfy).symm
      · exact Or.inr ⟨hy, hf⟩

/-- A `PutData` with `overwrite` leaves one item, of a block that has the feed, exactly when the
block holds nothing else. -/
theorem items_putItem_eq_singleton_iff (hfind : b.find x.feed ≠ none) :
    (b.putItem x true).2.items = [x] ↔ b.curCount = 1 := by
  obtain ⟨y, hy, hfeed⟩ := (b.find_ne_none_iff x.feed).mp hfind
  by_cases hfull : b.items.length = recordPerBlock
  · have hitems : (b.putItem x true).2.items = b.items := items_putItem_of_refuses (Or.inl hfull)
    rw [hitems]
    rw [recordPerBlock_eq] at hfull
    refine iff_of_false (fun he => ?_) fun h1 => ?_
    · rw [he, List.length_singleton] at hfull
      omega
    · have hone : b.items.length = 1 := h1
      omega
  · have href : ¬ b.Refuses x true := by
      rintro (h | ⟨h, -⟩)
      · exact hfull h
      · cases h
    constructor
    · intro he
      have hlen := @length_place _ _ _ FeedItem.feed x true b.items
      have hkept : ¬ (place FeedItem.feed x true b.items).1 = .inserted := by
        rw [place_inserted_iff x true b.sorted]
        exact hfind
      have hplace : (b.putItem x true).2.items = (place FeedItem.feed x true b.items).2 := by
        unfold putItem
        rw [dif_neg hfull]
        rfl
      rw [if_neg hkept, ← hplace, he] at hlen
      exact hlen.symm
    · intro h1
      obtain ⟨z, hz⟩ := List.length_eq_one_iff.mp h1
      refine ext_mem (b.putItem x true).2.sorted (List.pairwise_singleton _ _) fun w => ?_
      rw [mem_putItem href, hz]
      rw [hz] at hy
      obtain rfl := List.mem_singleton.mp hy
      simp only [List.mem_singleton]
      constructor
      · rintro (h | ⟨rfl, hne⟩)
        · exact h
        · exact absurd hfeed hne
      · exact Or.inl

end Block

/-- The record is of the block's user, or the block has none yet. -/
def Block.Takes (b : Block) (blk : BlockInfo) : Prop :=
  b.head.userId = 0 ∨ b.head.userId = uint32 blk.userId

instance (b : Block) (blk : BlockInfo) : Decidable (b.Takes blk) :=
  inferInstanceAs (Decidable (_ ∨ _))

namespace Node

theorem putData_of_takes {blk : BlockInfo} (h : b.Takes blk) (x : FeedItem) (overwrite : Bool) :
    b.putData blk x overwrite = (b.setUser (uint32 blk.userId)).putItem x overwrite := by
  have hguard : ¬ (0 < b.head.userId ∧ uint32 blk.userId ≠ b.head.userId) := by
    rintro ⟨hpos, hne⟩
    rcases h with h0 | heq
    · rw [h0] at hpos
      exact absurd hpos (by decide)
    · exact hne heq.symm
  exact if_neg hguard

theorem putBlock_of_not_takes (h : ¬ b.Takes data.blk) (overwrite : Bool) :
    (putBlock b data overwrite).2 = b := by
  have hguard : b.head.userId ≠ 0 ∧ b.head.userId ≠ uint32 data.blk.userId :=
    ⟨fun h0 => h (Or.inl h0), fun heq => h (Or.inr heq)⟩
  unfold putBlock
  rw [if_pos hguard]

/-- What a record with an item shows of the block of its user. -/
theorem putBlock_of_takes (h : b.Takes data.blk)
    (hc : uint32 data.blk.curCount ≤ UInt32.ofNat recordPerBlock) (overwrite : Bool) :
    (putBlock b data overwrite).2.seen = (uint32 data.blk.userId,
      ((b.setUser (uint32 data.blk.userId)).putItem data.item overwrite).2.items,
      if data.blk.curCount = 1 then data.blk.preId else b.pre) := by
  obtain ⟨h1, h2⟩ := curCount_ne_of_le hc
  have hguard : ¬ (b.head.userId ≠ 0 ∧ b.head.userId ≠ uint32 data.blk.userId) := by
    rintro ⟨hne, hne'⟩
    exact h.elim hne hne'
  unfold putBlock
  simp only [if_neg hguard, if_neg h1, if_neg h2, if_pos hc, putData_of_takes h]
  have hseen := (b.setUser (uint32 data.blk.userId)).putItem_seen data.item overwrite
  split
  · simp only [Block.seen, Prod.mk.injEq] at hseen ⊢
    exact ⟨hseen.1, rfl, rfl⟩
  · exact hseen

/-- Blocks that show the same still do after a put. -/
theorem putBlock_seen_congr (h : b.seen = b'.seen) (data : FeedItemBlockInfo) (overwrite : Bool) :
    (putBlock b data overwrite).2.seen = (putBlock b' data overwrite).2.seen := by
  have hall := h
  simp only [Block.seen, Prod.mk.injEq] at h
  obtain ⟨huser, hitems, hpre⟩ := h
  by_cases ht : b.Takes data.blk
  · have ht' : b'.Takes data.blk := by
      unfold Block.Takes at ht ⊢
      rwa [← huser]
    by_cases hc : uint32 data.blk.curCount ≤ UInt32.ofNat recordPerBlock
    · have hplaced := Block.putItem_items_congr
        (show (b.setUser (uint32 data.blk.userId)).items = (b'.setUser (uint32 data.blk.userId)).items
          from hitems) data.item overwrite
      rw [putBlock_of_takes ht hc, putBlock_of_takes ht' hc, hpre, hplaced]
    · have hpointed : ∀ f i : ℤ, (b.setPre f i).seen = (b'.setPre f i).seen := by
        intro f i
        simp only [Block.seen, Block.pre, Block.setPre, huser, hitems]
      unfold putBlock
      simp only [if_neg hc, huser]
      repeat' split
      all_goals first | exact hall | exact hpointed _ _
  · have ht' : ¬ b'.Takes data.blk := by
      unfold Block.Takes at ht ⊢
      rwa [← huser]
    rw [putBlock_of_not_takes ht, putBlock_of_not_takes ht', hall]

/-- The replay of a record of a feed that the block has leaves the items alone. -/
theorem putBlock_items_of_present (hfind : b.find data.item.feed ≠ none) :
    (putBlock b data false).2.items = b.items := by
  by_cases ht : b.Takes data.blk
  · by_cases hc : uint32 data.blk.curCount ≤ UInt32.ofNat recordPerBlock
    · have hseen := congrArg (fun s => s.2.1) (putBlock_of_takes ht hc false)
      refine hseen.trans ?_
      exact Block.items_putItem_of_refuses (Or.inr ⟨rfl, hfind⟩)
    · unfold putBlock
      simp only [if_neg hc]
      repeat' split
      all_goals rfl
  · rw [putBlock_of_not_takes ht]

/-- A record that repeats an item of the block does the same with and without `overwrite`. -/
theorem putBlock_of_mem (hx : data.item ∈ b.items) :
    (putBlock b data true).2.seen = (putBlock b data false).2.seen := by
  by_cases ht : b.Takes data.blk
  · by_cases hc : uint32 data.blk.curCount ≤ UInt32.ofNat recordPerBlock
    · have hx' : data.item ∈ (b.setUser (uint32 data.blk.userId)).items := hx
      rw [putBlock_of_takes ht hc, putBlock_of_takes ht hc, Block.items_putItem_of_mem hx',
        Block.items_putItem_of_mem hx']
    · unfold putBlock
      simp only [if_neg hc]
  · rw [putBlock_of_not_takes ht, putBlock_of_not_takes ht]

/-- A curCount-1 record meets an empty block. -/
theorem putBlock_init_shows (h1 : data.blk.curCount = 1) (overwrite : Bool) :
    (putBlock Block.init data overwrite).2.seen =
      (uint32 data.blk.userId, [data.item], data.blk.preId) := by
  have hc : uint32 data.blk.curCount ≤ UInt32.ofNat recordPerBlock := by
    rw [h1]
    decide
  rw [putBlock_of_takes (Or.inl rfl) hc, if_pos h1]
  rfl

/-! ## The live path and the replay -/

/-- A pointer record shows nothing of itself to `get`, if it is a next pointer. -/
theorem put_nextPointer_seen (n : Node) (userId : ℤ) (id target id' : BlockId) :
    ((n.put (specialRecord 0 userId (-2) id target) false).view id').seen = (n.view id').seen := by
  rcases view_put n (specialRecord 0 userId (-2) id target) false id' with he | ⟨rfl, he⟩
  · rw [he]
  · have hload : n.content (specialRecord 0 userId (-2) id target).blk.id
        ((specialRecord 0 userId (-2) id target).blk.curCount ≠ 1) = n.view id := rfl
    rw [he, hload]
    rcases putBlock_specialRecord (n.view id) userId id target (Or.inr rfl) with hr | ⟨-, hr⟩
    · rw [hr]
      rfl
    · rw [hr]
      rfl

theorem changeNextPtr_seen (n : Node) (userId : ℤ) (id next id' : BlockId) :
    ((n.changeNextPtr userId id next).view id').seen = (n.view id').seen := by
  unfold changeNextPtr
  split
  · rfl
  · rw [put_nextPointer_seen, logTo_view]

/-- What `get` reads of the block after the modification. -/
theorem asyncPut_seen (hfile : data.blk.fileId ∈ n.files) (hin : InFile data.blk.id)
    (hfeed : 0 ≤ data.item.feed) (overwrite : Bool) (fuel : ℕ) :
    ((n.asyncPut data overwrite fuel).view data.blk.id).seen =
      (putBlock (n.content data.blk.id (data.blk.curCount ≠ 1)) data overwrite).2.seen := by
  have hfile' := (frame_logTo (S := fun _ => True) n data).files hfile
  have hput := view_of_cache (put_located (n := n.logTo data) hfile' hin overwrite)
  have hcontent : (n.logTo data).content data.blk.id (data.blk.curCount ≠ 1) =
      n.content data.blk.id (data.blk.curCount ≠ 1) := by
    unfold Node.content
    rw [logTo_cache, logTo_disk]
  rw [hcontent] at hput
  rw [asyncPut_eq]
  unfold handleTask
  simp only [if_neg (show ¬ data.item.feed < 0 by omega)]
  split
  · rw [changeNextPtr_seen, hput]
  · rw [hput]

/-- What `get` reads of the block after the record was replayed. -/
theorem restoreRecord_seen (hfile : data.blk.fileId ∈ m.files) (hin : InFile data.blk.id)
    (hfeed : 0 ≤ data.item.feed) :
    ((m.restoreRecord data).view data.blk.id).seen =
      let r := (putBlock (m.content data.blk.id (data.blk.curCount ≠ 1)) data false).2
      if data.blk.curCount = -3 then r.removeAll.seen else r.seen := by
  have hput := view_of_cache (put_located (n := m) hfile hin false)
  unfold restoreRecord syncPut
  simp only [if_neg (show ¬ data.item.feed < 0 by omega), Bool.false_eq_true, if_false]
  by_cases h3 : data.blk.curCount = -3
  · have h1 : ¬ data.blk.curCount = 1 := by omega
    have hfile' := (frame_put m data false).files hfile
    rw [if_pos h3, if_pos h3, if_neg h1, view_of_cache (removeAll_located _ hfile' hin), hput]
  · rw [if_neg h3, if_neg h3]
    split
    · rw [changeNextPtr_seen, hput]
    · rw [hput]

/-! ## The restart -/

theorem put_log (n : Node) (data : FeedItemBlockInfo) (overwrite : Bool) :
    (n.put data overwrite).log = n.log ∧ (n.put data overwrite).logOld = n.logOld := by
  rcases put_cases n data overwrite with he | ⟨files, -, -, he⟩
  · rw [he]
    exact ⟨rfl, rfl⟩
  · rw [he]
    dsimp only
    split <;> exact ⟨rfl, rfl⟩

theorem logTo_recoveryLog (n : Node) (data : FeedItemBlockInfo) (f : ℤ) :
    (n.logTo data).recoveryLog f = n.recoveryLog f ∨
      (n.logTo data).recoveryLog f = n.recoveryLog f ++ [data] := by
  unfold logTo locateDataFile recoveryLog
  cases locateFile n.files data.blk.fileId with
  | none => exact Or.inl rfl
  | some files =>
      by_cases hf : f = data.blk.fileId
      · subst hf
        right
        simp
      · left
        simp [hf]

theorem logTo_recoveryLog_self (hfile : data.blk.fileId ∈ n.files) :
    (n.logTo data).recoveryLog data.blk.fileId = n.recoveryLog data.blk.fileId ++ [data] := by
  unfold logTo locateDataFile recoveryLog
  rw [locateFile_of_mem hfile]
  simp

/-- The log after a modification: its record, and perhaps a pointer record. -/
theorem asyncPut_recoveryLog (hfile : data.blk.fileId ∈ n.files) (hfeed : 0 ≤ data.item.feed)
    (overwrite : Bool) (fuel : ℕ) :
    ∃ tail, (n.asyncPut data overwrite fuel).recoveryLog data.blk.fileId =
        n.recoveryLog data.blk.fileId ++ data :: tail ∧
      ∀ r ∈ tail, ∃ userId id target, r = specialRecord 0 userId (-2) id target := by
  have hput : ((n.logTo data).put data overwrite).recoveryLog data.blk.fileId =
      n.recoveryLog data.blk.fileId ++ [data] := by
    obtain ⟨hlog, hold⟩ := put_log (n.logTo data) data overwrite
    rw [← logTo_recoveryLog_self hfile]
    unfold recoveryLog
    rw [hlog, hold]
  rw [asyncPut_eq]
  unfold handleTask
  simp only [if_neg (show ¬ data.item.feed < 0 by omega)]
  generalize (n.logTo data).put data overwrite = m at hput
  by_cases hpointer : data.blk.curCount = 1 ∧ data.blk.preId.isNone = false
  · rw [if_pos hpointer.1]
    unfold changeNextPtr
    simp only [hpointer.2, Bool.false_eq_true, if_false]
    obtain ⟨hlog, hold⟩ := put_log (m.logTo (specialRecord 0 data.blk.userId (-2) data.blk.preId
      data.blk.id)) (specialRecord 0 data.blk.userId (-2) data.blk.preId data.blk.id) false
    unfold recoveryLog
    rw [hlog, hold]
    rcases logTo_recoveryLog m (specialRecord 0 data.blk.userId (-2) data.blk.preId data.blk.id)
      data.blk.fileId with he | he
    · refine ⟨[], he.trans hput, by simp⟩
    · refine ⟨[specialRecord 0 data.blk.userId (-2) data.blk.preId data.blk.id], ?_, ?_⟩
      · refine he.trans ?_
        rw [hput, List.append_assoc]
        rfl
      · intro r hr
        exact ⟨_, _, _, List.mem_singleton.mp hr⟩
  · refine ⟨[], ?_, by simp⟩
    split
    · rename_i h1
      have hnone : data.blk.preId.isNone = true := by
        by_contra hn
        exact hpointer ⟨h1, by simpa using hn⟩
      unfold changeNextPtr
      rw [if_pos hnone]
      exact hput
    · exact hput

theorem asyncPut_disk (n : Node) (hfeed : 0 ≤ data.item.feed) (overwrite : Bool) (fuel : ℕ) :
    (n.asyncPut data overwrite fuel).disk = n.disk := by
  rw [asyncPut_eq]
  unfold handleTask
  simp only [if_neg (show ¬ data.item.feed < 0 by omega)]
  have hput := (frame_put (n.logTo data) data overwrite).disk
  split
  · rw [(frame_changeNextPtr _ _ _ _).disk, hput, logTo_disk]
  · rw [hput, logTo_disk]

theorem restart_eq (n : Node) (f : ℤ) :
    n.restart f = ({ n.crash with files := [f] } : Node).restore (n.recoveryLog f) := rfl

theorem restore_pointers_seen {tail : List FeedItemBlockInfo}
    (h : ∀ r ∈ tail, ∃ userId id target, r = specialRecord 0 userId (-2) id target) (id : BlockId) :
    ((m.restore tail).view id).seen = (m.view id).seen := by
  induction tail generalizing m with
  | nil => rfl
  | cons r tail ih =>
      obtain ⟨userId, id', target, rfl⟩ := h r List.mem_cons_self
      refine (ih fun r hr => h r (List.mem_cons_of_mem _ hr)).trans ?_
      exact put_nextPointer_seen m userId id' target id

/-- What `get` reads of the block after the restart. -/
theorem restart_asyncPut_seen (hfile : data.blk.fileId ∈ n.files) (hin : InFile data.blk.id)
    (hfeed : 0 ≤ data.item.feed) (overwrite : Bool) (fuel : ℕ) :
    (((n.asyncPut data overwrite fuel).restart data.blk.fileId).view data.blk.id).seen =
      let m := n.restart data.blk.fileId
      let r := (putBlock (m.content data.blk.id (data.blk.curCount ≠ 1)) data false).2
      if data.blk.curCount = -3 then r.removeAll.seen else r.seen := by
  obtain ⟨tail, hlog, htail⟩ := asyncPut_recoveryLog hfile hfeed overwrite fuel
  have halike : Alike ({ (n.asyncPut data overwrite fuel).crash with files := [data.blk.fileId] } : Node)
      { n.crash with files := [data.blk.fileId] } :=
    ⟨rfl, rfl, rfl, asyncPut_disk n hfeed overwrite fuel⟩
  have hmem : data.blk.fileId ∈ (n.restart data.blk.fileId).files :=
    files_restore _ _ (List.mem_singleton_self data.blk.fileId)
  rw [restart_eq, (halike.restore _).view, hlog]
  unfold restore
  rw [List.foldl_append, List.foldl_cons]
  exact (restore_pointers_seen htail data.blk.id).trans (restoreRecord_seen hmem hin hfeed)

/-- The record meets the block with an empty one in its place: a first record, of a block that is
not in memory. -/
def Blanks (n : Node) (data : FeedItemBlockInfo) : Prop :=
  data.blk.curCount = 1 ∧ n.cache data.blk.id = none

instance (n : Node) (data : FeedItemBlockInfo) : Decidable (n.Blanks data) :=
  inferInstanceAs (Decidable (_ ∧ _))

/-- The block takes the record and holds one item. -/
def Alone (n : Node) (data : FeedItemBlockInfo) : Prop :=
  (n.view data.blk.id).Takes data.blk ∧ (n.view data.blk.id).curCount = 1

instance (n : Node) (data : FeedItemBlockInfo) : Decidable (n.Alone data) :=
  inferInstanceAs (Decidable (_ ∧ _))

/-- The condition under which a restart keeps the modification: the replay begins with an empty
block and so did the modification, or the record repeats the item that the block has; where only
one of the two begins with an empty block, it holds nothing else. -/
def KeptByRestart (n : Node) (data : FeedItemBlockInfo) : Prop :=
  if (n.restart data.blk.fileId).Blanks data then n.Blanks data ∨ n.Alone data
  else data.blk.curCount ≠ -3 ∧ data.item ∈ (n.view data.blk.id).items ∧
    (n.Blanks data → n.Alone data)

instance (n : Node) (data : FeedItemBlockInfo) : Decidable (n.KeptByRestart data) :=
  inferInstanceAs (Decidable (if (n.restart data.blk.fileId).Blanks data then _ else _ ∧ _ ∧ (_ → _)))

end Node

open Node

/-! ## What the block shows, before and after -/

section Shown

variable {b : Block} {data : FeedItemBlockInfo}

theorem Node.Blanks.content (h : n.Blanks data) :
    n.content data.blk.id (data.blk.curCount ≠ 1) = Block.init := by
  simp [Node.content, h.1, h.2]

theorem content_of_not_blanks (h : ¬ n.Blanks data) :
    n.content data.blk.id (data.blk.curCount ≠ 1) = n.view data.blk.id :=
  content_of_not_blank fun hnone h1 => h ⟨h1, hnone⟩

/-- The replay begins with an empty block, and the modification found the block. -/
theorem singleton_iff_of_present (h1 : data.blk.curCount = 1)
    (hpresent : b.find data.item.feed ≠ none) :
    (uint32 data.blk.userId, [data.item], data.blk.preId) = (putBlock b data true).2.seen ↔
      b.Takes data.blk ∧ b.curCount = 1 := by
  have hc : uint32 data.blk.curCount ≤ UInt32.ofNat recordPerBlock := by
    rw [h1]
    decide
  by_cases ht : b.Takes data.blk
  · have hitems := Block.items_putItem_eq_singleton_iff
      (b := b.setUser (uint32 data.blk.userId)) hpresent
    rw [putBlock_of_takes ht hc, if_pos h1]
    simp only [Prod.mk.injEq, true_and, and_true, ht]
    exact eq_comm.trans hitems
  · rw [putBlock_of_not_takes ht]
    refine iff_of_false (fun he => ht (Or.inr ?_)) fun h => ht h.1
    exact (congrArg Prod.fst he).symm

/-- The modification began with an empty block, and the replay finds the block. -/
theorem repeated_iff_of_present (h1 : data.blk.curCount = 1)
    (hpresent : b.find data.item.feed ≠ none) (hx : data.item ∈ b.items) :
    (putBlock b data false).2.seen = (uint32 data.blk.userId, [data.item], data.blk.preId) ↔
      b.Takes data.blk ∧ b.curCount = 1 := by
  rw [← putBlock_of_mem hx, eq_comm]
  exact singleton_iff_of_present h1 hpresent

end Shown

/-- **A restart keeps a modification exactly under `KeptByRestart`**: the block has the
modified item, and `get` reads of it what it read before the crash. -/
theorem modify_survives_iff (n : Node) (index : ℤ) (feed : FeedItem) (blk : BlockInfo) (fuel : ℕ)
    (hserver : blk.serverId = index) (hfile : blk.fileId ∈ n.files) (hin : InFile blk.id)
    (hfeed : 0 ≤ feed.feed) (hpresent : (n.view blk.id).find feed.feed ≠ none)
    (hbefore : ((n.restart blk.fileId).view blk.id).seen = (n.view blk.id).seen) :
    (((n.modify index feed blk fuel).restart blk.fileId).view blk.id).find feed.feed = some feed ∧
      (((n.modify index feed blk fuel).restart blk.fileId).view blk.id).seen =
        ((n.modify index feed blk fuel).view blk.id).seen ↔
    n.KeptByRestart ⟨feed, blk⟩ := by
  have hmodify : n.modify index feed blk fuel = n.asyncPut ⟨feed, blk⟩ true fuel :=
    if_neg fun h => h hserver
  rw [hmodify]
  generalize hdata : (⟨feed, blk⟩ : FeedItemBlockInfo) = data
  obtain ⟨rfl, rfl⟩ : feed = data.item ∧ blk = data.blk := by
    subst hdata
    exact ⟨rfl, rfl⟩
  have hafter := restart_asyncPut_seen hfile hin hfeed true fuel
  have hlive := asyncPut_seen hfile hin hfeed true fuel
  dsimp only at hafter
  generalize (n.asyncPut data true fuel).view data.blk.id = live at hlive
  generalize ((n.asyncPut data true fuel).restart data.blk.fileId).view data.blk.id = after at hafter
  have hfind : after.find data.item.feed = some data.item ↔ data.item ∈ after.seen.2.1 :=
    (after.mem_items_iff data.item).symm
  rw [hfind, hlive]
  unfold KeptByRestart
  by_cases hblank : (n.restart data.blk.fileId).Blanks data
  · -- the replay begins with an empty block
    have h3 : ¬ data.blk.curCount = -3 := by
      rw [hblank.1]
      decide
    rw [hblank.content, if_neg h3, putBlock_init_shows hblank.1] at hafter
    rw [if_pos hblank, hafter]
    by_cases hcold : n.Blanks data
    · rw [hcold.content, putBlock_init_shows hblank.1]
      exact iff_of_true ⟨List.mem_singleton_self data.item, rfl⟩ (Or.inl hcold)
    · rw [content_of_not_blanks hcold]
      simp only [List.mem_singleton, true_and, hcold, false_or]
      exact singleton_iff_of_present hblank.1 hpresent
  · -- the replay finds the block, which refuses the record
    rw [if_neg hblank]
    rw [content_of_not_blanks hblank] at hafter
    by_cases h3 : data.blk.curCount = -3
    · rw [if_pos h3] at hafter
      refine iff_of_false (fun h => ?_) fun h => h.1 h3
      rw [hafter] at h
      exact List.not_mem_nil h.1
    rw [if_neg h3, putBlock_seen_congr hbefore] at hafter
    have hitems : after.seen.2.1 = (n.view data.blk.id).items := by
      rw [hafter]
      exact putBlock_items_of_present hpresent
    rw [hitems, hafter]
    by_cases hcold : n.Blanks data
    · rw [hcold.content, putBlock_init_shows hcold.1]
      have hiff := and_congr_right fun hx => repeated_iff_of_present hcold.1 hpresent hx
      exact hiff.trans ⟨fun h => ⟨h3, h.1, fun _ => h.2⟩, fun h => ⟨h.2.1, h.2.2 hcold⟩⟩
    · rw [content_of_not_blanks hcold]
      constructor
      · rintro ⟨hx, -⟩
        exact ⟨h3, hx, fun h => absurd h hcold⟩
      · rintro ⟨-, hx, -⟩
        exact ⟨hx, (putBlock_of_mem hx).symm⟩

/-- A node with a block of two items of user 7 on disk and nothing in its logs. -/
def modifyNode : Node :=
  .started [1] (Function.update (fun _ => .zeroed) ⟨1, 0⟩
    ⟨⟨7, 2, 0, -1, 0, -1⟩, [⟨6, 0, 0, 0, 0, 0⟩, ⟨5, 0, 0, 0, 0, 0⟩], by decide, by decide⟩)
    (fun _ => []) fun _ => []

/-- Modifying an item to what it is survives. -/
theorem modify_survives_same :
    (((modifyNode.modify 0 ⟨5, 0, 0, 0, 0, 0⟩ ⟨0, 7, 2, 2, 1, 0, 0, -1, 0⟩ 1).restart 1).view
        ⟨1, 0⟩).find 5 = some ⟨5, 0, 0, 0, 0, 0⟩ ∧
      (((modifyNode.modify 0 ⟨5, 0, 0, 0, 0, 0⟩ ⟨0, 7, 2, 2, 1, 0, 0, -1, 0⟩ 1).restart 1).view
        ⟨1, 0⟩).seen =
        ((modifyNode.modify 0 ⟨5, 0, 0, 0, 0, 0⟩ ⟨0, 7, 2, 2, 1, 0, 0, -1, 0⟩ 1).view
          ⟨1, 0⟩).seen :=
  (modify_survives_iff modifyNode 0 ⟨5, 0, 0, 0, 0, 0⟩ ⟨0, 7, 2, 2, 1, 0, 0, -1, 0⟩ 1 rfl
    (by decide) (by decide) (by decide) (by decide) (by decide)).mpr (by decide)

/-- A new weight is in memory, and gone after the restart. -/
theorem modify_lost :
    ((modifyNode.modify 0 ⟨5, 0, 0, 0, 9, 0⟩ ⟨0, 7, 2, 2, 1, 0, 0, -1, 0⟩ 1).view ⟨1, 0⟩).find 5 =
      some ⟨5, 0, 0, 0, 9, 0⟩ ∧
    (((modifyNode.modify 0 ⟨5, 0, 0, 0, 9, 0⟩ ⟨0, 7, 2, 2, 1, 0, 0, -1, 0⟩ 1).restart 1).view
      ⟨1, 0⟩).find 5 = some ⟨5, 0, 0, 0, 0, 0⟩ := by
  decide

end Oce.FeedDB
