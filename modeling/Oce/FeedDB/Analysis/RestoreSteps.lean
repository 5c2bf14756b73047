import Oce.FeedDB.Analysis.NodeView

/-!
# One record of a log

What a record of a log does to the blocks in memory when it is restored. A record names
one block. A removal and a clear change that block only, a put also the next pointer of the
block before it; every other block is left alone (`Frame`). For a block of a file that is
located each of the steps is given as an equation.

A block that is in memory before the replay comes to it makes no difference if it is the block
the first record that names it would find there: that record then leaves the same node
(`restoreRecord_store_self`). Until then the block and the records pass each other by
(`restoreRecord_store_ne`). Both are equations of nodes, logs and dirty bits included.
-/

set_option autoImplicit false

namespace Oce.FeedDB

open Oce.Base

namespace Node

/-- At most the blocks in `S` differ in memory, nothing differs on disk, and no file or
cached block is lost. -/
structure Frame (S : BlockId → Prop) (n n' : Node) : Prop where
  disk : n'.disk = n.disk
  files : n.files ⊆ n'.files
  cache : ∀ id, ¬ S id → n'.cache id = n.cache id
  cached : ∀ id, (n.cache id).isSome → (n'.cache id).isSome

variable {S T : BlockId → Prop} {n n₁ n₂ n₃ : Node}

theorem Frame.refl (S : BlockId → Prop) (n : Node) : Frame S n n :=
  ⟨rfl, List.Subset.refl _, fun _ _ => rfl, fun _ h => h⟩

theorem Frame.trans (h : Frame S n₁ n₂) (h' : Frame S n₂ n₃) : Frame S n₁ n₃ :=
  ⟨h'.disk.trans h.disk, List.Subset.trans h.files h'.files,
    fun id hid => (h'.cache id hid).trans (h.cache id hid),
    fun id hid => h'.cached id (h.cached id hid)⟩

theorem Frame.mono (hST : ∀ id, S id → T id) (h : Frame S n₁ n₂) : Frame T n₁ n₂ :=
  ⟨h.disk, h.files, fun id hid => h.cache id fun hs => hid (hST id hs), h.cached⟩

/-- A block outside of the frame is found as before. -/
theorem Frame.view (h : Frame S n₁ n₂) {id : BlockId} (hid : ¬ S id) :
    n₂.view id = n₁.view id := by
  unfold Node.view
  rw [h.cache id hid, h.disk]

theorem frame_store (n : Node) (files : List ℤ) (hsub : n.files ⊆ files) (id : BlockId) (b : Block) :
    Frame (· = id) n (({ n with files := files } : Node).store id b) where
  disk := rfl
  files := hsub
  cache id' hid := store_cache_ne _ _ hid
  cached id' h := by
    by_cases hid : id' = id
    · rw [hid, store_cache_self]
      rfl
    · rw [store_cache_ne _ _ hid]
      exact h

theorem frame_setDirty (n : Node) (id : BlockId) : Frame S n (n.setDirty id) :=
  ⟨rfl, List.Subset.refl _, fun _ _ => rfl, fun _ h => h⟩

theorem frame_logTo (n : Node) (data : FeedItemBlockInfo) : Frame S n (n.logTo data) := by
  unfold logTo locateDataFile
  cases hfiles : locateFile n.files data.blk.fileId with
  | none => exact .refl S n
  | some files => exact ⟨rfl, (locateFile_subset hfiles).1, fun _ _ => rfl, fun _ h => h⟩

@[simp] theorem logTo_cache (n : Node) (data : FeedItemBlockInfo) :
    (n.logTo data).cache = n.cache := by
  unfold logTo locateDataFile
  cases locateFile n.files data.blk.fileId <;> rfl

@[simp] theorem logTo_disk (n : Node) (data : FeedItemBlockInfo) :
    (n.logTo data).disk = n.disk := by
  unfold logTo locateDataFile
  cases locateFile n.files data.blk.fileId <;> rfl

@[simp] theorem logTo_view (n : Node) (data : FeedItemBlockInfo) :
    (n.logTo data).view = n.view := by
  funext id
  unfold Node.view
  rw [logTo_cache, logTo_disk]

theorem frame_put (n : Node) (data : FeedItemBlockInfo) (overwrite : Bool) :
    Frame (· = data.blk.id) n (n.put data overwrite) := by
  rcases put_cases n data overwrite with he | ⟨files, -, hfiles, he⟩
  · rw [he]
    exact .refl _ n
  · have hstore := frame_store n files (locateFile_subset hfiles).1 data.blk.id
      (putBlock (n.content data.blk.id (data.blk.curCount ≠ 1)) data overwrite).2
    rw [he]
    dsimp only
    split
    · exact hstore.trans (frame_setDirty _ _)
    · exact hstore

theorem frame_changeNextPtr (n : Node) (userId : ℤ) (id next : BlockId) :
    Frame (· = id) n (n.changeNextPtr userId id next) := by
  unfold changeNextPtr
  split
  · exact .refl _ n
  · exact (frame_logTo n _).trans (frame_put _ (specialRecord 0 userId (-2) id next) false)

theorem frame_changePrePtr (n : Node) (userId : ℤ) (id pre : BlockId) :
    Frame (· = id) n (n.changePrePtr userId id pre) := by
  unfold changePrePtr
  split
  · exact .refl _ n
  · exact (frame_logTo n _).trans (frame_put _ (specialRecord 0 userId (-1) id pre) false)

/-- Finding a block that is located. -/
theorem find_located {id : BlockId} (hfile : id.fileId ∈ n.files) (hin : InFile id) (load : Bool) :
    n.find id load = some (n.content id load, n.store id (n.content id load)) := by
  rw [find_eq, if_pos hin, locateFile_of_mem hfile]
  rfl

/-- Putting a record whose block is located. -/
theorem put_located {data : FeedItemBlockInfo} (hfile : data.blk.fileId ∈ n.files)
    (hin : InFile data.blk.id) (overwrite : Bool) :
    (n.put data overwrite).cache data.blk.id =
      some (putBlock (n.content data.blk.id (data.blk.curCount ≠ 1)) data overwrite).2 := by
  have hfound := @find_located n data.blk.id hfile hin
  unfold put
  simp only [hfound, store_store]
  split
  · rw [setDirty_cache, store_cache_self]
  · rw [store_cache_self]

/-- A pointer record leaves the owner and the items of its block, which it loads. -/
theorem pointer_located {userId c : ℤ} {id target : BlockId} (hc : c = -1 ∨ c = -2)
    (hfile : id.fileId ∈ n.files) (hin : InFile id) :
    ∃ b, ((n.logTo (specialRecord 0 userId c id target)).put
        (specialRecord 0 userId c id target) false).cache id = some b ∧
      b.head.userId = (n.view id).head.userId ∧ b.items = (n.view id).items := by
  have hfile' : (specialRecord 0 userId c id target).blk.fileId ∈
      (n.logTo (specialRecord 0 userId c id target)).files :=
    (frame_logTo (S := fun _ => True) n _).files hfile
  have hput := @put_located _ (specialRecord 0 userId c id target) hfile' hin false
  have hcontent : (n.logTo (specialRecord 0 userId c id target)).content id
      ((specialRecord 0 userId c id target).blk.curCount ≠ 1) = n.view id := by
    have hload : decide ((specialRecord 0 userId c id target).blk.curCount ≠ 1) = true := by
      rcases hc with rfl | rfl <;> rfl
    rw [hload, content_load, logTo_view]
  refine ⟨_, hput, ?_⟩
  show (putBlock ((n.logTo (specialRecord 0 userId c id target)).content id _) _ _).2.head.userId =
    _ ∧ (putBlock ((n.logTo (specialRecord 0 userId c id target)).content id _) _ _).2.items = _
  rw [hcontent]
  rcases putBlock_specialRecord (n.view id) userId id target hc with he | ⟨-, he⟩
  · rw [he]
    exact ⟨rfl, rfl⟩
  · rw [he]
    dsimp only
    split <;> exact ⟨rfl, rfl⟩

/-! ## The steps of a record -/

/-- The removal of a record in recovery, from the block it names and no other. -/
theorem removeLoop_one (feed : ℤ) {id : BlockId} (hid : id.isNone = false)
    (hfile : id.fileId ∈ n.files) (hin : InFile id) :
    (removeLoop feed false 1 n id).2.cache id = some ((n.view id).remove feed).2 ∧
      Frame (· = id) n (removeLoop feed false 1 n id).2 ∧
      ∀ id' delete, (removeLoop feed false 1 n id).1 = .done id' delete → id' = id := by
  unfold removeLoop
  simp only [hid, Bool.false_eq_true, if_false, find_located hfile hin, content_load, store_store]
  have hframe : ∀ b, Frame (· = id) n (n.store id b) := frame_store n n.files (List.Subset.refl _) id
  by_cases hrem : ((n.view id).remove feed).1
  · rw [if_pos hrem]
    refine ⟨?_, (hframe _).trans (frame_setDirty _ _), fun id' delete he => ?_⟩
    · rw [setDirty_cache, store_cache_self]
    · simp only [Removed.done.injEq] at he
      exact he.1.symm
  · rw [if_neg hrem]
    refine ⟨?_, hframe _, fun id' delete he => by cases he⟩
    rw [store_cache_self, Block.remove_of_not (by simpa using hrem)]

/-- The loop over one block touches no other. -/
theorem frame_removeLoop_one (feed : ℤ) (n : Node) (id : BlockId) :
    Frame (· = id) n (removeLoop feed false 1 n id).2 ∧
      ∀ id' delete, (removeLoop feed false 1 n id).1 = .done id' delete →
        id' = id ∧ id.isNone = false ∧ id.fileId ∈ (removeLoop feed false 1 n id).2.files ∧
          InFile id := by
  unfold removeLoop
  by_cases hid : id.isNone
  · rw [if_pos hid]
    exact ⟨.refl _ n, fun _ _ he => by cases he⟩
  rw [if_neg hid]
  cases hf : n.find id true with
  | none => exact ⟨.refl _ n, fun _ _ he => by cases he⟩
  | some r =>
      obtain ⟨b, n'⟩ := r
      obtain ⟨hin, -, files, hfiles, rfl⟩ := find_some hf
      obtain ⟨hsub, hmem⟩ := locateFile_subset hfiles
      dsimp only
      by_cases hrem : (b.remove feed).1
      · rw [if_pos hrem]
        refine ⟨?_, fun id' delete he => ?_⟩
        · rw [store_store]
          exact (frame_store n files hsub id _).trans (frame_setDirty _ _)
        · simp only [Removed.done.injEq] at he
          exact ⟨he.1.symm, by simpa using hid, hmem, hin⟩
      · rw [if_neg hrem]
        exact ⟨frame_store n files hsub id b, fun _ _ he => by cases he⟩

/-- In recovery an emptied block gets its own pointers cleared, and nothing else. -/
theorem deleteBlock_located {id : BlockId} (hid : id.isNone = false) (hfile : id.fileId ∈ n.files)
    (hin : InFile id) :
    Frame (· = id) n (n.deleteBlock id false) ∧
      ∃ b, (n.deleteBlock id false).cache id = some b ∧
        b.head.userId = (n.view id).head.userId ∧ b.items = (n.view id).items := by
  unfold deleteBlock
  rw [find_located hfile hin]
  simp only [Bool.false_eq_true, if_false]
  generalize int32 (n.content id true).head.userId = u
  have hfound := frame_store n n.files (List.Subset.refl _) id (n.content id true)
  have hview : (n.store id (n.content id true)).view id = n.view id := by
    rw [view_store_self, content_load]
  have hfile₁ : id.fileId ∈ (n.store id (n.content id true)).files := hfile
  generalize n.store id (n.content id true) = n₁ at *
  have hf₁ := frame_changePrePtr n₁ u id .none
  obtain ⟨b₁, hb₁, hu₁, hi₁⟩ : ∃ b, (n₁.changePrePtr u id .none).cache id = some b ∧
      b.head.userId = (n₁.view id).head.userId ∧ b.items = (n₁.view id).items := by
    unfold changePrePtr
    rw [hid]
    exact pointer_located (Or.inl rfl) hfile₁ hin
  have hfile₂ := hf₁.files hfile₁
  generalize n₁.changePrePtr u id .none = n₂ at *
  obtain ⟨b₂, hb₂, hu₂, hi₂⟩ : ∃ b, (n₂.changeNextPtr u id .none).cache id = some b ∧
      b.head.userId = (n₂.view id).head.userId ∧ b.items = (n₂.view id).items := by
    unfold changeNextPtr
    rw [hid]
    exact pointer_located (Or.inr rfl) hfile₂ hin
  rw [view_of_cache hb₁] at hu₂ hi₂
  refine ⟨(hfound.trans hf₁).trans (frame_changeNextPtr n₂ u id .none), b₂, hb₂, ?_, ?_⟩
  · rw [hu₂, hu₁, hview]
  · rw [hi₂, hi₁, hview]

/-- A removal that is restored. -/
theorem remove_located {blk : BlockInfo} (feed : ℤ) (hid : blk.id.isNone = false)
    (hfile : blk.fileId ∈ n.files) (hin : InFile blk.id) :
    ∃ b, (n.remove blk feed false false 1).cache blk.id = some b ∧
      b.head.userId = (n.view blk.id).head.userId ∧
      b.items = ((n.view blk.id).remove feed).2.items := by
  obtain ⟨hcache, hframe, hdone⟩ := removeLoop_one feed hid hfile hin
  unfold remove
  split
  · rename_i n' he
    rw [he] at hcache
    exact ⟨_, hcache, rfl, rfl⟩
  · rename_i id' delete n' he
    rw [he] at hcache hframe hdone
    obtain rfl := hdone id' delete rfl
    cases delete with
    | false => exact ⟨_, hcache, rfl, rfl⟩
    | true =>
        obtain ⟨-, b, hb, hu, hi⟩ := deleteBlock_located hid (hframe.files hfile) hin
        rw [view_of_cache hcache] at hu hi
        exact ⟨b, hb, hu, hi⟩

theorem frame_remove (n : Node) (blk : BlockInfo) (feed : ℤ) :
    Frame (· = blk.id) n (n.remove blk feed false false 1) := by
  obtain ⟨hframe, hdone⟩ := frame_removeLoop_one feed n blk.id
  unfold remove
  split
  · rename_i n' he
    rw [he] at hframe
    exact hframe
  · rename_i id' delete n' he
    rw [he] at hframe hdone
    obtain ⟨rfl, hid, hfile, hin⟩ := hdone id' delete rfl
    cases delete with
    | false => exact hframe
    | true => exact hframe.trans (deleteBlock_located hid hfile hin).1

theorem frame_removeAll (n : Node) (userId : ℤ) (id : BlockId) :
    Frame (· = id) n (n.removeAll userId id false) := by
  unfold removeAll
  cases hf : n.find id true with
  | none => exact .refl _ n
  | some r =>
      obtain ⟨b, n'⟩ := r
      obtain ⟨-, -, files, hfiles, rfl⟩ := find_some hf
      simp only [Bool.false_eq_true, if_false, store_store]
      exact frame_store n files (locateFile_subset hfiles).1 id _

theorem removeAll_located {id : BlockId} (userId : ℤ) (hfile : id.fileId ∈ n.files)
    (hin : InFile id) :
    (n.removeAll userId id false).cache id = some (n.view id).removeAll := by
  unfold removeAll
  rw [find_located hfile hin]
  simp only [Bool.false_eq_true, if_false, store_cache_self, content_load]

/-- The blocks a record may change: its own, and the one before it for a first record. -/
def Names (data : FeedItemBlockInfo) (id : BlockId) : Prop :=
  id = data.blk.id ∨ 0 ≤ data.item.feed ∧ data.blk.curCount = 1 ∧ id = data.blk.preId

theorem frame_syncPut (n : Node) (data : FeedItemBlockInfo) :
    Frame (fun id => id = data.blk.id ∨ data.blk.curCount = 1 ∧ id = data.blk.preId) n
      (n.syncPut data false) := by
  unfold syncPut
  simp only [Bool.false_eq_true, if_false]
  have hput := (frame_put n data false).mono
    (T := fun id => id = data.blk.id ∨ data.blk.curCount = 1 ∧ id = data.blk.preId)
    fun id hid => Or.inl hid
  split
  · rename_i h1
    exact hput.trans ((frame_changeNextPtr _ _ _ _).mono fun id hid => Or.inr ⟨h1, hid⟩)
  · exact hput

/-- **A record changes only the blocks it names.** -/
theorem frame_restoreRecord (n : Node) (data : FeedItemBlockInfo) :
    Frame (Names data) n (n.restoreRecord data) := by
  unfold restoreRecord
  have hmain : Frame (Names data) n (if data.item.feed < 0 then
      n.remove data.blk (-data.item.feed) false false 1 else n.syncPut data false) := by
    split
    · exact (frame_remove n data.blk _).mono fun id hid => Or.inl hid
    · rename_i hfeed
      refine (frame_syncPut n data).mono fun id hid => ?_
      exact hid.imp_right fun h => ⟨by omega, h⟩
  dsimp only
  split
  · exact hmain.trans ((frame_removeAll _ _ _).mono fun id hid => Or.inl hid)
  · exact hmain

end Node

section Ahead

variable {data : FeedItemBlockInfo} {feed userId : ℤ} {next : BlockId}

namespace Node

variable {n : Node} {id id' : BlockId} {b : Block}

/-! ## A block the operation finds -/

/-- Finding a block that was put there as it would be found. -/
theorem find_store_self {load : Bool} (hb : b = n.content id load) :
    (n.store id b).find id load = n.find id load := by
  have hcontent : (n.store id b).content id load = n.content id load := by
    rw [Node.content, store_cache_self, Option.getD_some, hb]
  rw [find_eq, find_eq, hcontent, store_files]
  by_cases hin : InFile id
  · rw [if_pos hin, if_pos hin]
    refine congrArg (fun f => Option.map f (locateFile n.files id.fileId)) (funext fun files => ?_)
    exact congrArg (Prod.mk _) (store_store ({ n with files := files } : Node) id b _)
  · rw [if_neg hin, if_neg hin]

theorem put_store_self (hid : data.blk.id = id) (hfile : id.fileId ∈ n.files) (hin : InFile id)
    (hb : b = n.content id (data.blk.curCount ≠ 1)) (overwrite : Bool) :
    (n.store id b).put data overwrite = n.put data overwrite := by
  subst hid
  unfold put
  rw [find_store_self hb, find_located hfile hin]

theorem removeLoop_store_self (hid : id.isNone = false) (hfile : id.fileId ∈ n.files)
    (hin : InFile id) (hb : b = n.content id true) :
    removeLoop feed false 1 (n.store id b) id = removeLoop feed false 1 n id := by
  unfold removeLoop
  rw [hid, find_store_self hb, find_located hfile hin]
  simp only [Bool.false_eq_true, if_false]

theorem logTo_store (n : Node) (id : BlockId) (b : Block) (data : FeedItemBlockInfo) :
    (n.store id b).logTo data = (n.logTo data).store id b := by
  unfold logTo locateDataFile
  rw [store_files]
  cases locateFile n.files data.blk.fileId <;> rfl

theorem changeNextPtr_store_self (hid : id.isNone = false) (hfile : id.fileId ∈ n.files)
    (hin : InFile id) (hb : b = n.content id true) :
    (n.store id b).changeNextPtr userId id next = n.changeNextPtr userId id next := by
  have hlog : b = (n.logTo (specialRecord 0 userId (-2) id next)).content id true := by
    rw [hb, content_load, content_load, logTo_view]
  have hfile' : id.fileId ∈ (n.logTo (specialRecord 0 userId (-2) id next)).files :=
    (frame_logTo (S := fun _ => True) n _).files hfile
  have hid' : (specialRecord 0 userId (-2) id next).blk.id = id := rfl
  unfold changeNextPtr
  rw [hid, logTo_store, put_store_self hid' hfile' hin hlog]
  simp only [Bool.false_eq_true, if_false]

/-! ## A block the operation does not find -/

theorem store_comm (n : Node) {id id' : BlockId} (h : id' ≠ id) (b b' : Block) :
    (n.store id b).store id' b' = (n.store id' b').store id b := by
  unfold store
  dsimp only
  rw [Function.update_comm h]

/-- Finding another block. -/
theorem find_store_ne (h : id' ≠ id) (b : Block) (load : Bool) :
    (n.store id b).find id' load = (n.find id' load).map fun r => (r.1, r.2.store id b) := by
  have hcontent : (n.store id b).content id' load = n.content id' load := by
    rw [Node.content, Node.content, store_cache_ne n b h, store_disk]
  rw [find_eq, find_eq, hcontent, store_files]
  by_cases hin : InFile id'
  · rw [if_pos hin, if_pos hin, Option.map_map]
    refine congrArg (fun f => Option.map f (locateFile n.files id'.fileId)) (funext fun files => ?_)
    exact congrArg (Prod.mk _) (store_comm ({ n with files := files } : Node) h b _)
  · rw [if_neg hin, if_neg hin]
    rfl

theorem put_store_ne (h : data.blk.id ≠ id) (b : Block) (overwrite : Bool) :
    (n.store id b).put data overwrite = (n.put data overwrite).store id b := by
  unfold put
  rw [find_store_ne h]
  cases n.find data.blk.id (data.blk.curCount ≠ 1) with
  | none => rfl
  | some r =>
      obtain ⟨cache, n'⟩ := r
      rw [Option.map_some]
      dsimp only
      rw [store_comm n' h]
      split <;> rfl

theorem changeNextPtr_store_ne (h : id' ≠ id) (b : Block) :
    (n.store id b).changeNextPtr userId id' next = (n.changeNextPtr userId id' next).store id b := by
  unfold changeNextPtr
  split
  · rfl
  · have hid : (specialRecord 0 userId (-2) id' next).blk.id ≠ id := h
    rw [logTo_store, put_store_ne hid]

theorem changePrePtr_store_ne {pre : BlockId} (h : id' ≠ id) (b : Block) :
    (n.store id b).changePrePtr userId id' pre = (n.changePrePtr userId id' pre).store id b := by
  unfold changePrePtr
  split
  · rfl
  · have hid : (specialRecord 0 userId (-1) id' pre).blk.id ≠ id := h
    rw [logTo_store, put_store_ne hid]

theorem removeAll_store_ne (h : id' ≠ id) (b : Block) :
    (n.store id b).removeAll userId id' false = (n.removeAll userId id' false).store id b := by
  unfold removeAll
  rw [find_store_ne h]
  cases n.find id' true with
  | none => rfl
  | some r =>
      obtain ⟨cache, n'⟩ := r
      rw [Option.map_some]
      simp only [Bool.false_eq_true, if_false]
      exact store_comm n' h b _

theorem removeLoop_store_ne (h : id' ≠ id) (b : Block) :
    removeLoop feed false 1 (n.store id b) id' =
      ((removeLoop feed false 1 n id').1, (removeLoop feed false 1 n id').2.store id b) := by
  unfold removeLoop
  by_cases hid : id'.isNone
  · rw [if_pos hid, if_pos hid]
  rw [if_neg hid, if_neg hid, find_store_ne h]
  cases n.find id' true with
  | none => rfl
  | some r =>
      obtain ⟨cache, n'⟩ := r
      rw [Option.map_some]
      simp only [Bool.false_eq_true, if_false]
      rw [store_comm n' h]
      split <;> rfl

theorem deleteBlock_store_ne (h : id' ≠ id) (b : Block) :
    (n.store id b).deleteBlock id' false = (n.deleteBlock id' false).store id b := by
  unfold deleteBlock
  rw [find_store_ne h]
  cases n.find id' true with
  | none => rfl
  | some r =>
      obtain ⟨cache, n'⟩ := r
      rw [Option.map_some]
      simp only [Bool.false_eq_true, if_false]
      rw [changePrePtr_store_ne h, changeNextPtr_store_ne h]

theorem remove_store_ne {blk : BlockInfo} (h : blk.id ≠ id) (b : Block) :
    (n.store id b).remove blk feed false false 1 = (n.remove blk feed false false 1).store id b := by
  have hdone := (frame_removeLoop_one feed n blk.id).2
  unfold remove
  rw [removeLoop_store_ne h]
  generalize removeLoop feed false 1 n blk.id = r at hdone
  obtain ⟨res, n'⟩ := r
  cases res with
  | nothing => rfl
  | done id' delete =>
      obtain ⟨rfl, -⟩ := hdone id' delete rfl
      simp only [Bool.false_eq_true, if_false]
      split
      · exact deleteBlock_store_ne h b
      · rfl

/-! ## One record -/

/-- A record that does not name the block. -/
theorem restoreRecord_store_ne (h : ¬ Names data id) (b : Block) :
    (n.store id b).restoreRecord data = (n.restoreRecord data).store id b := by
  have hid : data.blk.id ≠ id := fun he => h (Or.inl he.symm)
  have hmain : (if data.item.feed < 0 then
        (n.store id b).remove data.blk (-data.item.feed) false false 1
      else (n.store id b).syncPut data false) =
      (if data.item.feed < 0 then n.remove data.blk (-data.item.feed) false false 1
        else n.syncPut data false).store id b := by
    by_cases hfeed : data.item.feed < 0
    · rw [if_pos hfeed, if_pos hfeed, remove_store_ne hid]
    · rw [if_neg hfeed, if_neg hfeed]
      unfold syncPut
      simp only [Bool.false_eq_true, if_false]
      rw [put_store_ne hid]
      by_cases h1 : data.blk.curCount = 1
      · have hpre : data.blk.preId ≠ id := fun he => h (Or.inr ⟨by omega, h1, he.symm⟩)
        rw [if_pos h1, if_pos h1, changeNextPtr_store_ne hpre]
      · rw [if_neg h1, if_neg h1]
  unfold restoreRecord
  dsimp only
  rw [hmain]
  split
  · exact removeAll_store_ne hid b
  · rfl

/-- Whether the record reads the block when it finds it on disk. -/
def Reads (data : FeedItemBlockInfo) (id : BlockId) : Bool :=
  data.blk.id ≠ id ∨ data.item.feed < 0 ∨ data.blk.curCount ≠ 1

/-- **A record that names the block, and finds it as it would find it on disk.** -/
theorem restoreRecord_store_self (h : Names data id) (hid : id.isNone = false)
    (hfile : id.fileId ∈ n.files) (hin : InFile id) (hb : b = n.content id (Reads data id)) :
    (n.store id b).restoreRecord data = n.restoreRecord data := by
  have hmain : (if data.item.feed < 0 then
        (n.store id b).remove data.blk (-data.item.feed) false false 1
      else (n.store id b).syncPut data false) =
      if data.item.feed < 0 then n.remove data.blk (-data.item.feed) false false 1
        else n.syncPut data false := by
    by_cases hown : data.blk.id = id
    · by_cases hfeed : data.item.feed < 0
      · have hreads : Reads data id = true := decide_eq_true (Or.inr (Or.inl hfeed))
        rw [hreads] at hb
        rw [if_pos hfeed, if_pos hfeed]
        unfold remove
        rw [hown, removeLoop_store_self hid hfile hin hb]
      · have hreads : Reads data id = decide (data.blk.curCount ≠ 1) := by
          simp [Reads, hown, hfeed]
        rw [hreads] at hb
        rw [if_neg hfeed, if_neg hfeed]
        unfold syncPut
        simp only [Bool.false_eq_true, if_false]
        rw [put_store_self hown hfile hin hb]
    · obtain ⟨hfeed, h1, hpre⟩ := h.resolve_left (Ne.symm hown)
      have hreads : Reads data id = true := decide_eq_true (Or.inl hown)
      rw [hreads] at hb
      have hput : b = (n.put data false).content id true := by
        rw [hb, content_load, content_load, (frame_put n data false).view (Ne.symm hown)]
      rw [if_neg (by omega), if_neg (by omega)]
      unfold syncPut
      simp only [Bool.false_eq_true, if_false]
      rw [if_pos h1, if_pos h1, put_store_ne hown, ← hpre,
        changeNextPtr_store_self hid ((frame_put n data false).files hfile) hin hput]
  unfold restoreRecord
  dsimp only
  rw [hmain]

/-! ## A log -/

/-- Blocks are put in memory. -/
def ahead (n : Node) (S : BlockId → Block) (ids : List BlockId) : Node :=
  ids.foldr (fun id n => n.store id (S id)) n

variable {S : BlockId → Block} {ids : List BlockId}

@[simp] theorem ahead_files (n : Node) (S : BlockId → Block) (ids : List BlockId) :
    (n.ahead S ids).files = n.files := by
  induction ids with
  | nil => rfl
  | cons id ids ih => exact ih

@[simp] theorem ahead_disk (n : Node) (S : BlockId → Block) (ids : List BlockId) :
    (n.ahead S ids).disk = n.disk := by
  induction ids with
  | nil => rfl
  | cons id ids ih => exact ih

theorem ahead_cache (n : Node) (S : BlockId → Block) (ids : List BlockId) (id : BlockId) :
    (n.ahead S ids).cache id = if id ∈ ids then some (S id) else n.cache id := by
  induction ids with
  | nil => rfl
  | cons id' ids ih =>
      show ((n.ahead S ids).store id' (S id')).cache id = _
      by_cases hid : id = id'
      · rw [hid, store_cache_self, if_pos List.mem_cons_self]
      · rw [store_cache_ne _ _ hid, ih]
        simp [hid]

instance (data : FeedItemBlockInfo) (id : BlockId) : Decidable (Names data id) :=
  inferInstanceAs (Decidable (_ ∨ _))

/-- A record takes the blocks it names out of those that are ahead of it. -/
theorem restoreRecord_ahead (hnodup : ids.Nodup)
    (hids : ∀ id ∈ ids, id.isNone = false ∧ id.fileId ∈ n.files ∧ InFile id)
    (hfound : ∀ id ∈ ids, Names data id → S id = n.content id (Reads data id)) :
    (n.ahead S ids).restoreRecord data =
      (n.restoreRecord data).ahead S (ids.filter fun id => decide (¬ Names data id)) := by
  induction ids with
  | nil => rfl
  | cons id ids ih =>
      obtain ⟨hnot, hnodup⟩ := List.nodup_cons.mp hnodup
      have hrest := ih hnodup (fun id' hid' => hids id' (List.mem_cons_of_mem id hid'))
        fun id' hid' => hfound id' (List.mem_cons_of_mem id hid')
      show ((n.ahead S ids).store id (S id)).restoreRecord data = _
      by_cases hnames : Names data id
      · obtain ⟨hnone, hfile, hin⟩ := hids id List.mem_cons_self
        have hcontent : S id = (n.ahead S ids).content id (Reads data id) := by
          rw [hfound id List.mem_cons_self hnames, Node.content, Node.content, ahead_cache,
            if_neg hnot, ahead_disk]
        rw [restoreRecord_store_self hnames hnone (by rw [ahead_files]; exact hfile) hin hcontent,
          hrest, List.filter_cons_of_neg (by simpa using hnames)]
      · rw [restoreRecord_store_ne hnames, hrest, List.filter_cons_of_pos (by simpa using hnames)]
        rfl

/-- **Blocks that are put in memory as the first record that names them finds them make no
difference to a replay.** -/
theorem restore_ahead (hnodup : ids.Nodup)
    (hids : ∀ id ∈ ids, id.isNone = false ∧ id.fileId ∈ n.files ∧ InFile id)
    {records : List FeedItemBlockInfo}
    (hfirst : ∀ id ∈ ids, ∃ r, records.find? (fun r => decide (Names r id)) = some r ∧
      S id = n.content id (Reads r id)) :
    (n.ahead S ids).restore records = n.restore records := by
  unfold restore
  induction records generalizing n ids with
  | nil =>
      cases ids with
      | nil => rfl
      | cons id ids =>
          obtain ⟨r, hr, -⟩ := hfirst id List.mem_cons_self
          cases hr
  | cons data records ih =>
      have hfound : ∀ id ∈ ids, Names data id → S id = n.content id (Reads data id) := by
        intro id hid hnames
        obtain ⟨r, hr, hcontent⟩ := hfirst id hid
        rw [List.find?_cons_of_pos (by simpa using hnames)] at hr
        cases hr
        exact hcontent
      have hframe := frame_restoreRecord n data
      rw [List.foldl_cons, List.foldl_cons, restoreRecord_ahead hnodup hids hfound]
      refine ih (hnodup.filter _) (fun id hid => ?_) fun id hid => ?_
      · obtain ⟨hnone, hfile, hin⟩ := hids id (List.mem_of_mem_filter hid)
        exact ⟨hnone, hframe.files hfile, hin⟩
      · obtain ⟨hid, hnames⟩ := List.mem_filter.mp hid
        have hnames := of_decide_eq_true hnames
        obtain ⟨r, hr, hcontent⟩ := hfirst id hid
        rw [List.find?_cons_of_neg (by simpa using hnames)] at hr
        refine ⟨r, hr, ?_⟩
        rw [hcontent, Node.content, Node.content, hframe.cache id hnames, hframe.disk]

end Node

end Ahead

end Oce.FeedDB
