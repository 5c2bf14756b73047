import Mathlib.Data.List.Dedup
import Oce.FeedDB.Analysis.ReplayWrites

/-!
# The recovery of all files

The files of a node are recovered in ascending order, each from its image on disk and its
logs. A record names a block of its own file and, if it is the first of a block, one of the
same or an earlier file, so no file is made before its turn (`FilesUpTo`), and what a block
holds after the recovery is what the replay of its own file's log left there.
-/

set_option autoImplicit false

namespace Oce.FeedDB

open Oce.Base Node

variable {id : BlockId} {b b' : Block} {data : FeedItemBlockInfo} {userId feed f : ℤ} {m : Node}
  {records : List FeedItemBlockInfo} {i : ℕ}

/-- No file after `f` is there. -/
def FilesUpTo (f : ℤ) (n : Node) : Prop := ∀ g ∈ n.files, g ≤ f

/-! ## Files that are located -/

section Located

variable {f : ℤ} {n n' : Node}

theorem FilesUpTo.locate {files : List ℤ} {g : ℤ} (h : FilesUpTo f n) (hg : g ≤ f)
    (hfiles : locateFile n.files g = some files) : ∀ x ∈ files, x ≤ f := by
  unfold locateFile at hfiles
  split at hfiles
  · cases hfiles
    exact h
  · split at hfiles
    · cases hfiles
      intro x hx
      rw [List.mem_singleton.mp hx]
      exact hg
    · split at hfiles
      · cases hfiles
      · cases hfiles
        intro x hx
        rcases List.mem_append.mp hx with hx | hx
        · exact h x hx
        · rw [List.mem_singleton.mp hx]
          exact hg

theorem FilesUpTo.find {load : Bool} (h : FilesUpTo f n) (hid : id.fileId ≤ f)
    (hf : n.find id load = some (b, n')) : FilesUpTo f n' := by
  obtain ⟨-, -, files, hfiles, rfl⟩ := find_some hf
  exact h.locate hid hfiles

theorem FilesUpTo.logTo (h : FilesUpTo f n) (hdata : data.blk.fileId ≤ f) :
    FilesUpTo f (n.logTo data) := by
  rcases Grows.logTo_cases n data with ⟨-, he⟩ | ⟨files, hfiles, he⟩
  · rw [he]
    exact h
  · rw [he]
    exact h.locate hdata hfiles

theorem FilesUpTo.put (h : FilesUpTo f n) (hdata : data.blk.fileId ≤ f) (overwrite : Bool) :
    FilesUpTo f (n.put data overwrite) := by
  rcases put_cases n data overwrite with he | ⟨files, -, hfiles, he⟩
  · rw [he]
    exact h
  · rw [he]
    dsimp only
    split
    · exact h.locate hdata hfiles
    · exact h.locate hdata hfiles

theorem FilesUpTo.changeNextPtr (h : FilesUpTo f n) {next : BlockId} (hid : id.fileId ≤ f) :
    FilesUpTo f (n.changeNextPtr userId id next) := by
  unfold Node.changeNextPtr
  split
  · exact h
  · exact (h.logTo hid).put hid false

theorem FilesUpTo.changePrePtr (h : FilesUpTo f n) {pre : BlockId} (hid : id.fileId ≤ f) :
    FilesUpTo f (n.changePrePtr userId id pre) := by
  unfold Node.changePrePtr
  split
  · exact h
  · exact (h.logTo hid).put hid false

theorem FilesUpTo.deleteBlock (h : FilesUpTo f n) (hid : id.fileId ≤ f) :
    FilesUpTo f (n.deleteBlock id false) := by
  unfold Node.deleteBlock
  cases hf : n.find id true with
  | none => exact h
  | some r => exact ((h.find hid (b := r.1) hf).changePrePtr hid).changeNextPtr hid

theorem FilesUpTo.removeLoop (h : FilesUpTo f n) (hid : id.fileId ≤ f) :
    FilesUpTo f (Node.removeLoop feed false 1 n id).2 := by
  unfold Node.removeLoop
  split
  · exact h
  cases hf : n.find id true with
  | none => exact h
  | some r =>
      have hfound := h.find hid (b := r.1) hf
      dsimp only
      split
      · exact hfound
      · exact hfound

theorem FilesUpTo.remove (h : FilesUpTo f n) {blk : BlockInfo} (hblk : blk.fileId ≤ f) :
    FilesUpTo f (n.remove blk feed false false 1) := by
  have hloop : FilesUpTo f (Node.removeLoop feed false 1 n blk.id).2 := h.removeLoop hblk
  have hdone := (frame_removeLoop_one feed n blk.id).2
  unfold Node.remove
  split
  · rename_i n' he
    rw [he] at hloop
    exact hloop
  · rename_i id delete n' he
    rw [he] at hloop hdone
    obtain ⟨rfl, -⟩ := hdone id delete rfl
    cases delete with
    | false => exact hloop
    | true => exact hloop.deleteBlock hblk

theorem FilesUpTo.removeAll (h : FilesUpTo f n) (hid : id.fileId ≤ f) :
    FilesUpTo f (n.removeAll userId id false) := by
  unfold Node.removeAll
  cases hf : n.find id true with
  | none => exact h
  | some r =>
      have hfound := h.find hid (b := r.1) hf
      exact hfound

/-- **A record locates no file after its own.** -/
theorem FilesUpTo.restoreRecord (h : FilesUpTo f n) (hdata : data.blk.fileId ≤ f)
    (hpre : IsInsert data → data.blk.curCount = 1 → data.blk.preFileId ≤ f) :
    FilesUpTo f (n.restoreRecord data) := by
  have hmain : FilesUpTo f (if data.item.feed < 0 then
      n.remove data.blk (-data.item.feed) false false 1 else n.syncPut data false) := by
    split
    · exact h.remove hdata
    · rename_i hfeed
      unfold syncPut
      simp only [Bool.false_eq_true, if_false]
      split
      · rename_i h1
        exact (h.put hdata false).changeNextPtr
          (hpre ⟨by omega, by rw [h1]; decide⟩ h1)
      · exact h.put hdata false
  unfold Node.restoreRecord
  dsimp only
  split
  · exact hmain.removeAll hdata
  · exact hmain

end Located

/-! ## Blocks that are read in advance -/

theorem locateFrom_view (n : Node) (id : BlockId) : (n.locateFrom id).view = n.view := by
  unfold locateFrom
  split
  · rfl
  · rename_i hnot
    push Not at hnot
    funext id'
    by_cases hid : id' = id
    · subst hid
      have hnone : n.cache id' = none := by simpa using hnot.1
      rw [view_store_self, Node.view, hnone, Option.getD_none, Block.reload_of_userId hnot.2]
    · exact view_store_ne _ _ hid

theorem locateFrom_spec (n : Node) (ids : List BlockId) :
    (ids.foldl locateFrom n).view = n.view ∧ (ids.foldl locateFrom n).files = n.files ∧
      (ids.foldl locateFrom n).disk = n.disk := by
  induction ids generalizing n with
  | nil => exact ⟨rfl, rfl, rfl⟩
  | cons id ids ih =>
      rw [List.foldl_cons]
      obtain ⟨hview, hfiles, hdisk⟩ := ih (n.locateFrom id)
      have hsame : (n.locateFrom id).files = n.files ∧ (n.locateFrom id).disk = n.disk := by
        unfold locateFrom
        split <;> exact ⟨rfl, rfl⟩
      exact ⟨hview.trans (locateFrom_view n id), hfiles.trans hsame.1, hdisk.trans hsame.2⟩

/-! ## One file -/

/-- The node a file's log is replayed on: nothing in its blocks changed. -/
theorem recoverFile_cases (n : Node) (f : ℤ) (ids : List BlockId) :
    locateFile n.files f = none ∧ (∀ records, n.recoverFile f ids records = n) ∨
    ∃ m : Node, locateFile n.files f = some m.files ∧ m.view = n.view ∧ m.disk = n.disk ∧
      ∀ records, n.recoverFile f ids records = m.restore records := by
  unfold recoverFile locateDataFile
  cases hfiles : locateFile n.files f with
  | none => exact Or.inl ⟨rfl, fun _ => rfl⟩
  | some files =>
      obtain ⟨hview, hf, hdisk⟩ := locateFrom_spec { n with files := files } ids
      exact Or.inr ⟨ids.foldl locateFrom { n with files := files }, by rw [hf], hview, hdisk,
        fun _ => rfl⟩

/-- What is asked of the disk and the logs: the blocks have owners, each log holds records
of its own file, and the items in them are for the owners and for blocks of the file, those
that begin a block with a block before it that is in no later file. -/
structure Replayable (owner : BlockId → UInt32) (n : Node) : Prop where
  disk : ∀ id, OwnBlock (owner id) (n.disk id)
  ascending : n.files.Pairwise (· < ·)
  fileOf : ∀ f, ∀ d ∈ n.recoveryLog f, d.blk.fileId = f
  inserts : ∀ f, ∀ d ∈ n.recoveryLog f, IsInsert d → uint32 d.blk.userId = owner d.blk.id ∧
    InFile d.blk.id ∧ (d.blk.curCount = 1 → d.blk.preFileId ≤ f)

/-- The block has the owner and the items of the other one. -/
def SameItems (b b' : Block) : Prop := b'.head.userId = b.head.userId ∧ b'.items = b.items

variable {owner : BlockId → UInt32} {n : Node}

theorem SameItems.trans {b'' : Block} (h : SameItems b b') (h' : SameItems b' b'') :
    SameItems b b'' := ⟨h'.1.trans h.1, h'.2.trans h.2⟩

theorem FilesUpTo.restore (hm : FilesUpTo f m) (hfile : ∀ d ∈ records, d.blk.fileId = f)
    (hpre : ∀ d ∈ records, IsInsert d → d.blk.curCount = 1 → d.blk.preFileId ≤ f) :
    FilesUpTo f (m.restore records) := by
  unfold Node.restore
  induction records generalizing m with
  | nil => exact hm
  | cons r records ih =>
      rw [List.foldl_cons]
      exact ih (hm.restoreRecord (hfile r List.mem_cons_self).le (hpre r List.mem_cons_self))
        (fun d hd => hfile d (List.mem_cons_of_mem r hd))
        fun d hd => hpre d (List.mem_cons_of_mem r hd)

/-- The recovery of a file makes no later one, and leaves the blocks of the others. -/
theorem Replayable.recoverFile (h : Replayable owner n) (hm : FilesUpTo f m) (ids : List BlockId)
    (hsub : records ⊆ n.recoveryLog f) :
    FilesUpTo f (m.recoverFile f ids records) ∧
      ∀ id : BlockId, id.fileId ≠ f → SameItems (m.view id) ((m.recoverFile f ids records).view id) := by
  rcases recoverFile_cases m f ids with ⟨-, he⟩ | ⟨m₁, hfiles, hview, -, he⟩
  · rw [he]
    exact ⟨hm, fun _ _ => ⟨rfl, rfl⟩⟩
  · rw [he]
    refine ⟨?_, fun id hid => ?_⟩
    · refine FilesUpTo.restore (hm.locate le_rfl hfiles) (fun d hd => h.fileOf f d (hsub hd)) ?_
      exact fun d hd hins => (h.inserts f d (hsub hd) hins).2.2
    · rw [← hview]
      refine restore_other fun d hd he => hid ?_
      rw [← he]
      exact h.fileOf f d (hsub hd)

/-- The recovery of some files leaves the blocks of the others. -/
theorem Replayable.recoverRest (h : Replayable owner n) (preload : ℤ → List BlockId) (m : Node)
    (files : List ℤ) (hm : ∀ g ∈ files, FilesUpTo g m) (hasc : files.Pairwise (· < ·)) :
    let m' := files.foldl (fun m f => m.recoverFile f (preload f) (n.recoveryLog f)) m
    (∀ f, (∀ g ∈ files, g ≤ f) → FilesUpTo f m → FilesUpTo f m') ∧
      ∀ id : BlockId, id.fileId ∉ files → SameItems (m.view id) (m'.view id) := by
  induction files generalizing m with
  | nil => exact ⟨fun f _ hf => hf, fun id _ => ⟨rfl, rfl⟩⟩
  | cons g files ih =>
      obtain ⟨hg, hasc'⟩ := List.pairwise_cons.mp hasc
      obtain ⟨hone, hsame⟩ := h.recoverFile (hm g List.mem_cons_self) (preload g)
        (List.Subset.refl (n.recoveryLog g))
      obtain ⟨hrest, hrest'⟩ := ih _ (fun x hx y hy => (hone y hy).trans (hg x hx).le) hasc'
      rw [List.foldl_cons]
      refine ⟨fun f hf _ => hrest f (fun x hx => hf x (List.mem_cons_of_mem g hx)) ?_,
        fun id hid => ?_⟩
      · exact fun x hx => (hone x hx).trans (hf g List.mem_cons_self)
      · exact (hsame id fun he => hid (he ▸ List.mem_cons_self)).trans
          (hrest' id fun hmem => hid (List.mem_cons_of_mem g hmem))

/-- **At its turn a file is located and its blocks are those on disk; what the replay of its
log makes of them is what the recovery ends with.** -/
theorem Replayable.turn (h : Replayable owner n) (preload : ℤ → List BlockId) (hf : f ∈ n.files) :
    ∃ m : Node, f ∈ m.files ∧
      (∀ id : BlockId, id.fileId = f → SameItems (n.disk id).reload (m.view id)) ∧
      (∀ i, n.recoverUpTo preload f i = m.restore ((n.recoveryLog f).take i)) ∧
      ∀ id : BlockId, id.fileId = f →
        SameItems ((m.restore (n.recoveryLog f)).view id) ((n.recover preload).view id) := by
  obtain ⟨before, after, hfiles⟩ := List.append_of_mem hf
  have hasc := h.ascending
  rw [hfiles] at hasc
  obtain ⟨hbefore, hrest, hlt⟩ := List.pairwise_append.mp hasc
  obtain ⟨hafter, hafter'⟩ := List.pairwise_cons.mp hrest
  have htake : (n.files.takeWhile fun g => decide (g ≠ f)) = before := by
    have hne : ∀ g ∈ before, decide (g ≠ f) = true := fun g hg =>
      decide_eq_true (hlt g hg f List.mem_cons_self).ne
    rw [hfiles, List.takeWhile_append_of_pos hne, List.takeWhile_cons_of_neg (by simp),
      List.append_nil]
  -- the files before it
  obtain ⟨hupTo, hsame⟩ := h.recoverRest preload n.crash before
    (fun _ _ x hx => absurd hx List.not_mem_nil) hbefore
  have hf₀ := hupTo f (fun g hg => (hlt g hg f List.mem_cons_self).le)
    fun x hx => absurd hx List.not_mem_nil
  have hsame₀ : ∀ id : BlockId, id.fileId = f →
      SameItems (n.disk id).reload ((n.recoverFiles preload before).view id) := fun id hid =>
    hsame id fun hmem => (hlt _ hmem f List.mem_cons_self).ne hid
  change FilesUpTo f (n.recoverFiles preload before) at hf₀
  have hrecover : n.recover preload = after.foldl
      (fun m g => m.recoverFile g (preload g) (n.recoveryLog g))
      ((n.recoverFiles preload before).recoverFile f (preload f) (n.recoveryLog f)) := by
    unfold Node.recover Node.recoverFiles
    rw [hfiles, List.foldl_append, List.foldl_cons]
  have hupTo' : ∀ i, n.recoverUpTo preload f i = (n.recoverFiles preload before).recoverFile f
      (preload f) ((n.recoveryLog f).take i) := by
    intro i
    unfold Node.recoverUpTo
    rw [htake]
  rw [hrecover]
  generalize n.recoverFiles preload before = m₀ at hf₀ hsame₀ hupTo'
  rcases recoverFile_cases m₀ f (preload f) with ⟨hnone, -⟩ | ⟨m, hloc, hview, -, he⟩
  · -- no file after it was made, so it can be located
    unfold locateFile at hnone
    split at hnone
    · cases hnone
    · split at hnone
      · cases hnone
      · rename_i high hlast
        have hle := hf₀ high (List.mem_of_getLast? hlast)
        split at hnone
        · omega
        · cases hnone
  have hone := (h.recoverFile hf₀ (preload f) (List.Subset.refl (n.recoveryLog f))).1
  refine ⟨m, (locateFile_subset hloc).2, fun id hid => ?_, fun i => ?_, fun id hid => ?_⟩
  · rw [hview]
    exact hsame₀ id hid
  · rw [hupTo', he]
  · have hlast := (h.recoverRest preload (m₀.recoverFile f (preload f) (n.recoveryLog f))
      after (fun g hg x hx => (hone x hx).trans (hafter g hg).le) hafter').2 id
      fun hmem => (hafter _ hmem).ne hid.symm
    rw [he] at hlast ⊢
    exact hlast

/-! ## What the recovery keeps -/

/-- A record of the log after record `i` takes its item away. -/
def Removed (log : List FeedItemBlockInfo) (i : ℕ) (r : FeedItemBlockInfo) : Prop :=
  ∃ d ∈ log.drop (i + 1), Removes r d

variable {r : FeedItemBlockInfo}

theorem SameItems.hasItem (h : SameItems b b') (hb : b.HasItem r) : b'.HasItem r :=
  ⟨h.1.trans hb.1, by rw [Block.find, h.2]; exact hb.2⟩

theorem SameItems.own {u : UInt32} (h : SameItems b b') (hb : OwnBlock u b) : OwnBlock u b' := by
  rcases hb with hb | ⟨h0, hi⟩
  · exact Or.inl (h.1.trans hb)
  · exact Or.inr ⟨h.1.trans h0, h.2.trans hi⟩

/-- A replay that does not remove the item and does not start its block anew keeps it. -/
theorem restore_hasItem (hu : uint32 r.blk.userId ≠ 0) (hremoves : ∀ d ∈ records, ¬ Removes r d)
    (hfirst : (m.cache r.blk.id).isSome ∨
      ∀ d ∈ records, IsInsert d → d.blk.curCount = 1 → d.blk.id ≠ r.blk.id)
    (h : (m.view r.blk.id).HasItem r) : ((m.restore records).view r.blk.id).HasItem r := by
  refine restore_keeps (P := fun b => b.HasItem r) (fun d hd loaded hl b b' hw hb => ?_) h
  refine hw.hasItem hu (hremoves d hd) ?_ hb
  rcases hfirst with hc | hno
  · exact Or.inl (hl hc)
  · exact Or.inr fun hfirst => hno d hd hfirst.2.1 hfirst.2.2 hfirst.1

/-- **An item on disk is there after the recovery**, if the log does not remove it and does
not begin its block. -/
theorem Replayable.saved (hown : ∀ id, owner id ≠ 0) (h : Replayable owner n)
    (preload : ℤ → List BlockId) (hfile : r.blk.fileId ∈ n.files)
    (huser : uint32 r.blk.userId = owner r.blk.id)
    (hdisk : (n.disk r.blk.id).find r.item.feed ≠ none)
    (hremoves : ∀ d ∈ n.recoveryLog r.blk.fileId, ¬ Removes r d)
    (hfirst : ∀ d ∈ n.recoveryLog r.blk.fileId, IsInsert d → d.blk.curCount = 1 →
      d.blk.id ≠ r.blk.id) :
    ((n.recover preload).view r.blk.id).find r.item.feed ≠ none := by
  have hu : uint32 r.blk.userId ≠ 0 := huser ▸ hown _
  obtain ⟨m, -, hstart, -, hend⟩ := h.turn preload hfile
  have hitem : (n.disk r.blk.id).HasItem r :=
    ⟨((h.disk r.blk.id).of_find hdisk).trans huser.symm, hdisk⟩
  have hm := (hstart r.blk.id rfl).hasItem (hitem.reload hu)
  exact ((hend r.blk.id rfl).hasItem (restore_hasItem hu hremoves (Or.inr hfirst) hm)).2

/-- The replay of a record into a block of its owner that does not turn it away. -/
theorem restoreRecord_takes (hu : uint32 r.blk.userId ≠ 0) (hins : IsInsert r)
    (hown : OwnBlock (uint32 r.blk.userId) (m.view r.blk.id)) (hfile : r.blk.fileId ∈ m.files)
    (hin : InFile r.blk.id) (htaken : m.turnsAway r = false) :
    ((m.restoreRecord r).cache r.blk.id).isSome ∧
      ((m.restoreRecord r).view r.blk.id).HasItem r := by
  have hfeed : ¬ r.item.feed < 0 := by
    have h0 := hins.1
    omega
  have h3 : r.blk.curCount ≠ -3 := by
    intro h3
    have hle := hins.2
    rw [h3] at hle
    exact absurd hle (by decide)
  have hput := put_located hfile hin false
  have hcached : ((m.restoreRecord r).cache r.blk.id).isSome := by
    unfold Node.restoreRecord
    simp only [hfeed, h3, if_false]
    unfold syncPut
    simp only [Bool.false_eq_true, if_false]
    split
    · exact (frame_changeNextPtr _ _ _ _).cached _ (by rw [hput]; rfl)
    · rw [hput]
      rfl
  refine ⟨hcached, ?_⟩
  have hitem : ((m.put r false).view r.blk.id).HasItem r := by
    rw [view_of_cache hput]
    unfold Node.turnsAway at htaken
    rw [@find_located m r.blk.id hfile hin] at htaken
    simp only [Option.any_some, decide_eq_false_iff_not] at htaken
    have hcontent : OwnBlock (uint32 r.blk.userId)
        (m.content r.blk.id (r.blk.curCount ≠ 1)) := by
      by_cases hblank : m.cache r.blk.id = none ∧ r.blk.curCount = 1
      · have hinit : m.content r.blk.id (r.blk.curCount ≠ 1) = Block.init := by
          simp [Node.content, hblank.1, hblank.2]
        rw [hinit]
        exact .init
      · rw [content_of_not_blank fun hnone h1 => hblank ⟨hnone, h1⟩]
        exact hown
    exact hcontent.takes hu hins htaken false
  unfold Node.restoreRecord
  simp only [hfeed, h3, if_false]
  unfold syncPut
  simp only [Bool.false_eq_true, if_false]
  split
  · have hchain := (writes_changeNextPtr (W := fun _ => PointerWrite) (fun _ _ _ hp => hp)
      (m.put r false) r.blk.userId r.blk.preId r.blk.id).view r.blk.id
    generalize ((m.put r false).changeNextPtr r.blk.userId r.blk.preId r.blk.id).view r.blk.id = b
      at hchain ⊢
    induction hchain with
    | refl => exact hitem
    | tail _ hw ih => exact ih.pointer hw
  · exact hitem

/-- **An item whose record is replayed is there after the recovery**, if the rest of the log
does not remove it and the block does not turn it away. -/
theorem Replayable.replayed (hown : ∀ id, owner id ≠ 0) (h : Replayable owner n)
    (preload : ℤ → List BlockId) (hfile : r.blk.fileId ∈ n.files)
    (hr : (n.recoveryLog r.blk.fileId)[i]? = some r) (hins : IsInsert r)
    (hremoved : ¬ Removed (n.recoveryLog r.blk.fileId) i r)
    (htaken : (n.recoverUpTo preload r.blk.fileId i).turnsAway r = false) :
    ((n.recover preload).view r.blk.id).find r.item.feed ≠ none := by
  obtain ⟨huser, hin, -⟩ := h.inserts _ r (List.mem_of_getElem? hr) hins
  have hu : uint32 r.blk.userId ≠ 0 := huser ▸ hown _
  obtain ⟨m, hmem, hstart, hupTo, hend⟩ := h.turn preload hfile
  rw [hupTo] at htaken
  have hsplit : n.recoveryLog r.blk.fileId = (n.recoveryLog r.blk.fileId).take i ++
      r :: (n.recoveryLog r.blk.fileId).drop (i + 1) := by
    obtain ⟨hlt, he⟩ := List.getElem?_eq_some_iff.mp hr
    conv_lhs => rw [← List.take_append_drop i (n.recoveryLog r.blk.fileId),
      ← List.getElem_cons_drop hlt, he]
  have hsub : (n.recoveryLog r.blk.fileId).take i ⊆ n.recoveryLog r.blk.fileId :=
    List.take_subset _ _
  -- the block just before its record
  have hbefore : OwnBlock (uint32 r.blk.userId)
      ((m.restore ((n.recoveryLog r.blk.fileId).take i)).view r.blk.id) := by
    rw [huser]
    refine restore_keeps (P := OwnBlock (owner r.blk.id)) (fun d hd loaded _ b b' hw hb => ?_)
      ((hstart r.blk.id rfl).own ((h.disk r.blk.id).reload (hown _)).1)
    by_cases hid : d.blk.id = r.blk.id
    · refine hw.own (fun hd' => ?_) hb
      rw [← hid]
      exact (h.inserts _ d (hsub hd) hd').1
    · obtain ⟨hu', hi'⟩ := hw.other hid
      exact SameItems.own ⟨hu', hi'⟩ hb
  have hfile' : r.blk.fileId ∈ (m.restore ((n.recoveryLog r.blk.fileId).take i)).files := by
    exact files_restore _ _ hmem
  obtain ⟨hcached, hitem⟩ := restoreRecord_takes hu hins hbefore hfile' hin htaken
  refine ((hend r.blk.id rfl).hasItem ?_).2
  rw [hsplit]
  unfold Node.restore at hcached hitem ⊢
  rw [List.foldl_append, List.foldl_cons]
  refine restore_hasItem hu (fun d hd hrem => hremoved ⟨d, hd, hrem⟩) (Or.inl hcached) hitem

/-- The feeds of the block on disk and of the records for it up to record `i` fit a block. -/
def RoomAt (disk : BlockId → Block) (log : List FeedItemBlockInfo) (i : ℕ)
    (r : FeedItemBlockInfo) : Prop :=
  (feedsOf disk (log.take (i + 1)) r.blk.id).dedup.length ≤ recordPerBlock

/-- A block that is given no more feeds than fit turns none of them away. -/
theorem Replayable.not_turnsAway (hown : ∀ id, owner id ≠ 0) (h : Replayable owner n)
    (preload : ℤ → List BlockId) (hfile : r.blk.fileId ∈ n.files)
    (hr : (n.recoveryLog r.blk.fileId)[i]? = some r) (hins : IsInsert r)
    (hroom : RoomAt n.disk (n.recoveryLog r.blk.fileId) i r) :
    (n.recoverUpTo preload r.blk.fileId i).turnsAway r = false := by
  obtain ⟨-, hin, -⟩ := h.inserts _ r (List.mem_of_getElem? hr) hins
  obtain ⟨m, hmem, hstart, hupTo, -⟩ := h.turn preload hfile
  have hitems : (m.view r.blk.id).items = (n.disk r.blk.id).items :=
    (hstart r.blk.id rfl).2.trans ((h.disk r.blk.id).reload (hown _)).2
  have hfeeds := restore_feeds hitems ((n.recoveryLog r.blk.fileId).take i)
  rw [hupTo]
  have hfile' := files_restore m ((n.recoveryLog r.blk.fileId).take i) hmem
  generalize m.restore ((n.recoveryLog r.blk.fileId).take i) = m' at hfeeds hfile'
  by_contra hfull
  unfold Node.turnsAway at hfull
  rw [@find_located m' r.blk.id hfile' hin] at hfull
  simp only [Option.any_some, decide_eq_false_iff_not, not_not] at hfull
  obtain ⟨hcount, hnone⟩ := hfull
  by_cases hblank : m'.cache r.blk.id = none ∧ r.blk.curCount = 1
  · have hinit : m'.content r.blk.id (r.blk.curCount ≠ 1) = Block.init := by
      simp [Node.content, hblank.1, hblank.2]
    rw [hinit] at hcount
    exact absurd hcount (by decide)
  rw [content_of_not_blank fun hn h1 => hblank ⟨hn, h1⟩] at hcount hnone
  -- the feeds of the block and the feed it does not have are all among those counted
  have htake : (n.recoveryLog r.blk.fileId).take (i + 1) =
      (n.recoveryLog r.blk.fileId).take i ++ [r] := by
    rw [List.take_add_one, hr]
    rfl
  have hsub : ∀ feed, feed ∈ feedsOf n.disk ((n.recoveryLog r.blk.fileId).take i) r.blk.id →
      feed ∈ (feedsOf n.disk ((n.recoveryLog r.blk.fileId).take (i + 1)) r.blk.id).dedup := by
    intro feed hfeed
    rw [List.mem_dedup, htake]
    unfold feedsOf at hfeed ⊢
    rw [List.filter_append, List.map_append]
    rcases List.mem_append.mp hfeed with hd | hl
    · exact List.mem_append_left _ hd
    · exact List.mem_append_right _ (List.mem_append_left _ hl)
  have hself : r.item.feed ∈
      (feedsOf n.disk ((n.recoveryLog r.blk.fileId).take (i + 1)) r.blk.id).dedup := by
    rw [List.mem_dedup, htake]
    refine List.mem_append_right _ (List.mem_map.mpr ⟨r, ?_, rfl⟩)
    exact List.mem_filter.mpr ⟨List.mem_append_right _ (List.mem_singleton_self r),
      decide_eq_true ⟨rfl, hins⟩⟩
  have hkeys : ∀ a ∈ (m'.view r.blk.id).items, a.feed ∈
      (feedsOf n.disk ((n.recoveryLog r.blk.fileId).take (i + 1)) r.blk.id).dedup := by
    intro a ha
    refine hsub _ (hfeeds a.feed ?_)
    have hfind : (m'.view r.blk.id).find a.feed = some a := lookup_of_mem (m'.view r.blk.id).sorted ha
    rw [hfind]
    exact Option.some_ne_none a
  have hlt := (m'.view r.blk.id).sorted.length_lt hkeys hself hnone
  have hlen : (m'.view r.blk.id).items.length = recordPerBlock := hcount
  unfold RoomAt at hroom
  omega

end Oce.FeedDB
