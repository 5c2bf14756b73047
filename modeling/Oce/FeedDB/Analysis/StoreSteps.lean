import Oce.FeedDB.Analysis.Redelivery
import Oce.FeedDB.Analysis.RestoreSteps
import Oce.FeedDB.Model.Store

/-!
# What the steps of a store do to its node

Two invariants of a node whose blocks each have one owner. `Consistent` says that a block is
its owner's or empty, in memory and on disk, and that a clean block in memory has the items
it has on disk; with it a feed that a reader finds is kept in the sense of `Keeps`
(`Consistent.keeps`). `Grows` says what happens to the rest of the node: logs are appended
to, files are made after the newest one, and nothing leaves the memory or the disk.
-/

set_option autoImplicit false

namespace Oce.FeedDB

open Oce.Base Node

variable {feed fileId f userId c : ℤ} {data : FeedItemBlockInfo} {overwrite : Bool}
  {id target : BlockId} {b : Block} {index count : ℕ} {n : Node}

/-- The block is its owner's, or is nobody's and empty. -/
def OwnBlock (owner : UInt32) (b : Block) : Prop :=
  b.head.userId = owner ∨ b.head.userId = 0 ∧ b.items = []

/-- Blocks are their owners' or empty, a clean one has the items it has on disk, and a dirty
one is in memory. -/
structure Consistent (owner : BlockId → UInt32) (n : Node) : Prop where
  cached : ∀ id b, n.cache id = some b → OwnBlock (owner id) b
  disk : ∀ id, OwnBlock (owner id) (n.disk id)
  clean : ∀ id b, n.cache id = some b → n.dirty id = false → b.items = (n.disk id).items
  dirtyCached : ∀ id, n.dirty id = true → (n.cache id).isSome

variable {owner : BlockId → UInt32} {n n' : Node}

/-! ## Blocks of their owners -/

section Own

variable {u : UInt32} {b : Block}

theorem OwnBlock.reload (hu : u ≠ 0) (h : OwnBlock u b) :
    OwnBlock u b.reload ∧ b.reload.items = b.items := by
  by_cases hb : b.head.userId = 0
  · have hitems : b.items = [] := by
      rcases h with h | h
      · exact absurd (h.symm.trans hb) hu
      · exact h.2
    unfold Block.reload
    split
    · exact ⟨Or.inr ⟨rfl, rfl⟩, hitems.symm⟩
    · exact ⟨h, rfl⟩
  · rw [Block.reload_of_userId hb]
    exact ⟨h, rfl⟩

/-- A block with a feed is its owner's. -/
theorem OwnBlock.of_find (h : OwnBlock u b) (hfind : b.find feed ≠ none) : b.head.userId = u := by
  rcases h with h | ⟨-, hitems⟩
  · exact h
  · rw [Block.find, hitems] at hfind
    exact absurd rfl hfind

theorem OwnBlock.init : OwnBlock u Block.init := Or.inr ⟨rfl, rfl⟩

/-- A put whose item is for the owner leaves the block its owner's. -/
theorem OwnBlock.putBlock (h : OwnBlock u b)
    (hdata : uint32 data.blk.curCount ≤ UInt32.ofNat recordPerBlock →
      uint32 data.blk.userId = u) : OwnBlock u (Node.putBlock b data overwrite).2 := by
  unfold Node.putBlock
  dsimp only
  split
  · exact h
  split
  · exact h
  split
  · exact h
  have hr : OwnBlock u (if uint32 data.blk.curCount ≤ UInt32.ofNat recordPerBlock then
      b.putData data.blk data.item overwrite else (false, b)).2 := by
    split
    · rename_i hc
      rcases b.putData_cases data.blk data.item overwrite with
        ⟨-, -, he⟩ | ⟨-, -, he⟩ | ⟨-, -, hroom, he⟩
      · rw [he]
        exact h
      · rw [he]
        exact Or.inl (hdata hc)
      · rw [he]
        exact Or.inl (hdata hc)
    · exact h
  split
  · exact hr
  · exact hr

/-- A block of the item's owner that is not full, or has the feed, has the item afterwards. -/
theorem OwnBlock.takes {r : FeedItemBlockInfo} (h : OwnBlock (uint32 r.blk.userId) b)
    (hu : uint32 r.blk.userId ≠ 0) (hins : IsInsert r)
    (htaken : ¬ (b.curCount = recordPerBlock ∧ b.find r.item.feed = none)) (overwrite : Bool) :
    (Node.putBlock b r overwrite).2.HasItem r := by
  by_cases hfind : b.find r.item.feed = none
  · have howner : b.head.userId = 0 ∨ b.head.userId = uint32 r.blk.userId := by
      rcases h with hb | hb
      · exact Or.inr hb
      · exact Or.inl hb.1
    have href : ¬ b.Refuses r.item overwrite := by
      rintro (hfull | ⟨-, hne⟩)
      · exact htaken ⟨hfull, hfind⟩
      · exact hne hfind
    exact (putBlock_accepts hins.2 howner href).2
  · have hitem : b.HasItem r := ⟨h.of_find hfind, hfind⟩
    exact hitem.putBlock hu r overwrite

theorem OwnBlock.remove (h : OwnBlock u b) (feed : ℤ) : OwnBlock u (b.remove feed).2 := by
  rcases h with h | ⟨h0, hitems⟩
  · exact Or.inl h
  · refine Or.inr ⟨h0, ?_⟩
    have hsub : List.Sublist (b.remove feed).2.items b.items := removeKey_sublist feed b.items
    rw [hitems] at hsub
    exact List.sublist_nil.mp hsub

theorem OwnBlock.pointer {b' : Block} (h : OwnBlock u b) (hp : PointerWrite b b') :
    OwnBlock u b' := by
  obtain ⟨id, rfl | rfl⟩ := hp
  · exact h
  · exact h

end Own

/-! ## Consistency -/

theorem Consistent.content (hown : ∀ id, owner id ≠ 0) (h : Consistent owner n) (id : BlockId)
    (load : Bool) : OwnBlock (owner id) (n.content id load) := by
  unfold Node.content
  cases hc : n.cache id with
  | some b => exact h.cached id b hc
  | none =>
      cases load with
      | true => exact ((h.disk id).reload (hown id)).1
      | false => exact .init

/-- A clean block is found with the items it has on disk. -/
theorem Consistent.items_of_clean (hown : ∀ id, owner id ≠ 0) (h : Consistent owner n)
    (hclean : n.dirty id = false) : (n.view id).items = (n.disk id).items := by
  unfold Node.view
  cases hc : n.cache id with
  | some b => exact h.clean id b hc hclean
  | none => exact ((h.disk id).reload (hown id)).2

/-- **A feed that a reader finds is kept.** -/
theorem Consistent.keeps (hown : ∀ id, owner id ≠ 0) (h : Consistent owner n)
    (hdata : uint32 data.blk.userId = owner data.blk.id) (hfile : data.blk.fileId ∈ n.files)
    (hfind : (n.view data.blk.id).find data.item.feed ≠ none) :
    Keeps data n where
  file := hfile
  cached b hb := by
    rw [view_of_cache hb] at hfind
    exact ⟨((h.cached _ b hb).of_find hfind).trans hdata.symm, hfind⟩
  saved hclean := by
    have hdisk : (n.disk data.blk.id).find data.item.feed ≠ none := by
      rw [Block.find, ← h.items_of_clean hown hclean]
      exact hfind
    exact ⟨((h.disk _).of_find hdisk).trans hdata.symm, hdisk⟩
  dirtyCached := h.dirtyCached _

theorem Consistent.storeDirty (h : Consistent owner n) (hb : OwnBlock (owner id) b) :
    Consistent owner ((n.store id b).setDirty id) where
  cached id' b' hb' := by
    by_cases hid : id' = id
    · subst hid
      rw [setDirty_cache, store_cache_self] at hb'
      cases hb'
      exact hb
    · rw [setDirty_cache, store_cache_ne _ _ hid] at hb'
      exact h.cached id' b' hb'
  disk := h.disk
  clean id' b' hb' hclean := by
    by_cases hid : id' = id
    · rw [hid, setDirty_dirty_self] at hclean
      cases hclean
    · rw [setDirty_cache, store_cache_ne _ _ hid] at hb'
      rw [setDirty_dirty_ne _ hid] at hclean
      exact h.clean id' b' hb' hclean
  dirtyCached id' hd := by
    by_cases hid : id' = id
    · rw [hid, setDirty_cache, store_cache_self]
      rfl
    · rw [setDirty_dirty_ne _ hid] at hd
      rw [setDirty_cache, store_cache_ne _ _ hid]
      exact h.dirtyCached id' hd

theorem Consistent.storeQuiet (h : Consistent owner n) (hb : OwnBlock (owner id) b)
    (hitems : n.dirty id = false → b.items = (n.disk id).items) :
    Consistent owner (n.store id b) where
  cached id' b' hb' := by
    by_cases hid : id' = id
    · subst hid
      rw [store_cache_self] at hb'
      cases hb'
      exact hb
    · rw [store_cache_ne _ _ hid] at hb'
      exact h.cached id' b' hb'
  disk := h.disk
  clean id' b' hb' hclean := by
    by_cases hid : id' = id
    · subst hid
      rw [store_cache_self] at hb'
      cases hb'
      exact hitems hclean
    · rw [store_cache_ne _ _ hid] at hb'
      exact h.clean id' b' hb' hclean
  dirtyCached id' hd := by
    by_cases hid : id' = id
    · rw [hid, store_cache_self]
      rfl
    · rw [store_cache_ne _ _ hid]
      exact h.dirtyCached id' hd

theorem Consistent.files (h : Consistent owner n) (files : List ℤ) :
    Consistent owner { n with files := files } := ⟨h.cached, h.disk, h.clean, h.dirtyCached⟩

/-- Every change made through `Writes` that leaves blocks their owners'. -/
theorem Consistent.writes (hown : ∀ id, owner id ≠ 0) {W : BlockId → Block → Block → Prop}
    (h : Consistent owner n)
    (hW : ∀ id b b', W id b b' → OwnBlock (owner id) b → OwnBlock (owner id) b')
    (hw : Writes W n n') : Consistent owner n' := by
  induction hw with
  | refl => exact h
  | files files _ _ ih => exact ih.files files
  | log log _ ih => exact ⟨ih.cached, ih.disk, ih.clean, ih.dirtyCached⟩
  | load id _ _ ih =>
      obtain ⟨hb, hitems⟩ := (ih.disk id).reload (hown id)
      exact ih.storeQuiet hb fun _ => hitems
  | write id b b' _ hb hw ih => exact ih.storeDirty (hW id b b' hw (ih.cached id b hb))

/-- A put keeps each block with its owner. -/
theorem Consistent.put (hown : ∀ id, owner id ≠ 0) (h : Consistent owner n)
    (hdata : uint32 data.blk.curCount ≤ UInt32.ofNat recordPerBlock →
      uint32 data.blk.userId = owner data.blk.id) : Consistent owner (n.put data overwrite) := by
  rcases put_cases n data overwrite with he | ⟨files, -, -, he⟩
  · rw [he]
    exact h
  rw [he]
  dsimp only
  have hput : OwnBlock (owner data.blk.id) (putBlock (n.content data.blk.id
      (data.blk.curCount ≠ 1)) data overwrite).2 := (h.content hown _ _).putBlock hdata
  by_cases hset : (putBlock (n.content data.blk.id (data.blk.curCount ≠ 1)) data overwrite).1
  · rw [if_pos hset]
    exact (h.files files).storeDirty hput
  rw [if_neg hset]
  refine (h.files files).storeQuiet hput fun hclean => ?_
  have hclean' : n.dirty data.blk.id = false := hclean
  -- a block that was not loaded takes its first record, and its bit is set
  have hview : n.content data.blk.id (data.blk.curCount ≠ 1) = n.view data.blk.id := by
    refine content_of_not_blank fun hnone h1 => hset ?_
    have hinit : n.content data.blk.id (data.blk.curCount ≠ 1) = Block.init := by
      simp [Node.content, hnone, h1]
    rw [hinit]
    exact putBlock_init h1 overwrite
  have hquiet := putBlock_quiet (Bool.eq_false_iff.mpr hset)
  rw [hview] at hquiet ⊢
  have hitems : (putBlock (n.view data.blk.id) data overwrite).2.items =
      (n.view data.blk.id).items := by
    rcases hquiet with hsame | ⟨-, -, -, hb⟩
    · rw [hsame]
    · rw [hb]
      split <;> rfl
  rw [hitems]
  exact h.items_of_clean hown hclean'

/-- **A put that the block does not turn away leaves its feed there.** -/
theorem Consistent.put_takes (hown : ∀ id, owner id ≠ 0) (h : Consistent owner n)
    (hins : IsInsert data) (huser : uint32 data.blk.userId = owner data.blk.id)
    (hfile : data.blk.fileId ∈ n.files) (hin : InFile data.blk.id)
    (htaken : n.turnsAway data = false) (overwrite : Bool) :
    ((n.put data overwrite).cache data.blk.id).isSome ∧
      ((n.put data overwrite).view data.blk.id).find data.item.feed ≠ none := by
  have hput := put_located hfile hin overwrite
  rw [view_of_cache hput, hput]
  refine ⟨rfl, ?_⟩
  have hcontent : OwnBlock (owner data.blk.id)
      (n.content data.blk.id (data.blk.curCount ≠ 1)) := h.content hown _ _
  unfold Node.turnsAway at htaken
  rw [@find_located n data.blk.id hfile hin] at htaken
  simp only [Option.any_some, decide_eq_false_iff_not] at htaken
  rw [← huser] at hcontent
  exact (hcontent.takes (huser ▸ hown _) hins htaken overwrite).2

theorem Consistent.remove (hown : ∀ id, owner id ≠ 0) (h : Consistent owner n) (blk : BlockInfo)
    (feed : ℤ) (depth log : Bool) (fuel : ℕ) :
    Consistent owner (n.remove blk feed depth log fuel) := by
  refine h.writes (W := fun _ b b' => PointerWrite b b' ∨ b' = (b.remove feed).2) hown ?_
    (writes_remove n blk log (fun _ _ _ _ _ => Or.inr rfl) fun _ _ _ hp => Or.inl hp)
  rintro id b b' (hp | rfl) hb
  · exact hb.pointer hp
  · exact hb.remove feed

theorem Consistent.handleTask (hown : ∀ id, owner id ≠ 0) (h : Consistent owner n) {fuel : ℕ}
    (hdata : IsInsert data → uint32 data.blk.userId = owner data.blk.id) :
    Consistent owner (n.handleTask data overwrite fuel) := by
  unfold Node.handleTask
  split
  · exact h.remove hown _ _ _ _ _
  · rename_i hfeed
    exact h.put hown fun hc => hdata ⟨by omega, hc⟩

/-- A flush within the buffer's room. -/
theorem Consistent.flush (h : Consistent owner n)
    (hlen : (n.dirtys fileId index count).length ≤ maxFlush) :
    Consistent owner (n.flush fileId index count) where
  cached := h.cached
  disk id := by
    show OwnBlock (owner id) (if id ∈ n.dirtys fileId index count ∧ _ then
      (n.cache id).getD (n.disk id) else n.disk id)
    split
    · cases hc : n.cache id with
      | none => exact h.disk id
      | some b => exact h.cached id b hc
    · exact h.disk id
  clean id b hb hclean := by
    have hb' : n.cache id = some b := hb
    show b.items = (if id ∈ n.dirtys fileId index count ∧ _ then
      (n.cache id).getD (n.disk id) else n.disk id).items
    by_cases hid : id ∈ n.dirtys fileId index count
    · rw [if_pos ⟨hid, hlen⟩, hb']
      rfl
    · rw [if_neg fun hc => hid hc.1]
      refine h.clean id b hb' ?_
      simpa [Node.flush, hid] using hclean
  dirtyCached id hd := by
    simp only [Node.flush, Bool.and_eq_true] at hd
    exact h.dirtyCached id hd.1

/-! ## Writing a range of blocks -/

/-- The dirty blocks of a range that are in memory. -/
theorem mem_dirtys_iff :
    id ∈ n.dirtys fileId index count ↔ id.fileId = fileId ∧ (index : ℤ) ≤ id.blockIndex ∧
      id.blockIndex < index + count ∧ id.blockIndex < blockCount ∧ n.dirty id = true ∧
      (n.cache id).isSome := by
  unfold Node.dirtys
  simp only [List.mem_filter, List.mem_map, List.mem_range, Bool.decide_and, Bool.and_eq_true,
    decide_eq_true_eq]
  constructor
  · rintro ⟨⟨i, hi, rfl⟩, hlt, hd, hc⟩
    dsimp only at hlt ⊢
    exact ⟨rfl, by omega, by omega, hlt, hd, hc⟩
  · rintro ⟨hfile, hlow, hhigh, hlt, hd, hc⟩
    refine ⟨⟨(id.blockIndex - index).toNat, by omega, ?_⟩, hlt, hd, hc⟩
    cases id
    simp only [BlockId.mk.injEq] at hfile ⊢
    exact ⟨hfile.symm, by dsimp only at hlow; omega⟩

/-- Nothing is written when nothing is in memory. -/
theorem flush_of_not_cached (h : ∀ id, n.cache id = none) (fileId : ℤ) (index count : ℕ) :
    n.flush fileId index count = n := by
  have hnil : n.dirtys fileId index count = [] := by
    refine List.eq_nil_iff_forall_not_mem.mpr fun id hid => ?_
    have hcached := (mem_dirtys_iff.mp hid).2.2.2.2.2
    rw [h id] at hcached
    cases hcached
  unfold Node.flush
  simp [hnil]

/-- No reader sees that blocks were written. -/
theorem view_flush (n : Node) (fileId : ℤ) (index count : ℕ) :
    (n.flush fileId index count).view = n.view := by
  funext id
  show (n.cache id).getD (ite _ _ _ : Block).reload = (n.cache id).getD (n.disk id).reload
  cases hc : n.cache id with
  | some b => rfl
  | none =>
      rw [if_neg]
      rintro ⟨hid, -⟩
      obtain ⟨b, hb⟩ := mem_dirtys hid
      rw [hb] at hc
      cases hc

/-- The dirty blocks of the range are on disk as they are in memory, if they fit the
buffer, and no other block changes. -/
theorem disk_flush (hlen : (n.dirtys fileId index count).length ≤ maxFlush) :
    (∀ id ∈ n.dirtys fileId index count, (n.flush fileId index count).disk id = n.view id) ∧
      ∀ id, id ∉ n.dirtys fileId index count → (n.flush fileId index count).disk id = n.disk id := by
  refine ⟨fun id hid => ?_, fun id hid => if_neg fun h => hid h.1⟩
  obtain ⟨b, hb⟩ := mem_dirtys hid
  show (if id ∈ n.dirtys fileId index count ∧ _ then (n.cache id).getD (n.disk id)
    else n.disk id) = n.view id
  rw [if_pos ⟨hid, hlen⟩, view_of_cache hb, hb]
  rfl

/-! ## What grows -/

/-- The record takes the item of `data` away when it is replayed. -/
def Removes (data d : FeedItemBlockInfo) : Prop :=
  d.blk.id = data.blk.id ∧ (d.item.feed = -data.item.feed ∧ d.item.feed < 0 ∨ d.blk.curCount = -3)

instance (data d : FeedItemBlockInfo) : Decidable (Removes data d) :=
  inferInstanceAs (Decidable (_ ∧ _))

/-- Nothing leaves the memory or the disk, files are made after the newest one, and `added`
is appended to the logs, none of it an item. -/
structure Grows (added : ℤ → List FeedItemBlockInfo) (n n' : Node) : Prop where
  files : n.files ⊆ n'.files
  ascending : n.files.Pairwise (· < ·) → n'.files.Pairwise (· < ·)
  disk : n'.disk = n.disk
  cached : ∀ id, (n.cache id).isSome → (n'.cache id).isSome
  logOld : n'.logOld = n.logOld
  log : ∀ f, n'.log f = n.log f ++ added f
  added : ∀ f, ∀ d ∈ added f, d.blk.fileId = f ∧ ¬ IsInsert d

/-- A new file comes after the others. -/
theorem locateFile_ascending {files files' : List ℤ} (h : locateFile files f = some files')
    (hfiles : files.Pairwise (· < ·)) : files'.Pairwise (· < ·) := by
  unfold locateFile at h
  split at h
  · cases h
    exact hfiles
  · rename_i hmem
    split at h
    · cases h
      exact List.pairwise_singleton _ _
    · rename_i high hlast
      split at h
      · cases h
      · rename_i hlow
        cases h
        obtain ⟨l, rfl⟩ := List.getLast?_eq_some_iff.mp hlast
        refine List.pairwise_append.mpr ⟨hfiles, List.pairwise_singleton _ _, fun a ha b hb => ?_⟩
        obtain rfl := List.mem_singleton.mp hb
        have hne : high ≠ b := fun he => hmem (by simp [he])
        rcases List.mem_append.mp ha with ha | ha
        · have hal := (List.pairwise_append.mp hfiles).2.2 a ha high (by simp)
          omega
        · rw [List.mem_singleton.mp ha]
          omega

namespace Grows

variable {n₁ n₂ n₃ : Node} {added added' : ℤ → List FeedItemBlockInfo}

theorem refl (n : Node) : Grows (fun _ => []) n n where
  files := List.Subset.refl _
  ascending h := h
  disk := rfl
  cached _ h := h
  logOld := rfl
  log _ := (List.append_nil _).symm
  added _ _ h := absurd h List.not_mem_nil

theorem trans (h : Grows added n₁ n₂) (h' : Grows added' n₂ n₃) :
    Grows (fun f => added f ++ added' f) n₁ n₃ where
  files := List.Subset.trans h.files h'.files
  ascending ha := h'.ascending (h.ascending ha)
  disk := h'.disk.trans h.disk
  cached id hc := h'.cached id (h.cached id hc)
  logOld := h'.logOld.trans h.logOld
  log f := by rw [h'.log, h.log, List.append_assoc]
  added f d hd := (List.mem_append.mp hd).elim (h.added f d) (h'.added f d)

/-- A step that logs nothing. -/
theorem quiet (h : Grows added n₁ n₂) (h' : Grows (fun _ => []) n₂ n₃) : Grows added n₁ n₃ := by
  have hboth := h.trans h'
  simpa using hboth

theorem store (n : Node) {files : List ℤ} (hfiles : locateFile n.files f = some files)
    (id : BlockId) (b : Block) :
    Grows (fun _ => []) n (({ n with files := files } : Node).store id b) where
  files := (locateFile_subset hfiles).1
  ascending := locateFile_ascending hfiles
  disk := rfl
  cached := (frame_store n files (locateFile_subset hfiles).1 id b).cached
  logOld := rfl
  log _ := (List.append_nil _).symm
  added _ _ h := absurd h List.not_mem_nil

theorem setDirty (n : Node) (id : BlockId) : Grows (fun _ => []) n (n.setDirty id) :=
  { refl n with }

theorem put (n : Node) (data : FeedItemBlockInfo) (overwrite : Bool) :
    Grows (fun _ => []) n (n.put data overwrite) := by
  rcases put_cases n data overwrite with he | ⟨files, -, hfiles, he⟩
  · rw [he]
    exact refl n
  · rw [he]
    dsimp only
    split
    · exact (store n hfiles _ _).quiet (setDirty _ _)
    · exact store n hfiles _ _

/-- What logging a record does. -/
theorem logTo_cases (n : Node) (data : FeedItemBlockInfo) :
    locateFile n.files data.blk.fileId = none ∧ n.logTo data = n ∨
    ∃ files, locateFile n.files data.blk.fileId = some files ∧
      n.logTo data = { n with
        files := files
        log := Function.update n.log data.blk.fileId (n.log data.blk.fileId ++ [data]) } := by
  unfold logTo locateDataFile
  cases hfiles : locateFile n.files data.blk.fileId with
  | none => exact Or.inl ⟨rfl, rfl⟩
  | some files => exact Or.inr ⟨files, rfl, rfl⟩

/-- A record that is no item is logged. -/
theorem logTo (n : Node) (hdata : ¬ IsInsert data) :
    ∃ added, Grows added n (n.logTo data) ∧
      (data.blk.fileId ∈ n.files → data ∈ added data.blk.fileId) := by
  rcases logTo_cases n data with ⟨hnone, he⟩ | ⟨files, hfiles, he⟩
  · rw [he]
    refine ⟨_, refl n, fun hmem => ?_⟩
    rw [locateFile_of_mem hmem] at hnone
    cases hnone
  · refine ⟨fun f => if f = data.blk.fileId then [data] else [], ?_, fun _ => by simp⟩
    rw [he]
    refine ⟨(locateFile_subset hfiles).1, locateFile_ascending hfiles, rfl, fun _ h => h, rfl,
      fun f => ?_, fun f d hd => ?_⟩
    · by_cases hf : f = data.blk.fileId
      · subst hf
        simp
      · simp [hf]
    · split at hd
      · rename_i hf
        rw [List.mem_singleton.mp hd]
        exact ⟨hf.symm, hdata⟩
      · cases hd

theorem not_isInsert_pointer (hc : c = -1 ∨ c = -2) :
    ¬ IsInsert (specialRecord 0 userId c id target) := by
  rintro ⟨-, hle⟩
  exact hc.elim (curCount_ne_of_le hle).1 (curCount_ne_of_le hle).2

theorem pointer (n : Node) (hc : c = -1 ∨ c = -2) :
    ∃ added, Grows added n ((n.logTo (specialRecord 0 userId c id target)).put
      (specialRecord 0 userId c id target) false) := by
  have hpointer : ¬ IsInsert (specialRecord 0 userId c id target) := not_isInsert_pointer hc
  obtain ⟨added, h, -⟩ := logTo n hpointer
  exact ⟨added, h.quiet (put _ _ _)⟩

theorem changeNextPtr (n : Node) (userId : ℤ) (id next : BlockId) :
    ∃ added, Grows added n (n.changeNextPtr userId id next) := by
  unfold Node.changeNextPtr
  split
  · exact ⟨_, refl n⟩
  · exact pointer n (Or.inr rfl)

theorem changePrePtr (n : Node) (userId : ℤ) (id pre : BlockId) :
    ∃ added, Grows added n (n.changePrePtr userId id pre) := by
  unfold Node.changePrePtr
  split
  · exact ⟨_, refl n⟩
  · exact pointer n (Or.inl rfl)

theorem find {n' : Node} {load : Bool} (h : n.find id load = some (b, n')) :
    Grows (fun _ => []) n n' := by
  obtain ⟨-, -, files, hfiles, rfl⟩ := find_some h
  exact store n hfiles id b

/-- A deletion takes nothing out of the memory or the disk. -/
theorem deleteBlock (n : Node) (id : BlockId) (log : Bool) :
    ∃ added, Grows added n (n.deleteBlock id log) := by
  unfold Node.deleteBlock
  cases hf : n.find id true with
  | none => exact ⟨_, refl n⟩
  | some r =>
      obtain ⟨b, n₁⟩ := r
      have h₁ := find hf
      dsimp only
      generalize int32 b.head.userId = u
      obtain ⟨e₂, h₂⟩ : ∃ added, Grows added n (if log then
          (n₁.changePrePtr u b.next b.pre).changeNextPtr u b.pre b.next else n₁) := by
        cases log with
        | false => exact ⟨_, h₁⟩
        | true =>
            obtain ⟨_, ha⟩ := changePrePtr n₁ u b.next b.pre
            obtain ⟨_, hb⟩ := changeNextPtr (n₁.changePrePtr u b.next b.pre) u b.pre b.next
            exact ⟨_, (h₁.trans ha).trans hb⟩
      generalize (if log then
        (n₁.changePrePtr u b.next b.pre).changeNextPtr u b.pre b.next else n₁) = n₂ at h₂ ⊢
      obtain ⟨_, h₃⟩ := changePrePtr n₂ u id .none
      obtain ⟨_, h₄⟩ := changeNextPtr (n₂.changePrePtr u id .none) u id .none
      exact ⟨_, (h₂.trans h₃).trans h₄⟩

theorem removeLoop (feed : ℤ) (depth : Bool) (fuel : ℕ) (n : Node) (id : BlockId) :
    Grows (fun _ => []) n (Node.removeLoop feed depth fuel n id).2 := by
  induction fuel generalizing n id with
  | zero => exact refl n
  | succ fuel ih =>
      unfold Node.removeLoop
      by_cases hid : id.isNone
      · rw [if_pos hid]
        exact refl n
      rw [if_neg hid]
      cases hf : n.find id true with
      | none => exact refl n
      | some r =>
          obtain ⟨b, n'⟩ := r
          have hfound := find hf
          obtain ⟨-, -, files, hfiles, rfl⟩ := find_some hf
          dsimp only
          by_cases hrem : (b.remove feed).1
          · rw [if_pos hrem, store_store]
            exact (store n hfiles id _).quiet (setDirty _ _)
          rw [if_neg hrem]
          cases depth with
          | false => exact hfound
          | true => exact hfound.quiet (ih _ b.pre)

/-- **A removal by a client logs the block it took the feed from.** -/
theorem remove (n : Node) (blk : BlockInfo) (hfeed : 0 < feed) (depth : Bool) (fuel : ℕ) :
    ∃ added, Grows added n (n.remove blk feed depth true fuel) ∧
      ∀ id delete, (Node.removeLoop feed depth fuel n blk.id).1 = .done id delete →
        id.fileId ∈ n.files → specialRecord (-feed) blk.userId 0 id ⟨0, 0⟩ ∈ added id.fileId := by
  have hloop := removeLoop feed depth fuel n blk.id
  unfold Node.remove
  split
  · rename_i n' he
    rw [he] at hloop ⊢
    exact ⟨_, hloop, fun _ _ hdone => by cases hdone⟩
  · rename_i id delete n' he
    rw [he] at hloop ⊢
    have hneg : ¬ IsInsert (specialRecord (-feed) blk.userId 0 id ⟨0, 0⟩) := by
      rintro ⟨h0, -⟩
      simp only [specialRecord] at h0
      omega
    obtain ⟨e₁, h₁, hmem⟩ := logTo n' hneg
    have hboth := hloop.trans h₁
    simp only [List.nil_append] at hboth
    have hlogged : ∀ id' delete', Removed.done id delete = .done id' delete' →
        id'.fileId ∈ n.files → specialRecord (-feed) blk.userId 0 id' ⟨0, 0⟩ ∈ e₁ id'.fileId := by
      intro id' delete' hdone hfile
      simp only [Removed.done.injEq] at hdone
      obtain ⟨rfl, -⟩ := hdone
      exact hmem (hloop.files hfile)
    simp only [if_true]
    cases delete with
    | false => exact ⟨e₁, hboth, hlogged⟩
    | true =>
        obtain ⟨e₂, h₂⟩ := deleteBlock (n'.logTo (specialRecord (-feed) blk.userId 0 id ⟨0, 0⟩)) id true
        refine ⟨_, hboth.trans h₂, fun id' delete' hdone hfile => ?_⟩
        exact List.mem_append_left _ (hlogged id' delete' hdone hfile)

/-- **A task that is handled appends no item to the logs, and takes no item out of a block
without logging that it did.** -/
theorem handleTask {owner : BlockId → UInt32} (hown : ∀ id, owner id ≠ 0) (h : Consistent owner n)
    (data : FeedItemBlockInfo) (overwrite : Bool) (fuel : ℕ) :
    ∃ added, Grows added n (n.handleTask data overwrite fuel) ∧
      ∀ r : FeedItemBlockInfo, uint32 r.blk.userId = owner r.blk.id → r.blk.fileId ∈ n.files →
        (n.cache r.blk.id).isSome → (n.view r.blk.id).find r.item.feed ≠ none →
        ((n.handleTask data overwrite fuel).view r.blk.id).find r.item.feed ≠ none ∨
          ∃ d ∈ added r.blk.fileId, Removes r d := by
  unfold Node.handleTask
  split
  · rename_i hneg
    obtain ⟨added, hgrows, hlogged⟩ :=
      remove n data.blk (show 0 < -data.item.feed by omega) true fuel
    refine ⟨added, hgrows, fun r huser hfile hcached hfind => ?_⟩
    have hu : uint32 r.blk.userId ≠ 0 := huser ▸ hown _
    have hkeeps := h.keeps hown huser hfile hfind
    by_cases hk : (NodeOp.remove data.blk (-data.item.feed) true true fuel).KeepsItem r n
    · exact Or.inl ((hkeeps.step hu hk).view hu).2
    · simp only [NodeOp.KeepsItem, not_forall, not_not] at hk
      obtain ⟨hfeed, delete, hdone⟩ := hk
      refine Or.inr ⟨_, hlogged _ delete hdone hfile, rfl, Or.inl ⟨?_, ?_⟩⟩
      · simp only [specialRecord, hfeed]
      · simp only [specialRecord]
        omega
  · refine ⟨_, put n data overwrite, fun r huser hfile hcached hfind => Or.inl ?_⟩
    have hu : uint32 r.blk.userId ≠ 0 := huser ▸ hown _
    have hkeeps := h.keeps hown huser hfile hfind
    exact ((hkeeps.put hu fun _ _ => Or.inl hcached).view hu).2

end Grows

end Oce.FeedDB
