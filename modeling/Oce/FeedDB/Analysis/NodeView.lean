import Mathlib.Logic.Relation
import Oce.FeedDB.Model.Node

/-!
# What a node holds

A block is in memory or on disk; `Node.view` is the block a reader finds either way.
`get` sees a node through its view only (`getLoop_congr`), so whatever leaves the view of
every block alone changes the result of no `get`.

`Writes W n n'` says that `n'` comes from `n` by files being located, records logged,
blocks loaded and cached blocks written with their dirty bit set, each such write allowed
by `W`. `remove` and the pointer updates are of this kind, so an invariant has to be proved
for the four constructors once and not for every path through them.

A node appends to its log files and never reads them while it runs. Two nodes that differ in
their logs only (`Alike`) stay so under every step of a replay, so what a replay leaves in
memory does not depend on what the log files hold meanwhile.
-/

set_option autoImplicit false

namespace Oce.FeedDB

open Function Oce.Base

variable {id id' : BlockId} {n n' m : Node} {b : Block} {files : List ℤ} {f c feed : ℤ}
  {data : FeedItemBlockInfo} {depth : Bool}

/-- What `get` reads of a block: its owner, its items, and the block before it. -/
def Block.seen (b : Block) : UInt32 × List FeedItem × BlockId :=
  (b.head.userId, b.items, b.pre)

namespace Node

/-- The block a reader finds. -/
def view (n : Node) (id : BlockId) : Block := (n.cache id).getD (n.disk id).reload

@[simp] theorem store_cache_self (n : Node) (id : BlockId) (b : Block) :
    (n.store id b).cache id = some b := update_self ..

theorem store_cache_ne (n : Node) (b : Block) (h : id' ≠ id) :
    (n.store id b).cache id' = n.cache id' := update_of_ne h ..

@[simp] theorem store_files (n : Node) (id : BlockId) (b : Block) :
    (n.store id b).files = n.files := rfl
@[simp] theorem store_dirty (n : Node) (id : BlockId) (b : Block) :
    (n.store id b).dirty = n.dirty := rfl
@[simp] theorem store_disk (n : Node) (id : BlockId) (b : Block) :
    (n.store id b).disk = n.disk := rfl
@[simp] theorem setDirty_cache (n : Node) (id : BlockId) : (n.setDirty id).cache = n.cache := rfl
@[simp] theorem setDirty_files (n : Node) (id : BlockId) : (n.setDirty id).files = n.files := rfl
@[simp] theorem setDirty_disk (n : Node) (id : BlockId) : (n.setDirty id).disk = n.disk := rfl
@[simp] theorem setDirty_dirty_self (n : Node) (id : BlockId) : (n.setDirty id).dirty id = true :=
  update_self ..

theorem setDirty_dirty_ne (n : Node) (h : id' ≠ id) : (n.setDirty id).dirty id' = n.dirty id' := update_of_ne h ..

/-- Writing a cached block as it is changes nothing. -/
theorem store_self (h : n.cache id = some b) : n.store id b = n := by
  unfold store
  rw [← h, update_eq_self]

@[simp] theorem store_store (n : Node) (id : BlockId) (b b' : Block) :
    (n.store id b).store id b' = n.store id b' := by
  simp [store]

@[simp] theorem view_store_self (n : Node) (id : BlockId) (b : Block) :
    (n.store id b).view id = b := by
  simp [view]

theorem view_store_ne (n : Node) (b : Block) (h : id' ≠ id) :
    (n.store id b).view id' = n.view id' := by
  simp [view, store_cache_ne n b h]

@[simp] theorem view_setDirty (n : Node) (id : BlockId) : (n.setDirty id).view = n.view := rfl

@[simp] theorem view_files (n : Node) (files : List ℤ) :
    ({ n with files := files } : Node).view = n.view := rfl

@[simp] theorem view_log (n : Node) (log : ℤ → List FeedItemBlockInfo) :
    ({ n with log := log } : Node).view = n.view := rfl

theorem view_of_cache (h : n.cache id = some b) : n.view id = b := by
  simp [view, h]

/-! ## Locating a block -/

/-- A file that is located is there afterwards, with those that were there before. -/
theorem locateFile_subset {files' : List ℤ} (h : locateFile files f = some files') :
    files ⊆ files' ∧ f ∈ files' := by
  unfold locateFile at h
  split at h
  · rename_i hmem
    cases h
    exact ⟨List.Subset.refl _, hmem⟩
  · split at h
    · rename_i hlast
      cases h
      rw [List.getLast?_eq_none_iff.mp hlast]
      exact ⟨List.nil_subset _, List.mem_singleton_self f⟩
    · split at h
      · cases h
      · cases h
        exact ⟨List.subset_append_left _ _, by simp⟩

theorem locateFile_of_mem (h : f ∈ files) : locateFile files f = some files := if_pos h

/-- The block `Locate` finds. -/
def content (n : Node) (id : BlockId) (load : Bool) : Block :=
  (n.cache id).getD (if load then (n.disk id).reload else Block.init)

@[simp] theorem content_load (n : Node) (id : BlockId) : n.content id true = n.view id := rfl

/-- What finding a block does: it fails for an index outside the file or a file that is
gone, and otherwise leaves the block in memory. -/
theorem find_eq (n : Node) (id : BlockId) (load : Bool) :
    n.find id load =
      if InFile id then
        (locateFile n.files id.fileId).map fun files =>
          (n.content id load, ({ n with files := files } : Node).store id (n.content id load))
      else none := by
  unfold find locateDataFile locate content
  cases hl : locateFile n.files id.fileId with
  | none => simp
  | some files =>
      rw [Option.map_some, Option.bind_some, Option.map_some]
      by_cases hin : InFile id
      · rw [if_pos hin, if_pos hin]
        cases hc : n.cache id with
        | none => simp
        | some b =>
            have hself := store_self (n := { n with files := files }) hc
            simp only [Option.getD_some, hself]
      · rw [if_neg hin, if_neg hin]

theorem find_some {load : Bool} (h : n.find id load = some (b, n')) :
    InFile id ∧ b = n.content id load ∧
      ∃ files, locateFile n.files id.fileId = some files ∧
        n' = ({ n with files := files } : Node).store id b := by
  rw [find_eq] at h
  split at h
  · rename_i hin
    obtain ⟨files, hfiles, he⟩ := Option.map_eq_some_iff.mp h
    cases he
    exact ⟨hin, rfl, files, hfiles, rfl⟩
  · cases h

/-- A block that is loaded is the block a reader finds, and nobody sees the difference. -/
theorem find_load (h : n.find id true = some (b, n')) : b = n.view id ∧ n'.view = n.view := by
  obtain ⟨-, hb, files, -, rfl⟩ := find_some h
  refine ⟨hb, funext fun id' => ?_⟩
  by_cases hid : id' = id
  · rw [hid, view_store_self, hb, content_load]
  · rw [view_store_ne _ _ hid, view_files]

/-- Nodes with the same files whose blocks show the same find blocks that show the same. -/
theorem find_congr (hfiles : m.files = n.files)
    (hview : ∀ id, (m.view id).seen = (n.view id).seen) (id : BlockId) :
    (m.find id true = none ∧ n.find id true = none) ∨
    ∃ b b' m' n', m.find id true = some (b, m') ∧ n.find id true = some (b', n') ∧
      b.seen = b'.seen ∧ m'.files = n'.files ∧ ∀ id, (m'.view id).seen = (n'.view id).seen := by
  rw [find_eq, find_eq, hfiles]
  by_cases hin : InFile id
  · rw [if_pos hin, if_pos hin]
    cases locateFile n.files id.fileId with
    | none => exact Or.inl ⟨rfl, rfl⟩
    | some files =>
        refine Or.inr ⟨_, _, _, _, rfl, rfl, hview id, rfl, fun id' => ?_⟩
        by_cases hid : id' = id
        · rw [hid, view_store_self, view_store_self]
          exact hview id
        · rw [view_store_ne _ _ hid, view_store_ne _ _ hid]
          exact hview id'
  · rw [if_neg hin, if_neg hin]
    exact Or.inl ⟨rfl, rfl⟩

/-- **`get` sees a node only through its files and what its blocks show.** -/
theorem getLoop_congr (userId : ℤ) (fuel : ℕ) (hfiles : m.files = n.files)
    (hview : ∀ id, (m.view id).seen = (n.view id).seen) (id : BlockId) (count : ℕ) :
    getLoop userId fuel m id count = getLoop userId fuel n id count := by
  induction fuel generalizing m n id count with
  | zero => rfl
  | succ fuel ih =>
      unfold getLoop
      by_cases hstop : count = 0 ∨ id.isNone
      · rw [if_pos hstop, if_pos hstop]
      rw [if_neg hstop, if_neg hstop]
      rcases find_congr hfiles hview id with ⟨hm, hn⟩ | ⟨b, b', m', n', hm, hn, hb, hf, hv⟩
      · rw [hm, hn]
      · rw [hm, hn]
        simp only [Block.seen, Prod.mk.injEq] at hb
        obtain ⟨huser, hitems, hpre⟩ := hb
        simp only [huser, Block.getData, hitems, hpre, ih hf hv]

theorem get_congr (hfiles : m.files = n.files) (hview : ∀ id, (m.view id).seen = (n.view id).seen)
    (blk : BlockInfo) (count fuel : ℕ) : m.get blk count fuel = n.get blk count fuel :=
  getLoop_congr blk.userId fuel hfiles hview blk.id count

/-! ## Putting a record -/

/-- A block is found as readers find it, unless a first record meets it on disk only. -/
theorem content_of_not_blank (h : n.cache id = none → c ≠ 1) : n.content id (c ≠ 1) = n.view id := by
  unfold Node.content Node.view
  cases hc : n.cache id with
  | some b => rfl
  | none => simp [h hc]

/-- A record that carries an item is none of the two pointer records. -/
theorem curCount_ne_of_le (h : uint32 c ≤ UInt32.ofNat recordPerBlock) : c ≠ -1 ∧ c ≠ -2 := by
  constructor
  · rintro rfl
    exact absurd h (by decide)
  · rintro rfl
    exact absurd h (by decide)

/-- What `put` does: nothing, or it finds the block and writes what `putBlock` makes of it.
SOURCE: Cache.cpp:106-179 -/
theorem put_cases (n : Node) (data : FeedItemBlockInfo) (overwrite : Bool) :
    n.put data overwrite = n ∨
    ∃ files, InFile data.blk.id ∧ locateFile n.files data.blk.fileId = some files ∧
      n.put data overwrite =
        let r := putBlock (n.content data.blk.id (data.blk.curCount ≠ 1)) data overwrite
        let n' := ({ n with files := files } : Node).store data.blk.id r.2
        if r.1 then n'.setDirty data.blk.id else n' := by
  unfold put
  cases hf : n.find data.blk.id (data.blk.curCount ≠ 1) with
  | none => exact Or.inl rfl
  | some r =>
      obtain ⟨b, n'⟩ := r
      obtain ⟨hin, hb, files, hfiles, rfl⟩ := find_some hf
      refine Or.inr ⟨files, hin, hfiles, ?_⟩
      simp only [store_store, hb]

/-- A block that `put` leaves clean is as it was, or it is its owner's, refused the item,
and got its owner and, from a first record, the block before it. -/
theorem putBlock_quiet {overwrite : Bool} (h : (putBlock b data overwrite).1 = false) :
    (putBlock b data overwrite).2 = b ∨
    (uint32 data.blk.curCount ≤ UInt32.ofNat recordPerBlock ∧
      (b.head.userId = 0 ∨ b.head.userId = uint32 data.blk.userId) ∧
      b.Refuses data.item overwrite ∧
      (putBlock b data overwrite).2 =
        if data.blk.curCount = 1 then
          (b.setUser (uint32 data.blk.userId)).setPre data.blk.preFileId data.blk.preBlockIndex
        else b.setUser (uint32 data.blk.userId)) := by
  unfold putBlock at h ⊢
  dsimp only at h ⊢
  by_cases hu : b.head.userId ≠ 0 ∧ b.head.userId ≠ uint32 data.blk.userId
  · rw [if_pos hu]
    exact Or.inl rfl
  rw [if_neg hu] at h ⊢
  by_cases h1 : data.blk.curCount = -1
  · rw [if_pos h1] at h
    cases h
  rw [if_neg h1] at h ⊢
  by_cases h2 : data.blk.curCount = -2
  · rw [if_pos h2] at h
    cases h
  rw [if_neg h2] at h ⊢
  by_cases hc : uint32 data.blk.curCount ≤ UInt32.ofNat recordPerBlock
  · simp only [if_pos hc] at h ⊢
    rcases b.putData_cases data.blk data.item overwrite with
      ⟨hpos, hne, -⟩ | ⟨howner, href, he⟩ | ⟨-, -, hroom, he⟩
    · exact absurd ⟨UInt32.pos_iff_ne_zero.mp hpos, hne.symm⟩ hu
    · right
      refine ⟨hc, howner, href, ?_⟩
      rw [he]
      split <;> rfl
    · rw [he] at h
      split at h <;> cases h
  · left
    simp only [if_neg hc]
    have hne : data.blk.curCount ≠ 1 := by
      intro h1
      rw [h1] at hc
      exact hc (by decide)
    rw [if_neg hne]

/-- The first record of a block is written into a block that was not loaded. -/
theorem putBlock_init (h : data.blk.curCount = 1) (overwrite : Bool) :
    (putBlock Block.init data overwrite).1 = true := by
  unfold putBlock
  simp only [Block.init_userId, ne_eq, not_true_eq_false, false_and, if_false, h]
  rfl

/-! ## Writes -/

/-- Files located, records logged, blocks loaded, and cached blocks written as `W` allows
with their dirty bit set. -/
inductive Writes (W : BlockId → Block → Block → Prop) (n : Node) : Node → Prop
  | refl : Writes W n n
  | files {n' : Node} (files : List ℤ) (hsub : n'.files ⊆ files) (h : Writes W n n') :
      Writes W n { n' with files := files }
  | log {n' : Node} (log : ℤ → List FeedItemBlockInfo) (h : Writes W n n') :
      Writes W n { n' with log := log }
  | load {n' : Node} (id : BlockId) (h : Writes W n n') (hnone : n'.cache id = none) :
      Writes W n (n'.store id (n'.disk id).reload)
  | write {n' : Node} (id : BlockId) (b b' : Block) (h : Writes W n n')
      (hb : n'.cache id = some b) (hw : W id b b') : Writes W n ((n'.store id b').setDirty id)

variable {W : BlockId → Block → Block → Prop}

theorem Writes.trans {n₁ n₂ n₃ : Node} (h : Writes W n₁ n₂) (h' : Writes W n₂ n₃) :
    Writes W n₁ n₃ := by
  induction h' with
  | refl => exact h
  | files files hsub _ ih => exact ih.files files hsub
  | log log _ ih => exact ih.log log
  | load id _ hnone ih => exact ih.load id hnone
  | write id b b' _ hb hw ih => exact ih.write id b b' hb hw

/-- What the reader of a block sees of the writes: a chain of them. -/
theorem Writes.view (h : Writes W n n') (id : BlockId) :
    Relation.ReflTransGen (W id) (n.view id) (n'.view id) := by
  induction h with
  | refl => exact .refl
  | files files _ _ ih => exact ih
  | log log _ ih => exact ih
  | @load n' id' _ hnone ih =>
      have hsame : (n'.store id' (n'.disk id').reload).view id = n'.view id := by
        by_cases hid : id = id'
        · rw [hid, view_store_self, Node.view, hnone, Option.getD_none]
        · exact view_store_ne _ _ hid
      rw [hsame]
      exact ih
  | @write n' id' b b' _ hb hw ih =>
      rw [view_setDirty]
      by_cases hid : id = id'
      · subst hid
        rw [view_store_self]
        rw [view_of_cache hb] at ih
        exact ih.tail hw
      · rw [view_store_ne _ _ hid]
        exact ih

/-- Finding a block, loaded if it is not in memory. -/
theorem writes_find (h : n.find id true = some (b, n')) : Writes W n n' ∧ n'.cache id = some b := by
  obtain ⟨-, hb, files, hfiles, rfl⟩ := find_some h
  have hsub := (locateFile_subset hfiles).1
  refine ⟨?_, store_cache_self _ _ _⟩
  cases hc : n.cache id with
  | some b' =>
      have hbb : b = b' := by rw [hb, content_load, view_of_cache hc]
      rw [hbb, store_self (n := { n with files := files }) hc]
      exact Writes.refl.files files hsub
  | none =>
      have hbd : b = (n.disk id).reload := by rw [hb, content_load, view, hc, Option.getD_none]
      rw [hbd]
      exact (Writes.refl.files files hsub).load id hc

theorem writes_touch (n : Node) (id : BlockId) : Writes W n (n.touch id) := by
  unfold touch
  cases hf : n.find id true with
  | none => exact .refl
  | some r => exact (writes_find (b := r.1) hf).1

theorem writes_logTo (n : Node) (data : FeedItemBlockInfo) : Writes W n (n.logTo data) := by
  unfold logTo locateDataFile
  cases hfiles : locateFile n.files data.blk.fileId with
  | none => exact .refl
  | some files => exact (Writes.refl.files files (locateFile_subset hfiles).1).log _

/-- The block `b'` is `b` with one of its pointers changed. -/
def PointerWrite (b b' : Block) : Prop :=
  ∃ id : BlockId, b' = b.setPre id.fileId id.blockIndex ∨ b' = b.setNext id.fileId id.blockIndex

/-- What a record that changes a pointer does to its block. -/
theorem putBlock_specialRecord (b : Block) (userId : ℤ) (id target : BlockId)
    (hc : c = -1 ∨ c = -2) :
    putBlock b (specialRecord 0 userId c id target) false = (false, b) ∨
    ((b.head.userId = 0 ∨ b.head.userId = uint32 userId) ∧
      putBlock b (specialRecord 0 userId c id target) false =
        (true, if c = -1 then b.setPre target.fileId target.blockIndex
          else b.setNext target.fileId target.blockIndex)) := by
  unfold putBlock specialRecord
  dsimp only
  by_cases hu : b.head.userId ≠ 0 ∧ b.head.userId ≠ uint32 userId
  · rw [if_pos hu]
    exact Or.inl rfl
  · right
    rw [if_neg hu]
    refine ⟨?_, ?_⟩
    · by_contra hne
      push Not at hne
      exact hu hne
    · rcases hc with rfl | rfl
      · simp
      · simp

/-- A pointer record writes pointers only. -/
theorem writes_pointer (hW : ∀ id b b', PointerWrite b b' → W id b b') (n : Node) (userId : ℤ)
    (id target : BlockId) (hc : c = -1 ∨ c = -2) :
    Writes W n ((n.logTo (specialRecord 0 userId c id target)).put
      (specialRecord 0 userId c id target) false) := by
  refine (writes_logTo n (specialRecord 0 userId c id target)).trans ?_
  generalize n.logTo (specialRecord 0 userId c id target) = n
  have hload : (decide ((specialRecord 0 userId c id target).blk.curCount ≠ 1)) = true := by
    rcases hc with rfl | rfl <;> rfl
  unfold put
  rw [hload]
  cases hf : n.find (specialRecord 0 userId c id target).blk.id true with
  | none => exact .refl
  | some r =>
      obtain ⟨b, n'⟩ := r
      obtain ⟨hw, hcache⟩ := writes_find (W := W) hf
      rcases putBlock_specialRecord b userId id target hc with hr | ⟨-, hr⟩
      · simp only [hr]
        rw [store_self hcache]
        exact hw
      · simp only [hr, if_true]
        refine hw.write _ b _ hcache (hW _ _ _ ⟨target, ?_⟩)
        split
        · exact Or.inl rfl
        · exact Or.inr rfl

theorem writes_changeNextPtr (hW : ∀ id b b', PointerWrite b b' → W id b b') (n : Node)
    (userId : ℤ) (id next : BlockId) : Writes W n (n.changeNextPtr userId id next) := by
  unfold changeNextPtr
  split
  · exact .refl
  · exact writes_pointer hW n userId id next (Or.inr rfl)

theorem writes_changePrePtr (hW : ∀ id b b', PointerWrite b b' → W id b b') (n : Node)
    (userId : ℤ) (id pre : BlockId) : Writes W n (n.changePrePtr userId id pre) := by
  unfold changePrePtr
  split
  · exact .refl
  · exact writes_pointer hW n userId id pre (Or.inl rfl)

theorem writes_deleteBlock (hW : ∀ id b b', PointerWrite b b' → W id b b') (n : Node)
    (id : BlockId) (log : Bool) : Writes W n (n.deleteBlock id log) := by
  unfold deleteBlock
  cases hf : n.find id true with
  | none => exact .refl
  | some r =>
      obtain ⟨b, n'⟩ := r
      have hw := (writes_find (W := W) hf).1
      dsimp only
      cases log with
      | false =>
          exact (hw.trans (writes_changePrePtr hW ..)).trans (writes_changeNextPtr hW ..)
      | true =>
          exact (((hw.trans (writes_changePrePtr hW ..)).trans (writes_changeNextPtr hW ..)).trans
            (writes_changePrePtr hW ..)).trans (writes_changeNextPtr hW ..)

/-- The loop writes the block where it finds the feed. -/
theorem writes_removeLoop (fuel : ℕ) (n : Node) (id : BlockId)
    (hW : ∀ id' b delete, (removeLoop feed depth fuel n id).1 = .done id' delete →
      (b.remove feed).1 = true → W id' b (b.remove feed).2) :
    Writes W n (removeLoop feed depth fuel n id).2 := by
  induction fuel generalizing n id with
  | zero => exact .refl
  | succ fuel ih =>
      unfold removeLoop at hW ⊢
      by_cases hid : id.isNone
      · rw [if_pos hid]
        exact .refl
      rw [if_neg hid] at hW ⊢
      cases hf : n.find id true with
      | none => exact .refl
      | some r =>
          obtain ⟨b, n'⟩ := r
          obtain ⟨hw, hcache⟩ := writes_find (W := W) hf
          rw [hf] at hW
          dsimp only at hW ⊢
          by_cases hrem : (b.remove feed).1
          · rw [if_pos hrem] at hW ⊢
            exact hw.write id b _ hcache (hW id b _ rfl hrem)
          rw [if_neg hrem] at hW ⊢
          cases depth with
          | false => exact hw
          | true => exact hw.trans (ih n' b.pre hW)

/-- **A removal writes only the block it takes the feed from, and pointers.** -/
theorem writes_remove {fuel : ℕ} (n : Node) (blk : BlockInfo) (log : Bool)
    (hW : ∀ id b delete, (removeLoop feed depth fuel n blk.id).1 = .done id delete →
      (b.remove feed).1 = true → W id b (b.remove feed).2)
    (hP : ∀ id b b', PointerWrite b b' → W id b b') :
    Writes W n (n.remove blk feed depth log fuel) := by
  have hloop := writes_removeLoop fuel n blk.id hW
  unfold remove
  split
  · rename_i n' he
    rw [he] at hloop
    exact hloop
  · rename_i id delete n' he
    rw [he] at hloop
    generalize hm : (if log then n'.logTo (specialRecord (-feed) blk.userId 0 id ⟨0, 0⟩)
      else n') = m
    have hlog : Writes W n m := by
      rw [← hm]
      cases log with
      | false => exact hloop
      | true => exact hloop.trans (writes_logTo _ _)
    cases delete with
    | false => exact hlog
    | true => exact hlog.trans (writes_deleteBlock hP m id log)

end Node

/-! ## Nodes that differ in their logs -/

namespace Node

/-- The nodes differ in their logs at most. -/
structure Alike (m n : Node) : Prop where
  files : m.files = n.files
  cache : m.cache = n.cache
  dirty : m.dirty = n.dirty
  disk : m.disk = n.disk

namespace Alike

variable {m n : Node}

theorem refl (n : Node) : Alike n n := ⟨rfl, rfl, rfl, rfl⟩

theorem view (h : Alike m n) : m.view = n.view := by
  funext id
  unfold Node.view
  rw [h.cache, h.disk]

theorem content (h : Alike m n) (id : BlockId) (load : Bool) : m.content id load = n.content id load := by
  unfold Node.content
  rw [h.cache, h.disk]

theorem store (h : Alike m n) (id : BlockId) (b : Block) : Alike (m.store id b) (n.store id b) :=
  ⟨h.files, by unfold Node.store; rw [h.cache], h.dirty, h.disk⟩

theorem setDirty (h : Alike m n) (id : BlockId) : Alike (m.setDirty id) (n.setDirty id) :=
  ⟨h.files, h.cache, by unfold Node.setDirty; rw [h.dirty], h.disk⟩

theorem setFiles (h : Alike m n) (files : List ℤ) :
    Alike { m with files := files } { n with files := files } :=
  ⟨rfl, h.cache, h.dirty, h.disk⟩

/-- Alike nodes find the same block. -/
theorem find (h : Alike m n) (id : BlockId) (load : Bool) :
    (m.find id load = none ∧ n.find id load = none) ∨
    ∃ b m' n', m.find id load = some (b, m') ∧ n.find id load = some (b, n') ∧ Alike m' n' := by
  rw [find_eq, find_eq, h.files, h.content id load]
  by_cases hin : InFile id
  · rw [if_pos hin, if_pos hin]
    cases locateFile n.files id.fileId with
    | none => exact Or.inl ⟨rfl, rfl⟩
    | some files => exact Or.inr ⟨_, _, _, rfl, rfl, (h.setFiles files).store id _⟩
  · rw [if_neg hin, if_neg hin]
    exact Or.inl ⟨rfl, rfl⟩

theorem logTo (h : Alike m n) (data : FeedItemBlockInfo) : Alike (m.logTo data) (n.logTo data) := by
  unfold Node.logTo locateDataFile
  rw [h.files]
  cases locateFile n.files data.blk.fileId with
  | none => exact h
  | some files => exact ⟨rfl, h.cache, h.dirty, h.disk⟩

theorem put (h : Alike m n) (data : FeedItemBlockInfo) (overwrite : Bool) :
    Alike (m.put data overwrite) (n.put data overwrite) := by
  unfold Node.put
  rcases h.find data.blk.id (data.blk.curCount ≠ 1) with ⟨hm, hn⟩ | ⟨b, m', n', hm, hn, h'⟩
  · rw [hm, hn]
    exact h
  · rw [hm, hn]
    dsimp only
    split
    · exact (h'.store _ _).setDirty _
    · exact h'.store _ _

theorem changeNextPtr (h : Alike m n) (userId : ℤ) (id next : BlockId) :
    Alike (m.changeNextPtr userId id next) (n.changeNextPtr userId id next) := by
  unfold Node.changeNextPtr
  split
  · exact h
  · exact (h.logTo _).put _ false

/-- A pointer record is put whatever its feed, as long as that is not negative. -/
theorem changeNextPtrAsync {garbage : ℤ} (n : Node) (userId : ℤ) {id : BlockId}
    (hg : id.isNone = false → 0 ≤ garbage) (next : BlockId) (fuel : ℕ) :
    Alike (n.changeNextPtrAsync garbage userId id next fuel) (n.changeNextPtr userId id next) := by
  unfold Node.changeNextPtrAsync Node.changeNextPtr
  split
  · exact refl n
  · rename_i hsome
    have hfeed : ¬(specialRecord garbage userId (-2) id next).item.feed < 0 :=
      not_lt.mpr (hg (by simpa using hsome))
    have hlog : Alike (n.logTo (specialRecord garbage userId (-2) id next))
        (n.logTo (specialRecord 0 userId (-2) id next)) := by
      unfold Node.logTo locateDataFile
      dsimp only [specialRecord]
      cases locateFile n.files id.fileId with
      | none => exact refl n
      | some files => exact ⟨rfl, rfl, rfl, rfl⟩
    have hput : ∀ n : Node, n.put (specialRecord garbage userId (-2) id next) false =
        n.put (specialRecord 0 userId (-2) id next) false := fun _ => rfl
    unfold handleTask
    rw [if_neg hfeed, hput]
    exact hlog.put _ false

theorem asyncPutWith {garbage : ℤ} (n : Node) {data : FeedItemBlockInfo}
    (hg : data.blk.preId.isNone = false → 0 ≤ garbage) (overwrite : Bool) (fuel : ℕ) :
    Alike (n.asyncPutWith garbage data overwrite fuel) (n.asyncPut data overwrite fuel) := by
  rw [asyncPut_eq]
  unfold Node.asyncPutWith
  dsimp only
  split
  · exact changeNextPtrAsync _ _ hg _ _
  · exact refl _

theorem changePrePtr (h : Alike m n) (userId : ℤ) (id pre : BlockId) :
    Alike (m.changePrePtr userId id pre) (n.changePrePtr userId id pre) := by
  unfold Node.changePrePtr
  split
  · exact h
  · exact (h.logTo _).put _ false

theorem syncPut (h : Alike m n) (data : FeedItemBlockInfo) :
    Alike (m.syncPut data false) (n.syncPut data false) := by
  unfold Node.syncPut
  simp only [Bool.false_eq_true, if_false]
  split
  · exact (h.put data false).changeNextPtr _ _ _
  · exact h.put data false

theorem removeAll (h : Alike m n) (userId : ℤ) (id : BlockId) :
    Alike (m.removeAll userId id false) (n.removeAll userId id false) := by
  unfold Node.removeAll
  rcases h.find id true with ⟨hm, hn⟩ | ⟨b, m', n', hm, hn, h'⟩
  · rw [hm, hn]
    exact h
  · rw [hm, hn]
    exact h'.store id _

theorem removeLoop (feed : ℤ) (depth : Bool) (fuel : ℕ) (h : Alike m n) (id : BlockId) :
    (Node.removeLoop feed depth fuel m id).1 = (Node.removeLoop feed depth fuel n id).1 ∧
      Alike (Node.removeLoop feed depth fuel m id).2 (Node.removeLoop feed depth fuel n id).2 := by
  induction fuel generalizing m n id with
  | zero => exact ⟨rfl, h⟩
  | succ fuel ih =>
      unfold Node.removeLoop
      by_cases hid : id.isNone
      · rw [if_pos hid, if_pos hid]
        exact ⟨rfl, h⟩
      rw [if_neg hid, if_neg hid]
      rcases h.find id true with ⟨hm, hn⟩ | ⟨b, m', n', hm, hn, h'⟩
      · rw [hm, hn]
        exact ⟨rfl, h⟩
      · rw [hm, hn]
        dsimp only
        split
        · exact ⟨rfl, (h'.store id _).setDirty id⟩
        · split
          · exact ih h' b.pre
          · exact ⟨rfl, h'⟩

theorem deleteBlock (h : Alike m n) (id : BlockId) (log : Bool) :
    Alike (m.deleteBlock id log) (n.deleteBlock id log) := by
  unfold Node.deleteBlock
  rcases h.find id true with ⟨hm, hn⟩ | ⟨b, m', n', hm, hn, h'⟩
  · rw [hm, hn]
    exact h
  · rw [hm, hn]
    dsimp only
    refine Alike.changeNextPtr (Alike.changePrePtr ?_ _ _ _) _ _ _
    split
    · exact (h'.changePrePtr _ _ _).changeNextPtr _ _ _
    · exact h'

theorem remove (h : Alike m n) (blk : BlockInfo) (feed : ℤ) (depth log : Bool) (fuel : ℕ) :
    Alike (m.remove blk feed depth log fuel) (n.remove blk feed depth log fuel) := by
  obtain ⟨hres, hloop⟩ := removeLoop feed depth fuel h blk.id
  unfold Node.remove
  generalize Node.removeLoop feed depth fuel m blk.id = rm at hres hloop
  generalize Node.removeLoop feed depth fuel n blk.id = rn at hres hloop
  obtain ⟨res, m'⟩ := rm
  obtain ⟨res', n'⟩ := rn
  dsimp only at hres hloop
  subst hres
  cases res with
  | nothing => exact hloop
  | done id delete =>
      dsimp only
      have hlogged : Alike (if log then m'.logTo (specialRecord (-feed) blk.userId 0 id ⟨0, 0⟩) else m')
          (if log then n'.logTo (specialRecord (-feed) blk.userId 0 id ⟨0, 0⟩) else n') := by
        split
        · exact hloop.logTo _
        · exact hloop
      split
      · exact hlogged.deleteBlock id log
      · exact hlogged

theorem restoreRecord (h : Alike m n) (data : FeedItemBlockInfo) :
    Alike (m.restoreRecord data) (n.restoreRecord data) := by
  have hmain : Alike (if data.item.feed < 0 then m.remove data.blk (-data.item.feed) false false 1
      else m.syncPut data false) (if data.item.feed < 0 then
        n.remove data.blk (-data.item.feed) false false 1 else n.syncPut data false) := by
    split
    · exact h.remove _ _ _ _ _
    · exact h.syncPut data
  unfold Node.restoreRecord
  dsimp only
  split
  · exact hmain.removeAll _ _
  · exact hmain

/-- **A replay goes the same way whatever the log files hold.** -/
theorem restore (h : Alike m n) (records : List FeedItemBlockInfo) :
    Alike (m.restore records) (n.restore records) := by
  induction records generalizing m n with
  | nil => exact h
  | cons r records ih => exact ih (h.restoreRecord r)

end Alike

end Node

end Oce.FeedDB
