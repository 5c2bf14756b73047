import Oce.FeedDB.Analysis.NodeView
import Oce.FeedDB.Model.Block
import Oce.FeedDB.Model.Cluster

/-!
# The dirty bit

A cached block whose dirty bit is clear should be what `Locate` would load for it, so that
evicting it loses nothing. `NodeOp` is what happens to the memory of a node, and
`NodeOp.KeepsClean` the condition under which an operation keeps this.

`remove` and the pointer records set the bit whenever they write. `put` does not when the
block refuses the item, although it has then set the owner of a block that had none, or
the pre pointer from a first record; `removeAll` never does; and `Flush` clears the bits of
more blocks than it then writes.
-/

set_option autoImplicit false

namespace Oce.FeedDB

open Oce.Base Node

section Bit

variable {n : Node} {id : BlockId} {fileId : ℤ} {index count : ℕ}

/-- The operations on the blocks of a node. Reading is locating a block. -/
inductive NodeOp where
  | put (data : FeedItemBlockInfo) (overwrite : Bool)
  | remove (blk : BlockInfo) (feed : ℤ) (depth log : Bool) (fuel : ℕ)
  | removeAll (userId : ℤ) (id : BlockId) (log : Bool)
  | locate (id : BlockId)
  | locateFrom (id : BlockId)
  | flush (fileId : ℤ) (index count : ℕ)
  | evict (ids : List BlockId)

namespace NodeOp

/-- The node after an operation. -/
def step (n : Node) : NodeOp → Node
  | put data overwrite => n.put data overwrite
  | remove blk feed depth log fuel => n.remove blk feed depth log fuel
  | removeAll userId id log => n.removeAll userId id log
  | locate id => n.touch id
  | locateFrom id => n.locateFrom id
  | flush fileId index count => n.flush fileId index count
  | evict ids => n.evict ids

/-- A put that its block refuses finds a block that is dirty, or that has the put's owner
and, for a first record, its pre pointer; a clear finds a block that is dirty or empty; a
flush has no more blocks to write than fit the buffer, and none with a zero head. -/
def KeepsClean (n : Node) : NodeOp → Prop
  | put data overwrite =>
    let b := n.view data.blk.id
    n.dirty data.blk.id = false →
    uint32 data.blk.curCount ≤ UInt32.ofNat recordPerBlock →
    (data.blk.curCount = 1 → (n.cache data.blk.id).isSome) →
    (b.head.userId = 0 ∨ b.head.userId = uint32 data.blk.userId) →
    b.Refuses data.item overwrite →
    b.head.userId = uint32 data.blk.userId ∧ (data.blk.curCount = 1 → b.pre = data.blk.preId)
  | removeAll _ id _ => n.dirty id = false → (n.view id).items = []
  | flush fileId index count =>
    (n.dirtys fileId index count).length ≤ maxFlush ∧
      ∀ id ∈ n.dirtys fileId index count, (n.view id).isZero = false
  | _ => True

instance (n : Node) : (op : NodeOp) → Decidable (op.KeepsClean n)
  | put _ _ => by unfold KeepsClean; infer_instance
  | remove .. => .isTrue trivial
  | removeAll .. => inferInstanceAs (Decidable (_ → _))
  | locate _ => .isTrue trivial
  | locateFrom _ => .isTrue trivial
  | flush .. => inferInstanceAs (Decidable (_ ∧ _))
  | evict _ => .isTrue trivial

end NodeOp

/-- A cached block whose dirty bit is clear is what `Locate` would load for it. -/
def CleanMatchesDisk (n : Node) : Prop :=
  ∀ id b, n.cache id = some b → n.dirty id = false → b = (n.disk id).reload

/-! ## One write -/

theorem cleanMatchesDisk_started (files : List ℤ) (disk : BlockId → Block)
    (log logOld : ℤ → List FeedItemBlockInfo) :
    CleanMatchesDisk (Node.started files disk log logOld) := by
  intro id b hb
  cases hb

/-- A clean block is found as it would be loaded. -/
theorem CleanMatchesDisk.view (h : CleanMatchesDisk n) (hclean : n.dirty id = false) :
    n.view id = (n.disk id).reload := by
  unfold Node.view
  cases hc : n.cache id with
  | none => rfl
  | some b => exact h id b hc hclean

/-- Writing a block with its bit set. -/
theorem CleanMatchesDisk.storeDirty (h : CleanMatchesDisk n) (id : BlockId) (b : Block) :
    CleanMatchesDisk ((n.store id b).setDirty id) := by
  intro id' b' hb hclean
  by_cases hid : id' = id
  · rw [hid, setDirty_dirty_self] at hclean
    cases hclean
  · rw [setDirty_cache, store_cache_ne _ _ hid] at hb
    rw [setDirty_dirty_ne _ hid] at hclean
    exact h id' b' hb hclean

/-- Writing a block without its bit: the bit was set, or the block is as it would be
loaded. -/
theorem CleanMatchesDisk.storeQuiet (h : CleanMatchesDisk n) {b : Block}
    (hb : n.dirty id = false → b = (n.disk id).reload) : CleanMatchesDisk (n.store id b) := by
  intro id' b' hb' hclean
  by_cases hid : id' = id
  · subst hid
    rw [store_cache_self] at hb'
    cases hb'
    exact hb hclean
  · rw [store_cache_ne _ _ hid] at hb'
    exact h id' b' hb' hclean

/-- Every change made through `Writes` keeps the bits right. -/
theorem CleanMatchesDisk.writes {W : BlockId → Block → Block → Prop} {n' : Node}
    (h : CleanMatchesDisk n) (hw : Writes W n n') : CleanMatchesDisk n' := by
  induction hw with
  | refl => exact h
  | files files _ _ ih => exact ih
  | log log _ ih => exact ih
  | load id _ _ ih => exact ih.storeQuiet fun _ => rfl
  | write id b b' _ _ _ ih => exact ih.storeDirty id b'

/-! ## One operation -/

/-- A put marks the block it changes. -/
theorem CleanMatchesDisk.put (h : CleanMatchesDisk n) {data : FeedItemBlockInfo}
    {overwrite : Bool} (hk : (NodeOp.put data overwrite).KeepsClean n) :
    CleanMatchesDisk (n.put data overwrite) := by
  rcases put_cases n data overwrite with he | ⟨files, -, -, he⟩
  · rw [he]
    exact h
  have hfiles : CleanMatchesDisk { n with files := files } := h
  rw [he]
  dsimp only
  by_cases hset : (putBlock (n.content data.blk.id (data.blk.curCount ≠ 1)) data overwrite).1
  · rw [if_pos hset]
    exact hfiles.storeDirty _ _
  rw [if_neg hset]
  refine hfiles.storeQuiet fun hclean => ?_
  have hquiet := putBlock_quiet (Bool.eq_false_iff.mpr hset)
  -- a block that was not loaded takes its first record, and its bit is set
  have hview : n.content data.blk.id (data.blk.curCount ≠ 1) = n.view data.blk.id ∧
      (data.blk.curCount = 1 → (n.cache data.blk.id).isSome) := by
    cases hc : n.cache data.blk.id with
    | some b => simp [Node.content, Node.view, hc]
    | none =>
        by_cases h1 : data.blk.curCount = 1
        · have hinit : n.content data.blk.id (data.blk.curCount ≠ 1) = Block.init := by
            simp [Node.content, hc, h1]
          rw [hinit] at hset
          exact absurd (putBlock_init h1 overwrite) hset
        · simp [Node.content, Node.view, hc, h1]
  obtain ⟨hview, hcached⟩ := hview
  rw [hview] at hquiet ⊢
  rw [← h.view hclean]
  rcases hquiet with hsame | ⟨hc, howner, href, hb⟩
  · exact hsame
  · obtain ⟨huser, hpre⟩ := hk hclean hc hcached howner href
    rw [hb, ← huser, Block.setUser_self]
    by_cases h1 : data.blk.curCount = 1
    · rw [if_pos h1]
      have hp := hpre h1
      simp only [Block.pre, BlockInfo.preId, BlockId.mk.injEq] at hp
      rw [← hp.1, ← hp.2]
      rfl
    · rw [if_neg h1]

/-- An emptied block that is dirty, or had no items. -/
theorem CleanMatchesDisk.removeAll (h : CleanMatchesDisk n) {userId : ℤ} {log : Bool}
    (hk : (NodeOp.removeAll userId id log).KeepsClean n) :
    CleanMatchesDisk (n.removeAll userId id log) := by
  unfold Node.removeAll
  cases hf : n.find id true with
  | none => exact h
  | some r =>
      obtain ⟨b, n'⟩ := r
      have hview := (find_load hf).1
      obtain ⟨-, -, files, -, rfl⟩ := find_some hf
      have hn : CleanMatchesDisk (({ n with files := files } : Node).store id b) :=
        h.writes (W := fun _ _ _ => True) (writes_find hf).1
      have hlogged : ∀ m : Node, m.dirty = n.dirty → m.disk = n.disk → CleanMatchesDisk m →
          CleanMatchesDisk (m.store id b.removeAll) := by
        intro m hdirty hdisk hm
        refine hm.storeQuiet fun hclean => ?_
        rw [hdirty] at hclean
        rw [hdisk, ← h.view hclean, ← hview]
        apply Block.ext
        · rfl
        · rw [Block.removeAll_items, hview, hk hclean]
      cases log with
      | false => exact hlogged _ rfl rfl hn
      | true =>
          refine hlogged _ ?_ ?_ (hn.writes (W := fun _ _ _ => True) (writes_logTo _ _))
          · simp only [if_true, logTo, locateDataFile]
            cases locateFile _ _ <;> rfl
          · simp only [if_true, logTo, locateDataFile]
            cases locateFile _ _ <;> rfl

theorem mem_dirtys (h : id ∈ n.dirtys fileId index count) : ∃ b, n.cache id = some b := by
  have hsome := (List.mem_filter.mp h).2
  simp only [Bool.decide_and, Bool.and_eq_true, decide_eq_true_eq] at hsome
  exact Option.isSome_iff_exists.mp hsome.2.2

theorem CleanMatchesDisk.flush (h : CleanMatchesDisk n)
    (hk : (NodeOp.flush fileId index count).KeepsClean n) :
    CleanMatchesDisk (n.flush fileId index count) := by
  obtain ⟨hlen, hzero⟩ := hk
  intro id b hb hclean
  have hb' : n.cache id = some b := hb
  show b = (if id ∈ n.dirtys fileId index count ∧ _ then (n.cache id).getD (n.disk id)
    else n.disk id).reload
  by_cases hid : id ∈ n.dirtys fileId index count
  · rw [if_pos ⟨hid, hlen⟩, hb', Option.getD_some]
    have hz := hzero id hid
    rw [view_of_cache hb'] at hz
    simp [Block.reload, hz]
  · rw [if_neg fun hc => hid hc.1]
    refine h id b hb' ?_
    simpa [Node.flush, hid] using hclean

theorem CleanMatchesDisk.evict (h : CleanMatchesDisk n) (ids : List BlockId) :
    CleanMatchesDisk (n.evict ids) := by
  intro id b hb hclean
  simp only [Node.evict] at hb
  split at hb
  · cases hb
  · exact h id b hb hclean

theorem CleanMatchesDisk.locateFrom (h : CleanMatchesDisk n) (id : BlockId) :
    CleanMatchesDisk (n.locateFrom id) := by
  unfold Node.locateFrom
  split
  · exact h
  · rename_i hnot
    push Not at hnot
    refine h.storeQuiet fun _ => ?_
    exact (Block.reload_of_userId hnot.2).symm

/-- **The step lemma of the dirty bit.** -/
theorem CleanMatchesDisk.step (h : CleanMatchesDisk n) {op : NodeOp} (hk : op.KeepsClean n) :
    CleanMatchesDisk (op.step n) := by
  cases op with
  | put data overwrite => exact h.put hk
  | remove blk feed depth log fuel =>
      exact h.writes (W := fun _ _ _ => True)
        (writes_remove n blk log (fun _ _ _ _ _ => trivial) fun _ _ _ _ => trivial)
  | removeAll userId id log => exact h.removeAll hk
  | locate id => exact h.writes (W := fun _ _ _ => True) (writes_touch n id)
  | locateFrom id => exact h.locateFrom id
  | flush fileId index count => exact h.flush hk
  | evict ids => exact h.evict ids

/-! ## Whole runs -/

/-- Evicting clean blocks changes what no reader finds. -/
theorem CleanMatchesDisk.view_evict (h : CleanMatchesDisk n) (ids : List BlockId) :
    (n.evict ids).view = n.view := by
  funext id
  unfold Node.view Node.evict
  dsimp only
  split
  · rename_i hid
    cases hc : n.cache id with
    | none => rfl
    | some b => exact (h id b hc hid.2).symm
  · rfl

/-- **In every run whose operations keep to the condition, a clean block is what would be
loaded for it, and evicting any clean blocks changes the result of no get.** -/
theorem clean_matches_disk (files : List ℤ) (disk : BlockId → Block)
    (log logOld : ℤ → List FeedItemBlockInfo) (ops : List NodeOp)
    (hops : StepsMeet NodeOp.step (fun n op => op.KeepsClean n)
      (.started files disk log logOld) ops) :
    let n := runOps NodeOp.step (.started files disk log logOld) ops
    CleanMatchesDisk n ∧
      ∀ ids blk count fuel, (n.evict ids).get blk count fuel = n.get blk count fuel := by
  have h := run_invariant (fun _ _ hn hk => hn.step hk)
    (cleanMatchesDisk_started files disk log logOld) hops
  refine ⟨h, fun ids blk count fuel => ?_⟩
  exact get_congr (by rfl) (fun id => by rw [h.view_evict]) blk count fuel

/-- A user's first two records, and the first again, on a node that flushes in between. -/
def twoPuts : List NodeOp :=
  [.put ⟨⟨5, 0, 0, 0, 0, 0⟩, ⟨0, 7, 1, 1, 1, 0, 0, -1, 0⟩⟩ false,
    .put ⟨⟨6, 0, 0, 0, 0, 0⟩, ⟨0, 7, 2, 2, 1, 0, 0, -1, 0⟩⟩ false,
    .flush 1 0 4,
    .put ⟨⟨5, 0, 0, 0, 0, 0⟩, ⟨0, 7, 1, 1, 1, 0, 0, -1, 0⟩⟩ false]

/-- The condition holds of a run with a refused put on a clean block. -/
theorem clean_matches_disk_twoPuts :
    let n := runOps NodeOp.step (.started [] (fun _ => .zeroed) (fun _ => []) fun _ => []) twoPuts
    CleanMatchesDisk n ∧
      ∀ ids blk count fuel, (n.evict ids).get blk count fuel = n.get blk count fuel :=
  clean_matches_disk [] (fun _ => .zeroed) (fun _ => []) (fun _ => []) twoPuts (by decide)

/-- A clear leaves its block clean: after the block is evicted, the items that were
cleared are back. -/
theorem removeAll_leaves_clean :
    let n := runOps NodeOp.step (.started [] (fun _ => .zeroed) (fun _ => []) fun _ => [])
      (twoPuts ++ [.removeAll 7 ⟨1, 0⟩ true])
    ¬ CleanMatchesDisk n ∧
      (n.evict [⟨1, 0⟩]).get ⟨0, 7, 2, 2, 1, 0, 0, -1, 0⟩ 10 2 ≠
        n.get ⟨0, 7, 2, 2, 1, 0, 0, -1, 0⟩ 10 2 := by
  intro n
  have hget : (n.evict [⟨1, 0⟩]).get ⟨0, 7, 2, 2, 1, 0, 0, -1, 0⟩ 10 2 ≠
      n.get ⟨0, 7, 2, 2, 1, 0, 0, -1, 0⟩ 10 2 := by decide
  refine ⟨fun h => ?_, hget⟩
  exact hget (get_congr (by rfl) (fun id => by rw [h.view_evict]) _ _ _)

end Bit

/-!
## The items a user was given and the items of the blocks

`insertFeed`, `dropFeed` and `dropFirst` say what a put and a removal are for; this module
connects them to what the block operations compute. A block that leaves its chain is empty,
so the blocks of a chain are the user's blocks with some empty ones left out: `KeptAs`.
-/

/-! ## One block -/

theorem mem_insertFeed {x a : FeedItem} {l : List FeedItem} (h : ¬ ∃ b ∈ l, b.feed = x.feed) :
    a ∈ insertFeed x l ↔ a = x ∨ a ∈ l := by
  unfold insertFeed
  rw [if_neg h]
  simp only [List.mem_append, List.mem_filter, List.mem_cons, decide_eq_true_eq]
  constructor
  · rintro (⟨ha, -⟩ | rfl | ⟨ha, -⟩)
    · exact Or.inr ha
    · exact Or.inl rfl
    · exact Or.inr ha
  · rintro (rfl | ha)
    · exact Or.inr (Or.inl rfl)
    · have hne : a.feed ≠ x.feed := fun he => h ⟨a, ha, he⟩
      rcases lt_or_gt_of_ne hne with hlt | hgt
      · exact Or.inr (Or.inr ⟨ha, hlt⟩)
      · exact Or.inl ⟨ha, hgt⟩

theorem descending_insertFeed (x : FeedItem) {l : List FeedItem}
    (hl : Descending FeedItem.feed l) : Descending FeedItem.feed (insertFeed x l) := by
  unfold insertFeed
  split
  · exact hl
  refine List.pairwise_append.mpr ⟨List.Pairwise.filter _ hl,
    List.pairwise_cons.mpr ⟨?_, List.Pairwise.filter _ hl⟩, ?_⟩
  · intro b hb
    simpa using (List.mem_filter.mp hb).2
  · intro a ha b hb
    have hxa : x.feed < a.feed := by simpa using (List.mem_filter.mp ha).2
    rcases List.mem_cons.mp hb with rfl | hb
    · exact hxa
    · have hbx : b.feed < x.feed := by simpa using (List.mem_filter.mp hb).2
      exact hbx.trans hxa

theorem descending_dropFeed (feed : ℤ) {l : List FeedItem} (hl : Descending FeedItem.feed l) :
    Descending FeedItem.feed (dropFeed feed l) :=
  List.Pairwise.filter _ hl

/-- The block refuses a duplicate and takes any other item in its place. -/
theorem place_eq_insertFeed (x : FeedItem) {l : List FeedItem} (hl : Descending FeedItem.feed l) :
    (place FeedItem.feed x false l).2 = insertFeed x l := by
  have href := place_refused_iff x false hl
  by_cases h : ∃ a ∈ l, a.feed = x.feed
  · obtain ⟨a, ha, hax⟩ := h
    have hfound : lookup FeedItem.feed x.feed l ≠ none := by
      rw [← hax, lookup_of_mem hl ha]
      exact Option.some_ne_none a
    rw [place_of_refused (href.mpr ⟨rfl, hfound⟩), insertFeed, if_pos ⟨a, ha, hax⟩]
  · have hnone : lookup FeedItem.feed x.feed l = none :=
      lookup_eq_none_iff.mpr fun a ha he => h ⟨a, ha, he⟩
    have hne : (place FeedItem.feed x false l).1 ≠ .refused := fun hp => (href.mp hp).2 hnone
    refine ext_mem (descending_place x false hl) (descending_insertFeed x hl) fun a => ?_
    have hmem := lookup_eq_some_iff (descending_place x false hl) (k := a.feed) (a := a)
    rw [lookup_place x false a.feed hl] at hmem
    simp only [hne, ne_eq, not_false_eq_true, true_and, and_true] at hmem
    rw [← hmem, mem_insertFeed h]
    by_cases hxa : x.feed = a.feed
    · rw [if_pos hxa, Option.some.injEq]
      constructor
      · exact fun he => Or.inl he.symm
      · rintro (he | ha)
        · exact he.symm
        · exact absurd ⟨a, ha, hxa.symm⟩ h
    · rw [if_neg hxa, lookup_eq_some_iff hl]
      constructor
      · exact fun ha => Or.inr ha.1
      · rintro (rfl | ha)
        · exact absurd rfl hxa
        · exact ⟨ha, rfl⟩

theorem Block.items_remove (b : Block) (feed : ℤ) :
    (b.remove feed).2.items = dropFeed feed b.items := by
  refine ext_mem (b.remove feed).2.sorted (descending_dropFeed feed b.sorted) fun a => ?_
  have hmem := lookup_eq_some_iff (b.remove feed).2.sorted (k := a.feed) (a := a)
  have hfind := b.find_remove feed a.feed
  rw [Block.find] at hfind
  rw [hfind] at hmem
  simp only [and_true] at hmem
  rw [← hmem, dropFeed, List.mem_filter, decide_eq_true_eq]
  by_cases ha : a.feed = feed
  · simp [ha]
  · rw [if_neg ha, Block.find, lookup_eq_some_iff b.sorted]
    tauto

/-- The block finds the feed it is to remove exactly when it has it. -/
theorem Block.remove_fst (b : Block) (feed : ℤ) :
    (b.remove feed).1 = true ↔ ∃ a ∈ b.items, a.feed = feed := by
  have h : (b.remove feed).1 = (lookup FeedItem.feed feed b.items).isSome :=
    removeKey_fst feed b.sorted
  rw [h, Option.isSome_iff_ne_none, ne_eq, lookup_eq_none_iff]
  push Not
  rfl

/-! ## The blocks of a user -/

/-- Only the blocks that have items. -/
def nonempty (ls : List (List FeedItem)) : List (List FeedItem) :=
  ls.filter fun l => decide (l ≠ [])

theorem flatten_nonempty (ls : List (List FeedItem)) : (nonempty ls).flatten = ls.flatten := by
  induction ls with
  | nil => rfl
  | cons l ls ih =>
      cases l with
      | nil => simpa [nonempty] using ih
      | cons a l => simpa [nonempty] using ih

/-- `ls` are the blocks `kept` with some empty ones left out, but not the newest. -/
def KeptAs (ls kept : List (List FeedItem)) : Prop :=
  ls.head? = kept.head? ∧ nonempty ls.tail = nonempty kept.tail

theorem KeptAs.flatten {ls kept : List (List FeedItem)} (h : KeptAs ls kept) :
    ls.flatten = kept.flatten := by
  obtain ⟨hhead, htail⟩ := h
  have hrest : ls.tail.flatten = kept.tail.flatten := by
    rw [← flatten_nonempty ls.tail, htail, flatten_nonempty]
  cases ls with
  | nil =>
      cases kept with
      | nil => rfl
      | cons k kept => cases hhead
  | cons l ls =>
      cases kept with
      | nil => cases hhead
      | cons k kept =>
          obtain rfl : l = k := Option.some.inj hhead
          simp only [List.flatten_cons, List.tail_cons] at hrest ⊢
          rw [hrest]

theorem KeptAs.trans {ls ls' ls'' : List (List FeedItem)} (h : KeptAs ls ls')
    (h' : KeptAs ls' ls'') : KeptAs ls ls'' :=
  ⟨h.1.trans h'.1, h.2.trans h'.2⟩

/-- The first block that has a feed has it among those with items. -/
theorem nonempty_dropFirst (feed : ℤ) (ls : List (List FeedItem)) :
    nonempty (dropFirst feed ls) = nonempty (dropFirst feed (nonempty ls)) := by
  induction ls with
  | nil => rfl
  | cons l ls ih =>
      have hidem : nonempty (nonempty ls) = nonempty ls := by
        simp [nonempty, List.filter_filter]
      cases l with
      | nil =>
          have hskip : dropFirst feed ([] :: ls) = [] :: dropFirst feed ls := by
            simp [dropFirst]
          have hcons : ∀ ls', nonempty ([] :: ls') = nonempty ls' := fun _ => rfl
          rw [hskip, hcons, hcons, ih]
      | cons a l =>
          have hcons : ∀ ls', nonempty ((a :: l) :: ls') = (a :: l) :: nonempty ls' := fun _ => rfl
          rw [hcons]
          unfold dropFirst
          by_cases h : ∃ b ∈ a :: l, b.feed = feed
          · rw [if_pos h, if_pos h]
            simp only [nonempty, List.filter_cons] at hidem ⊢
            rw [hidem]
          · rw [if_neg h, if_neg h, hcons, hcons, ih]

/-- **A removal keeps the relation.** -/
theorem KeptAs.dropFirst {ls kept : List (List FeedItem)} (h : KeptAs ls kept) (feed : ℤ) :
    KeptAs (dropFirst feed ls) (dropFirst feed kept) := by
  obtain ⟨hhead, htail⟩ := h
  cases ls with
  | nil =>
      cases kept with
      | nil => exact ⟨rfl, rfl⟩
      | cons k kept => cases hhead
  | cons l ls =>
      cases kept with
      | nil => cases hhead
      | cons k kept =>
          obtain rfl : l = k := Option.some.inj hhead
          unfold FeedDB.dropFirst
          by_cases hl : ∃ a ∈ l, a.feed = feed
          · rw [if_pos hl, if_pos hl]
            exact ⟨rfl, htail⟩
          · rw [if_neg hl, if_neg hl]
            refine ⟨rfl, ?_⟩
            simp only [List.tail_cons] at htail ⊢
            rw [nonempty_dropFirst, htail, ← nonempty_dropFirst]

/-- Where the feed is in the middle, only that block changes. -/
theorem dropFirst_append {feed : ℤ} {xs ys : List (List FeedItem)} {l : List FeedItem}
    (hxs : ∀ l' ∈ xs, ¬ ∃ a ∈ l', a.feed = feed) (hl : ∃ a ∈ l, a.feed = feed) :
    FeedDB.dropFirst feed (xs ++ l :: ys) = xs ++ dropFeed feed l :: ys := by
  induction xs with
  | nil =>
      rw [List.nil_append, FeedDB.dropFirst, if_pos hl]
      rfl
  | cons x xs ih =>
      rw [List.cons_append, FeedDB.dropFirst, if_neg (hxs x List.mem_cons_self),
        ih fun l' hl' => hxs l' (List.mem_cons_of_mem x hl')]
      rfl

theorem dropFirst_of_not {feed : ℤ} {ls : List (List FeedItem)}
    (h : ∀ l ∈ ls, ¬ ∃ a ∈ l, a.feed = feed) : FeedDB.dropFirst feed ls = ls := by
  induction ls with
  | nil => rfl
  | cons l ls ih =>
      rw [FeedDB.dropFirst, if_neg (h l List.mem_cons_self),
        ih fun l' hl' => h l' (List.mem_cons_of_mem l hl')]

/-- An empty block in the middle may be left out. -/
theorem keptAs_drop_empty {xs ys : List (List FeedItem)} (h : xs ≠ []) :
    KeptAs (xs ++ ys) (xs ++ [] :: ys) := by
  cases xs with
  | nil => exact absurd rfl h
  | cons x xs =>
      refine ⟨rfl, ?_⟩
      simp [nonempty]

theorem descending_dropFirst (feed : ℤ) {ls : List (List FeedItem)}
    (h : ∀ l ∈ ls, Descending FeedItem.feed l) :
    ∀ l ∈ FeedDB.dropFirst feed ls, Descending FeedItem.feed l := by
  induction ls with
  | nil => exact h
  | cons l ls ih =>
      obtain ⟨hl, hls⟩ := List.forall_mem_cons.mp h
      unfold FeedDB.dropFirst
      split
      · exact List.forall_mem_cons.mpr ⟨descending_dropFeed feed hl, hls⟩
      · exact List.forall_mem_cons.mpr ⟨hl, ih hls⟩

/-- The first record of a block opens it. -/
theorem keepItem_first {info : BlockInfo} (h : info.curCount = 1) (x : FeedItem)
    (ls : List (List FeedItem)) : keepItem info x ls = [x] :: ls := by
  cases ls with
  | nil => rfl
  | cons l ls => exact if_pos h

theorem keepItem_next {info : BlockInfo} (h : info.curCount ≠ 1) (x : FeedItem)
    (l : List FeedItem) (ls : List (List FeedItem)) :
    keepItem info x (l :: ls) = insertFeed x l :: ls := if_neg h

theorem descending_keepItem (info : BlockInfo) (x : FeedItem) {ls : List (List FeedItem)}
    (h : ∀ l ∈ ls, Descending FeedItem.feed l) :
    ∀ l ∈ keepItem info x ls, Descending FeedItem.feed l := by
  have hone : Descending FeedItem.feed [x] := List.pairwise_singleton _ _
  by_cases h1 : info.curCount = 1
  · rw [keepItem_first h1]
    exact List.forall_mem_cons.mpr ⟨hone, h⟩
  cases ls with
  | nil => exact List.forall_mem_cons.mpr ⟨hone, h⟩
  | cons l ls =>
      obtain ⟨hl, hls⟩ := List.forall_mem_cons.mp h
      rw [keepItem_next h1]
      exact List.forall_mem_cons.mpr ⟨descending_insertFeed x hl, hls⟩

/-- **A put keeps the relation, when it opens a block.** -/
theorem KeptAs.cons {ls kept : List (List FeedItem)} (h : KeptAs ls kept) (l : List FeedItem) :
    KeptAs (l :: ls) (l :: kept) := by
  obtain ⟨hhead, htail⟩ := h
  refine ⟨rfl, ?_⟩
  simp only [List.tail_cons]
  cases ls with
  | nil =>
      cases kept with
      | nil => rfl
      | cons k kept => cases hhead
  | cons a ls =>
      cases kept with
      | nil => cases hhead
      | cons k kept =>
          obtain rfl : a = k := Option.some.inj hhead
          simp only [nonempty, List.tail_cons, List.filter_cons] at htail ⊢
          rw [htail]

/-- **A put keeps the relation, when it goes to the newest block.** -/
theorem KeptAs.cons_of_cons {l k l' : List FeedItem} {ls kept : List (List FeedItem)}
    (h : KeptAs (l :: ls) (k :: kept)) : KeptAs (l' :: ls) (l' :: kept) :=
  ⟨rfl, h.2⟩

end Oce.FeedDB
