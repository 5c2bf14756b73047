import Oce.FeedDB.Analysis.DirtyBit

/-!
# A put that is delivered again

The master sends a batch again when its call timed out, so a put may reach a node twice.
`HasItem` says that a block belongs to the put's user and holds its feed. From the put
that brought the item in until the feed is removed, the block has it in memory, and on
disk whenever its dirty bit is clear (`Keeps`), so a second delivery is refused.

The exception is the first record of a block. It is written without loading the block, so
when the block was evicted it takes the place of everything that was in it; and when the
block is in memory it still sets the pre pointer, which may have been changed since.
-/

set_option autoImplicit false

namespace Oce.FeedDB

open Oce.Base Node

variable {b : Block} {overwrite : Bool} {n : Node} {id : BlockId}

/-- The put is a record with an item, and its block is found, is nobody's or its user's, and
does not refuse the item. -/
def Node.Accepts (n : Node) (data : FeedItemBlockInfo) : Prop :=
  uint32 data.blk.curCount ≤ UInt32.ofNat recordPerBlock ∧
  ∃ b n', n.find data.blk.id (data.blk.curCount ≠ 1) = some (b, n') ∧
    (b.head.userId = 0 ∨ b.head.userId = uint32 data.blk.userId) ∧ ¬ b.Refuses data.item false

/-- The block is the put's user's and holds its feed. -/
def Block.HasItem (b : Block) (data : FeedItemBlockInfo) : Prop :=
  b.head.userId = uint32 data.blk.userId ∧ b.find data.item.feed ≠ none

/-- The operation takes the item of `data` from no block: it does not remove the feed from
its block, does not clear its block, and loses it on no other way. Those are a first record
of another item written over a block that is not in memory, and a flush with more dirty
blocks than fit the buffer. -/
def NodeOp.KeepsItem (data : FeedItemBlockInfo) (n : Node) : NodeOp → Prop
  | put d _ => d.blk.id = data.blk.id → d.blk.curCount = 1 →
      (n.cache data.blk.id).isSome ∨
        d.item.feed = data.item.feed ∧ uint32 d.blk.userId = uint32 data.blk.userId
  | remove blk feed depth _ fuel => feed = data.item.feed →
      ∀ delete, (removeLoop feed depth fuel n blk.id).1 ≠ .done data.blk.id delete
  | removeAll _ id _ => id ≠ data.blk.id
  | flush fileId index count => (n.dirtys fileId index count).length ≤ maxFlush
  | _ => True

/-- The item is in memory if its block is, and on disk if its block is clean. -/
structure Keeps (data : FeedItemBlockInfo) (n : Node) : Prop where
  file : data.blk.fileId ∈ n.files
  cached : ∀ b, n.cache data.blk.id = some b → b.HasItem data
  saved : n.dirty data.blk.id = false → (n.disk data.blk.id).HasItem data
  dirtyCached : n.dirty data.blk.id = true → (n.cache data.blk.id).isSome

variable {data : FeedItemBlockInfo}

/-! ## One block -/

/-- What `put` does to a block that accepts the item. -/
theorem putBlock_accepts (hc : uint32 data.blk.curCount ≤ UInt32.ofNat recordPerBlock)
    (howner : b.head.userId = 0 ∨ b.head.userId = uint32 data.blk.userId)
    (href : ¬ b.Refuses data.item overwrite) :
    (putBlock b data overwrite).1 = true ∧ (putBlock b data overwrite).2.HasItem data := by
  obtain ⟨h1, h2⟩ := curCount_ne_of_le hc
  have hu : ¬ (b.head.userId ≠ 0 ∧ b.head.userId ≠ uint32 data.blk.userId) := by
    rintro ⟨h0, hne⟩
    exact howner.elim h0 hne
  unfold putBlock
  simp only [if_neg hu, if_neg h1, if_neg h2, if_pos hc]
  rcases b.putData_cases data.blk data.item overwrite with
    ⟨hpos, hne, -⟩ | ⟨-, href', -⟩ | ⟨-, -, hroom, he⟩
  · exact absurd ⟨UInt32.pos_iff_ne_zero.mp hpos, hne.symm⟩ hu
  · exact absurd href' href
  · have hfind : ((b.setUser (uint32 data.blk.userId)).placeItem data.item overwrite hroom).find
        data.item.feed = some data.item := by
      rw [Block.find_placeItem (b := b.setUser (uint32 data.blk.userId)) href, if_pos rfl]
    rw [he]
    split
    · refine ⟨rfl, rfl, ?_⟩
      exact fun hn => Option.some_ne_none _ (hfind.symm.trans hn)
    · refine ⟨rfl, rfl, ?_⟩
      rw [hfind]
      exact Option.some_ne_none _

/-- A block that has the item refuses it. -/
theorem Block.HasItem.refuses (h : b.HasItem data) : b.Refuses data.item false :=
  Or.inr ⟨rfl, h.2⟩

/-- A put takes no item from a block. -/
theorem Block.HasItem.putBlock (h : b.HasItem data) (hu : uint32 data.blk.userId ≠ 0)
    (d : FeedItemBlockInfo) (overwrite : Bool) : (Node.putBlock b d overwrite).2.HasItem data := by
  obtain ⟨huser, hfind⟩ := h
  unfold Node.putBlock
  dsimp only
  by_cases hforeign : b.head.userId ≠ 0 ∧ b.head.userId ≠ uint32 d.blk.userId
  · rw [if_pos hforeign]
    exact ⟨huser, hfind⟩
  have hd : uint32 d.blk.userId = uint32 data.blk.userId := by
    by_contra hne
    exact hforeign ⟨huser ▸ hu, fun he => hne (he ▸ huser)⟩
  have hput : (b.putData d.blk d.item overwrite).2.HasItem data := by
    rcases b.putData_cases d.blk d.item overwrite with
      ⟨-, -, he⟩ | ⟨-, -, he⟩ | ⟨-, href, hroom, he⟩
    · rw [he]
      exact ⟨huser, hfind⟩
    · rw [he]
      exact ⟨hd, hfind⟩
    · rw [he]
      refine ⟨hd, ?_⟩
      rw [Block.find_placeItem (b := b.setUser (uint32 d.blk.userId)) href]
      split
      · exact Option.some_ne_none _
      · exact hfind
  rw [if_neg hforeign]
  split
  · exact ⟨huser, hfind⟩
  split
  · exact ⟨huser, hfind⟩
  have hr : (if uint32 d.blk.curCount ≤ UInt32.ofNat recordPerBlock then
      b.putData d.blk d.item overwrite else (false, b)).2.HasItem data := by
    split
    · exact hput
    · exact ⟨huser, hfind⟩
  split
  · exact ⟨hr.1, hr.2⟩
  · exact hr

/-- A removal of another feed takes the item from no block. -/
theorem Block.HasItem.remove (h : b.HasItem data) {feed : ℤ} (hne : feed ≠ data.item.feed) :
    (b.remove feed).2.HasItem data := by
  refine ⟨h.1, ?_⟩
  rw [Block.find_remove, if_neg (Ne.symm hne)]
  exact h.2

theorem Block.HasItem.pointer {b' : Block} (h : b.HasItem data) (hp : PointerWrite b b') :
    b'.HasItem data := by
  obtain ⟨id, rfl | rfl⟩ := hp
  · exact h
  · exact h

/-- A block with an owner is loaded as it was saved. -/
theorem Block.HasItem.reload (h : b.HasItem data) (hu : uint32 data.blk.userId ≠ 0) :
    b.reload.HasItem data := by
  rw [Block.reload_of_userId (h.1 ▸ hu)]
  exact h

/-! ## One operation -/

/-- A block that is not in memory is clean, so the item is on disk. -/
theorem Keeps.onDisk (h : Keeps data n) (hnone : n.cache data.blk.id = none) :
    (n.disk data.blk.id).HasItem data := by
  refine h.saved ?_
  by_contra hd
  have hsome := h.dirtyCached (by simpa using hd)
  rw [hnone] at hsome
  cases hsome

theorem Keeps.view (h : Keeps data n) (hu : uint32 data.blk.userId ≠ 0) :
    (n.view data.blk.id).HasItem data := by
  unfold Node.view
  cases hc : n.cache data.blk.id with
  | none => exact (h.onDisk hc).reload hu
  | some b => exact h.cached b hc

/-- A write that leaves the item in its block. -/
theorem Keeps.store (h : Keeps data n) (id : BlockId) (hb : id = data.blk.id → b.HasItem data) :
    Keeps data (n.store id b) where
  file := h.file
  cached b' hb' := by
    by_cases hid : data.blk.id = id
    · subst hid
      rw [store_cache_self] at hb'
      cases hb'
      exact hb rfl
    · rw [store_cache_ne _ _ hid] at hb'
      exact h.cached b' hb'
  saved := h.saved
  dirtyCached hd := by
    by_cases hid : data.blk.id = id
    · rw [hid, store_cache_self]
      rfl
    · rw [store_cache_ne _ _ hid]
      exact h.dirtyCached hd

theorem Keeps.setDirty (h : Keeps data n) (hcached : (n.cache id).isSome) :
    Keeps data (n.setDirty id) where
  file := h.file
  cached := h.cached
  saved hclean := by
    by_cases hid : data.blk.id = id
    · rw [hid, setDirty_dirty_self] at hclean
      cases hclean
    · rw [setDirty_dirty_ne _ hid] at hclean
      exact h.saved hclean
  dirtyCached hd := by
    by_cases hid : data.blk.id = id
    · rw [hid]
      exact hcached
    · rw [setDirty_dirty_ne _ hid] at hd
      exact h.dirtyCached hd

theorem Keeps.files (h : Keeps data n) {files : List ℤ} (hsub : n.files ⊆ files) :
    Keeps data { n with files := files } :=
  ⟨hsub h.file, h.cached, h.saved, h.dirtyCached⟩

/-- Every change made through `Writes` that leaves the item in its block. -/
theorem Keeps.writes {W : BlockId → Block → Block → Prop} {n' : Node} (h : Keeps data n)
    (hu : uint32 data.blk.userId ≠ 0)
    (hW : ∀ b b', W data.blk.id b b' → b.HasItem data → b'.HasItem data) (hw : Writes W n n') :
    Keeps data n' := by
  induction hw with
  | refl => exact h
  | files files hsub _ ih => exact ih.files hsub
  | log log _ ih => exact ⟨ih.file, ih.cached, ih.saved, ih.dirtyCached⟩
  | load id _ hnone ih =>
      refine ih.store id fun hid => ?_
      subst hid
      exact (ih.onDisk hnone).reload hu
  | write id b b' _ hb hw ih =>
      have hstore := ih.store id (b := b') fun hid => by
        subst hid
        exact hW b b' hw (ih.cached b hb)
      exact hstore.setDirty (by rw [store_cache_self]; rfl)

/-- A put of another record keeps the item. -/
theorem Keeps.put (h : Keeps data n) (hu : uint32 data.blk.userId ≠ 0) {d : FeedItemBlockInfo}
    (hk : (NodeOp.put d overwrite).KeepsItem data n) : Keeps data (n.put d overwrite) := by
  rcases put_cases n d overwrite with he | ⟨files, -, hfiles, he⟩
  · rw [he]
    exact h
  have hblock : d.blk.id = data.blk.id →
      (Node.putBlock (n.content d.blk.id (d.blk.curCount ≠ 1)) d overwrite).2.HasItem data := by
    intro hid
    rw [hid]
    by_cases hblank : n.cache data.blk.id = none ∧ d.blk.curCount = 1
    · -- the block is written over, but with this very item
      obtain ⟨hnone, h1⟩ := hblank
      have hcontent : n.content data.blk.id (d.blk.curCount ≠ 1) = Block.init := by
        simp [Node.content, hnone, h1]
      rcases hk hid h1 with hsome | ⟨hfeed, huser⟩
      · rw [hnone] at hsome
        cases hsome
      · have hacc := putBlock_init h1 overwrite
        rw [hcontent]
        refine ⟨?_, ?_⟩
        · unfold Node.putBlock
          simp only [h1, ← huser]
          rfl
        · unfold Node.putBlock
          simp only [h1]
          show lookup FeedItem.feed data.item.feed [d.item] ≠ none
          rw [lookup_cons, if_pos hfeed]
          exact Option.some_ne_none _
    · rw [content_of_not_blank fun hnone h1 => hblank ⟨hnone, h1⟩]
      exact (h.view hu).putBlock hu d overwrite
  have hstore := (h.files (locateFile_subset hfiles).1).store d.blk.id hblock
  rw [he]
  dsimp only
  split
  · exact hstore.setDirty (by rw [store_cache_self]; rfl)
  · exact hstore

theorem Keeps.removeAll (h : Keeps data n) (hu : uint32 data.blk.userId ≠ 0) {userId : ℤ}
    {log : Bool} (hid : id ≠ data.blk.id) : Keeps data (n.removeAll userId id log) := by
  have hfalse : ∀ b b' : Block, False → b.HasItem data → b'.HasItem data := fun _ _ hf _ => hf.elim
  unfold Node.removeAll
  cases hf : n.find id true with
  | none => exact h
  | some r =>
      obtain ⟨b, n'⟩ := r
      have hfound := h.writes (W := fun _ _ _ => False) hu hfalse (writes_find hf).1
      refine Keeps.store ?_ id fun he => absurd he hid
      cases log with
      | false => exact hfound
      | true => exact hfound.writes (W := fun _ _ _ => False) hu hfalse (writes_logTo _ _)

theorem Keeps.flush (h : Keeps data n) {fileId : ℤ} {index count : ℕ}
    (hlen : (n.dirtys fileId index count).length ≤ maxFlush) :
    Keeps data (n.flush fileId index count) where
  file := h.file
  cached := h.cached
  saved hclean := by
    show (if data.blk.id ∈ n.dirtys fileId index count ∧ _ then
      (n.cache data.blk.id).getD (n.disk data.blk.id) else n.disk data.blk.id).HasItem data
    by_cases hid : data.blk.id ∈ n.dirtys fileId index count
    · obtain ⟨b, hb⟩ := mem_dirtys hid
      rw [if_pos ⟨hid, hlen⟩, hb]
      exact h.cached b hb
    · rw [if_neg fun hc => hid hc.1]
      exact h.saved (by simpa [Node.flush, hid] using hclean)
  dirtyCached hd := by
    simp only [Node.flush, Bool.and_eq_true] at hd
    exact h.dirtyCached hd.1

theorem Keeps.evict (h : Keeps data n) (ids : List BlockId) :
    Keeps data (n.evict ids) where
  file := h.file
  cached b hb := by
    simp only [Node.evict] at hb
    split at hb
    · cases hb
    · exact h.cached b hb
  saved := h.saved
  dirtyCached hd := by
    have hd' : n.dirty data.blk.id = true := hd
    simp only [Node.evict, hd', Bool.true_eq_false, and_false, if_false]
    exact h.dirtyCached hd'

/-- **The step lemma.** -/
theorem Keeps.step (h : Keeps data n) (hu : uint32 data.blk.userId ≠ 0) {op : NodeOp}
    (hk : op.KeepsItem data n) : Keeps data (op.step n) := by
  have hfalse : ∀ b b' : Block, False → b.HasItem data → b'.HasItem data := fun _ _ hf _ => hf.elim
  cases op with
  | put d overwrite => exact h.put hu hk
  | remove blk feed depth log fuel =>
      -- the block the feed is taken from is another one, or the feed is another one
      refine h.writes (W := fun id b b' => PointerWrite b b' ∨
        b' = (b.remove feed).2 ∧ (id = data.blk.id → feed ≠ data.item.feed)) hu ?_
        (writes_remove n blk log (fun id b delete hdone _ => ?_) fun _ _ _ hp => Or.inl hp)
      · rintro b b' (hp | ⟨rfl, hne⟩) hb
        · exact hb.pointer hp
        · exact hb.remove (hne rfl)
      · refine Or.inr ⟨rfl, fun hid hfeed => ?_⟩
        exact hk hfeed delete (hid ▸ hdone)
  | removeAll userId id log => exact h.removeAll hu hk
  | locate id => exact h.writes (W := fun _ _ _ => False) hu hfalse (writes_touch n id)
  | locateFrom id =>
      unfold NodeOp.step Node.locateFrom
      dsimp only
      split
      · exact h
      · rename_i hnot
        refine h.store id fun hid => ?_
        subst hid
        refine h.onDisk ?_
        simpa using fun hs => hnot (Or.inl hs)
  | flush fileId index count => exact h.flush hk
  | evict ids => exact h.evict ids

/-! ## The second delivery -/

/-- The block that accepted the item has it, in memory and dirty. -/
theorem Keeps.of_accepts (h : n.Accepts data) : Keeps data (n.put data false) := by
  obtain ⟨hc, b, n', hf, howner, href⟩ := h
  obtain ⟨hset, hitem⟩ := putBlock_accepts hc howner href
  obtain ⟨-, -, files, hfiles, rfl⟩ := find_some hf
  have hput : n.put data false = ((({ n with files := files } : Node).store data.blk.id
      (Node.putBlock b data false).2).setDirty data.blk.id) := by
    unfold Node.put
    simp only [hf, hset, if_true, store_store]
  rw [hput]
  refine ⟨(locateFile_subset hfiles).2, fun b' hb' => ?_, fun hclean => ?_, fun _ => ?_⟩
  · rw [setDirty_cache, store_cache_self] at hb'
    cases hb'
    exact hitem
  · rw [setDirty_dirty_self] at hclean
    cases hclean
  · rw [setDirty_cache, store_cache_self]
    rfl

/-- What a first record leaves of a block that was not loaded. -/
theorem putBlock_init_seen (h : data.blk.curCount = 1) :
    (Node.putBlock Block.init data false).2.seen =
      (uint32 data.blk.userId, [data.item], data.blk.preId) := by
  unfold Node.putBlock
  simp only [h]
  rfl

/-- A refused put of the owner leaves its block as it shows. -/
theorem putBlock_seen (h : b.HasItem data)
    (hc : uint32 data.blk.curCount ≤ UInt32.ofNat recordPerBlock)
    (hpre : data.blk.curCount = 1 → b.pre = data.blk.preId) :
    (Node.putBlock b data false).2.seen = b.seen := by
  obtain ⟨h1, h2⟩ := curCount_ne_of_le hc
  have hu : ¬ (b.head.userId ≠ 0 ∧ b.head.userId ≠ uint32 data.blk.userId) := fun hn => hn.2 h.1
  unfold Node.putBlock
  simp only [if_neg hu, if_neg h1, if_neg h2, if_pos hc]
  rcases b.putData_cases data.blk data.item false with
    ⟨-, hne, -⟩ | ⟨-, -, he⟩ | ⟨-, href, -⟩
  · exact absurd h.1.symm hne
  · rw [he, ← h.1, Block.setUser_self]
    split
    · rename_i hone
      have hp := hpre hone
      simp only [Block.seen, Block.pre, Block.setPre_userId, Block.setPre_items] at hp ⊢
      rw [hp]
      rfl
    · rfl
  · exact absurd h.refuses href

/-- **A put that was accepted and whose item no operation since took away changes no get
when it is delivered again, if it is no first record, or the pre pointer of its block is
still its own and the block is in memory or holds nothing else.** -/
theorem redelivery_harmless (files : List ℤ) (disk : BlockId → Block)
    (log logOld : ℤ → List FeedItemBlockInfo) (ops₁ ops₂ : List NodeOp) (data : FeedItemBlockInfo)
    (hu : uint32 data.blk.userId ≠ 0)
    (happlied : (runOps NodeOp.step (.started files disk log logOld) ops₁).Accepts data)
    (hops : StepsMeet NodeOp.step (NodeOp.KeepsItem data)
      ((runOps NodeOp.step (.started files disk log logOld) ops₁).put data false) ops₂)
    (hfirst : data.blk.curCount = 1 →
      let n := runOps NodeOp.step (.started files disk log logOld)
        (ops₁ ++ .put data false :: ops₂)
      (n.view data.blk.id).pre = data.blk.preId ∧
        ((n.cache data.blk.id).isSome ∨ (n.view data.blk.id).items = [data.item])) :
    let n := runOps NodeOp.step (.started files disk log logOld) (ops₁ ++ .put data false :: ops₂)
    ∀ blk count fuel, (n.put data false).get blk count fuel = n.get blk count fuel := by
  have hkeeps : Keeps data (runOps NodeOp.step (.started files disk log logOld)
      (ops₁ ++ .put data false :: ops₂)) := by
    rw [runOps_append, runOps_cons]
    exact run_invariant (fun _ _ h hk => h.step hu hk) (Keeps.of_accepts happlied) hops
  generalize runOps NodeOp.step (.started files disk log logOld)
    (ops₁ ++ .put data false :: ops₂) = n at hkeeps hfirst ⊢
  intro n blk count fuel
  rcases put_cases n data false with he | ⟨files', -, hfiles', he⟩
  · rw [he]
  rw [locateFile_of_mem hkeeps.file, Option.some_inj] at hfiles'
  subst hfiles'
  have hview : (Node.putBlock (n.content data.blk.id (data.blk.curCount ≠ 1)) data false).2.seen =
      (n.view data.blk.id).seen := by
    by_cases hblank : n.cache data.blk.id = none ∧ data.blk.curCount = 1
    · obtain ⟨hnone, h1⟩ := hblank
      obtain ⟨hpre, hsole⟩ := hfirst h1
      rw [hnone] at hsole
      have hitems := hsole.resolve_left (by simp)
      have hcontent : n.content data.blk.id (data.blk.curCount ≠ 1) = Block.init := by
        simp [Node.content, hnone, h1]
      rw [hcontent, putBlock_init_seen h1]
      rw [Block.seen, hpre, hitems, (hkeeps.view hu).1]
    · rw [content_of_not_blank fun hnone h1 => hblank ⟨hnone, h1⟩]
      exact putBlock_seen (hkeeps.view hu) happlied.1 fun h1 => (hfirst h1).1
  refine get_congr ?_ (fun id => ?_) blk count fuel
  · rw [he]
    dsimp only
    split <;> rfl
  · have hput : (n.put data false).view = (n.store data.blk.id
        (Node.putBlock (n.content data.blk.id (data.blk.curCount ≠ 1)) data false).2).view := by
      rw [he]
      dsimp only
      split <;> rfl
    rw [hput]
    by_cases hid : id = data.blk.id
    · rw [hid, view_store_self, hview]
    · rw [view_store_ne _ _ hid]

/-- The second record of a block, delivered again after a flush and an eviction. -/
theorem redelivery_harmless_second :
    let put₁ : FeedItemBlockInfo := ⟨⟨5, 0, 0, 0, 0, 0⟩, ⟨0, 7, 1, 1, 1, 0, 0, -1, 0⟩⟩
    let put₂ : FeedItemBlockInfo := ⟨⟨6, 0, 0, 0, 0, 0⟩, ⟨0, 7, 2, 2, 1, 0, 0, -1, 0⟩⟩
    let n := runOps NodeOp.step (.started [] (fun _ => .zeroed) (fun _ => []) fun _ => [])
      ([.put put₁ false] ++ .put put₂ false :: [.flush 1 0 4, .evict [⟨1, 0⟩]])
    ∀ blk count fuel, (n.put put₂ false).get blk count fuel = n.get blk count fuel :=
  redelivery_harmless [] (fun _ => .zeroed) (fun _ => []) (fun _ => []) _ _ _ (by decide)
    ⟨by decide, _, _, rfl, by decide, by decide⟩
    ⟨(by decide : (Node.dirtys _ 1 0 4).length ≤ maxFlush), trivial, trivial⟩ (by decide)

/-- The first record of a block, delivered again after the block got a second record and
was flushed and evicted: the second record is gone. -/
theorem redelivery_of_first_record :
    let put₁ : FeedItemBlockInfo := ⟨⟨5, 0, 0, 0, 0, 0⟩, ⟨0, 7, 1, 1, 1, 0, 0, -1, 0⟩⟩
    let put₂ : FeedItemBlockInfo := ⟨⟨6, 0, 0, 0, 0, 0⟩, ⟨0, 7, 2, 2, 1, 0, 0, -1, 0⟩⟩
    let n := runOps NodeOp.step (.started [] (fun _ => .zeroed) (fun _ => []) fun _ => [])
      [.put put₁ false, .put put₂ false, .flush 1 0 4, .evict [⟨1, 0⟩]]
    n.get put₁.blk 10 2 = some [put₂.item, put₁.item] ∧
      (n.put put₁ false).get put₁.blk 10 2 = some [put₁.item] := by
  decide

end Oce.FeedDB
