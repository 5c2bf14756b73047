import Oce.Base.Chain
import Oce.FeedDB.Analysis.DirtyBit
import Oce.FeedDB.Analysis.RestoreSteps

/-!
# A user's chain on a data node

`Node.Holds` says that a node holds a chain of blocks of one user: every block can be
located and belongs to the user, and the blocks are linked both ways. On such a chain
`get` reads the items of the blocks in a row (`Holds.get`), the first record of a new block
pushes it (`Holds.pushed`), later ones change its items only, and a removal takes the feed
from the first block that has it, which leaves the chain if it is empty and not the newest
(`Holds.removed`).

The pointer updates are described by what they do to the blocks a reader finds; the rules
for the links are those of `Chain`.
-/

set_option autoImplicit false

namespace Oce.FeedDB

open Function Oce.Base

variable {id start : BlockId} {owner : UInt32} {after : Option BlockId} {chain : List BlockId}
  {fuel : ℕ} {data : FeedItemBlockInfo} {b : Block} {m : Node} {files : List ℤ} {garbage : ℤ}

/-- The block a pointer names, if any. -/
def BlockId.ptr (id : BlockId) : Option BlockId := if id.isNone then Option.none else some id

theorem BlockId.ptr_of_not_none (h : id.isNone = false) : id.ptr = some id := by
  unfold BlockId.ptr
  rw [h]
  rfl

theorem BlockId.ptr_eq_none (h : id.ptr = Option.none) : id.isNone = true := by
  unfold BlockId.ptr at h
  by_contra hne
  rw [if_neg hne] at h
  cases h

theorem BlockId.ptr_eq_some {a : BlockId} (h : id.ptr = some a) : id = a ∧ id.isNone = false := by
  unfold BlockId.ptr at h
  by_cases hid : id.isNone
  · rw [if_pos hid] at h
    cases h
  · rw [if_neg hid] at h
    exact ⟨Option.some.inj h, by simpa using hid⟩

theorem BlockId.ptr_ne_none_iff {id : BlockId} :
    id.ptr ≠ Option.none ↔ id.fileId ≠ 0 ∧ id.blockIndex ≠ -1 := by
  unfold BlockId.ptr BlockId.isNone
  by_cases h : id.fileId = 0 ∨ id.blockIndex = -1
  · simp only [h, decide_true, if_true, ne_eq, not_true_eq_false, false_iff]
    tauto
  · simp only [h, decide_false, Bool.false_eq_true, if_false, ne_eq, reduceCtorEq,
      not_false_eq_true, true_iff]
    tauto

@[simp] theorem BlockId.ptr_none : BlockId.none.ptr = Option.none := rfl

namespace Node

variable {n n' : Node} {id target : BlockId} {userId : ℤ}

/-- The block before a block. -/
def preOf (n : Node) (id : BlockId) : Option BlockId := (n.view id).pre.ptr

/-- The block after a block. -/
def nextOf (n : Node) (id : BlockId) : Option BlockId := (n.view id).next.ptr

/-- The items of each block of a chain. -/
def itemsOf (n : Node) (chain : List BlockId) : List (List FeedItem) :=
  chain.map fun id => (n.view id).items

/-- The block can be located without making a file, and is the owner's. -/
structure Owns (n : Node) (owner : UInt32) (id : BlockId) : Prop where
  named : id.isNone = false
  inFile : InFile id
  file : id.fileId ∈ n.files
  user : (n.view id).head.userId = owner

/-- The node holds the blocks, newest first, as a chain of the owner. -/
structure Holds (n : Node) (owner : UInt32) (chain : List BlockId) : Prop where
  owns : ∀ id ∈ chain, n.Owns owner id
  nodup : chain.Nodup
  linked : Chain n.preOf n.nextOf Option.none Option.none chain

/-! ## Reading -/

theorem view_store_view (n : Node) (id : BlockId) : (n.store id (n.view id)).view = n.view := by
  funext id'
  by_cases hid : id' = id
  · rw [hid, view_store_self]
  · rw [view_store_ne _ _ hid]

theorem Owns.of_view (h : n.Owns owner id) (hv : n'.view id = n.view id)
    (hfiles : n.files ⊆ n'.files) : n'.Owns owner id :=
  ⟨h.named, h.inFile, hfiles h.file, by rw [hv, h.user]⟩

theorem Owns.find (h : n.Owns owner id) :
    n.find id true = some (n.view id, n.store id (n.view id)) := by
  rw [find_located h.file h.inFile, content_load]

theorem preOf_of_view (hv : n'.view = n.view) : n'.preOf = n.preOf := by
  unfold preOf
  rw [hv]

theorem nextOf_of_view (hv : n'.view = n.view) : n'.nextOf = n.nextOf := by
  unfold nextOf
  rw [hv]

/-- Once a block of a chain is loaded, the older ones stand as they did, from its `pre` on. -/
theorem chain_loaded (howns : ∀ id ∈ start :: chain, n.Owns owner id)
    (hlinked : Chain n.preOf n.nextOf after Option.none (start :: chain)) :
    n.preOf start = chain.head? ∧
      Chain (n.store start (n.view start)).preOf (n.store start (n.view start)).nextOf (some start)
        Option.none chain ∧ ∀ id ∈ chain, (n.store start (n.view start)).Owns owner id := by
  have hview := view_store_view n start
  obtain ⟨-, hpre, hrest⟩ := chain_cons.mp hlinked
  rw [Option.or_none] at hpre
  refine ⟨hpre, ?_, fun id hid => ?_⟩
  · rw [preOf_of_view hview, nextOf_of_view hview]
    exact hrest
  · exact (howns id (List.mem_cons_of_mem _ hid)).of_view (by rw [hview]) (List.Subset.refl _)

/-- **The loop of `get` over the rest of a chain.** -/
theorem getLoop_chain (howns : ∀ id ∈ chain, n.Owns (uint32 userId) id)
    (hlinked : Chain n.preOf n.nextOf after Option.none chain) (hstart : start.ptr = chain.head?)
    (hfuel : chain.length < fuel) (count : ℕ) :
    getLoop userId fuel n start count = some ((n.itemsOf chain).flatten.take count) := by
  induction chain generalizing n start fuel count after with
  | nil =>
      obtain ⟨fuel, rfl⟩ : ∃ k, fuel = k + 1 := ⟨fuel - 1, by simp at hfuel; omega⟩
      unfold getLoop
      rw [if_pos (Or.inr (BlockId.ptr_eq_none hstart))]
      simp [itemsOf]
  | cons id chain ih =>
      obtain ⟨fuel, rfl⟩ : ∃ k, fuel = k + 1 := ⟨fuel - 1, by omega⟩
      obtain ⟨rfl, hnamed⟩ := BlockId.ptr_eq_some hstart
      have hown := howns start List.mem_cons_self
      unfold getLoop
      by_cases hcount : count = 0
      · rw [if_pos (Or.inl hcount), hcount, List.take_zero]
      have hgo : ¬ (count = 0 ∨ start.isNone = true) := by
        rintro (h | h)
        · exact hcount h
        · rw [hnamed] at h
          cases h
      have huser : ¬ (userId ≠ 0 ∧ (n.view start).head.userId ≠ uint32 userId) :=
        fun h => h.2 hown.user
      rw [if_neg hgo, hown.find]
      simp only [if_neg huser]
      have hview := view_store_view n start
      obtain ⟨hpre, hrest, howns'⟩ := chain_loaded howns hlinked
      have hlen : chain.length < fuel := by
        simp only [List.length_cons] at hfuel
        omega
      have hloop := ih howns' hrest hpre hlen (count - ((n.view start).getData count).length)
      rw [hloop]
      have hitems : (n.store start (n.view start)).itemsOf chain = n.itemsOf chain := by
        unfold itemsOf
        rw [hview]
      rw [hitems, Option.map_some, Block.getData]
      congr 1
      show _ = ((n.view start).items ++ (n.itemsOf chain).flatten).take count
      rw [List.take_append, List.length_take]
      congr 2
      omega

/-- **`get` from the newest block ends, and returns the first items of the chain.** -/
theorem Holds.get (h : n.Holds (uint32 userId) chain) (blk : BlockInfo)
    (huser : blk.userId = userId) (hstart : blk.id.ptr = chain.head?)
    (hfuel : chain.length < fuel) (count : ℕ) :
    n.get blk count fuel = some ((n.itemsOf chain).flatten.take count) := by
  unfold Node.get
  rw [huser]
  exact getLoop_chain h.owns h.linked hstart hfuel count

theorem itemsOf_of_view (hv : n'.view = n.view) (chain : List BlockId) :
    n'.itemsOf chain = n.itemsOf chain := by
  unfold itemsOf
  rw [hv]

theorem itemsOf_append (n : Node) (xs ys : List BlockId) :
    n.itemsOf (xs ++ ys) = n.itemsOf xs ++ n.itemsOf ys := List.map_append ..

theorem itemsOf_congr (h : ∀ id ∈ chain, (n'.view id).items = (n.view id).items) :
    n'.itemsOf chain = n.itemsOf chain := List.map_congr_left h

/-- A chain whose blocks changed neither owner nor pointers. -/
theorem Holds.of_same (h : n.Holds owner chain) (hfiles : n.files ⊆ n'.files)
    (huser : ∀ c ∈ chain, (n'.view c).head.userId = (n.view c).head.userId)
    (hlinks : ∀ c ∈ chain, n'.preOf c = n.preOf c ∧ n'.nextOf c = n.nextOf c) :
    n'.Holds owner chain where
  owns c hc :=
    have ho := h.owns c hc
    ⟨ho.named, ho.inFile, hfiles ho.file, by rw [huser c hc, ho.user]⟩
  nodup := h.nodup
  linked := h.linked.congr hlinks

/-! ## One write -/

/-- A node in which one block changed; blocks in `S` may have been loaded. -/
structure Changes (S : BlockId → Prop) (n n' : Node) (id : BlockId) (b : Block) : Prop where
  files : n'.files = n.files
  frame : Frame S n n'
  view : n'.view = update n.view id b

theorem logTo_files (hfile : data.blk.fileId ∈ n.files) : (n.logTo data).files = n.files := by
  unfold logTo locateDataFile
  rw [locateFile_of_mem hfile]
  rfl

theorem put_files (hfile : data.blk.fileId ∈ n.files) (overwrite : Bool) :
    (n.put data overwrite).files = n.files := by
  rcases put_cases n data overwrite with he | ⟨files, -, hfiles, he⟩
  · rw [he]
  · rw [locateFile_of_mem hfile] at hfiles
    obtain rfl := Option.some.inj hfiles
    rw [he]
    dsimp only
    split <;> rfl

/-- The view after a change of one block's cache. -/
theorem view_of_frame (hframe : Frame (· = id) n n') (hb : n'.cache id = some b) :
    n'.view = update n.view id b := by
  funext id'
  by_cases hid : id' = id
  · rw [hid, update_self, view_of_cache hb]
  · rw [update_of_ne hid, hframe.view hid]

/-- A put into a block that can be located and is not blanked. -/
theorem changes_put {data : FeedItemBlockInfo} (hin : InFile data.blk.id)
    (hfile : data.blk.fileId ∈ n.files) (h1 : data.blk.curCount ≠ 1) (overwrite : Bool) :
    Changes (· = data.blk.id) n (n.put data overwrite) data.blk.id
      (putBlock (n.view data.blk.id) data overwrite).2 := by
  have hframe := frame_put n data overwrite
  have hcache := put_located hfile hin overwrite
  rw [content_of_not_blank fun _ => h1] at hcache
  exact ⟨put_files hfile overwrite, hframe, view_of_frame hframe hcache⟩

/-- A pointer record changes one pointer of one block. -/
theorem changes_pointer {c : ℤ} (hc : c = -1 ∨ c = -2)
    (h : n.Owns (uint32 userId) id) :
    Changes (· = id) n ((n.logTo (specialRecord 0 userId c id target)).put
        (specialRecord 0 userId c id target) false) id
      (if c = -1 then (n.view id).setPre target.fileId target.blockIndex
        else (n.view id).setNext target.fileId target.blockIndex) := by
  have hfile : (specialRecord 0 userId c id target).blk.fileId ∈
      (n.logTo (specialRecord 0 userId c id target)).files := by
    rw [logTo_files h.file]
    exact h.file
  have hne : (specialRecord 0 userId c id target).blk.curCount ≠ 1 := by
    rcases hc with rfl | rfl <;> simp [specialRecord]
  have hput := @changes_put (n.logTo (specialRecord 0 userId c id target))
    (specialRecord 0 userId c id target) h.inFile hfile hne false
  have hid : (specialRecord 0 userId c id target).blk.id = id := rfl
  rw [logTo_view, hid] at hput
  have hblock : (putBlock (n.view id) (specialRecord 0 userId c id target) false).2 =
      if c = -1 then (n.view id).setPre target.fileId target.blockIndex
        else (n.view id).setNext target.fileId target.blockIndex := by
    have hu : ¬ ((n.view id).head.userId ≠ 0 ∧ (n.view id).head.userId ≠ uint32 userId) :=
      fun hu => hu.2 h.user
    unfold putBlock
    dsimp only [specialRecord]
    rw [if_neg hu]
    rcases hc with rfl | rfl <;> simp
  rw [hblock] at hput
  refine ⟨hput.files.trans (logTo_files h.file), (frame_logTo n _).trans hput.frame, ?_⟩
  rw [hput.view, logTo_view]

theorem changes_changePrePtr (h : n.Owns (uint32 userId) id) (target : BlockId) :
    Changes (· = id) n (n.changePrePtr userId id target) id
      ((n.view id).setPre target.fileId target.blockIndex) := by
  unfold changePrePtr
  rw [h.named]
  exact changes_pointer (Or.inl rfl) h

theorem changes_changeNextPtr (h : n.Owns (uint32 userId) id) (target : BlockId) :
    Changes (· = id) n (n.changeNextPtr userId id target) id
      ((n.view id).setNext target.fileId target.blockIndex) := by
  unfold changeNextPtr
  rw [h.named]
  exact changes_pointer (Or.inr rfl) h

/-! ## Pointers -/

/-- A node whose blocks in `S` may have other pointers. -/
structure Relinks (S : BlockId → Prop) (n n' : Node) (pre next : BlockId → Option BlockId) :
    Prop where
  files : n'.files = n.files
  frame : Frame S n n'
  pre : n'.preOf = pre
  next : n'.nextOf = next
  user : ∀ c, (n'.view c).head.userId = (n.view c).head.userId
  items : ∀ c, (n'.view c).items = (n.view c).items

variable {S T : BlockId → Prop} {pre next pre' next' : BlockId → Option BlockId}

theorem Relinks.refl (S : BlockId → Prop) (n : Node) : Relinks S n n n.preOf n.nextOf :=
  ⟨rfl, .refl S n, rfl, rfl, fun _ => rfl, fun _ => rfl⟩

theorem Relinks.trans {n'' : Node} (h : Relinks S n n' pre next)
    (h' : Relinks S n' n'' pre' next') : Relinks S n n'' pre' next' :=
  ⟨h'.files.trans h.files, h.frame.trans h'.frame, h'.pre, h'.next,
    fun c => (h'.user c).trans (h.user c), fun c => (h'.items c).trans (h.items c)⟩

theorem Relinks.mono (hST : ∀ id, S id → T id) (h : Relinks S n n' pre next) :
    Relinks T n n' pre next :=
  { h with frame := h.frame.mono hST }

theorem Relinks.owns (h : Relinks S n n' pre next) (ho : n.Owns owner id) : n'.Owns owner id :=
  ⟨ho.named, ho.inFile, by rw [h.files]; exact ho.file, by rw [h.user, ho.user]⟩

/-- What a change does to anything a block shows. -/
theorem Changes.map {α : Type*} (h : Changes S n n' id b) (f : Block → α) :
    (fun c => f (n'.view c)) = update (fun c => f (n.view c)) id (f b) := by
  funext c
  rw [h.view]
  by_cases hc : c = id
  · rw [hc, update_self, update_self]
  · rw [update_of_ne hc, update_of_ne hc]

theorem Changes.map_eq {α : Type*} (h : Changes S n n' id b) (f : Block → α)
    (hf : f b = f (n.view id)) : (fun c => f (n'.view c)) = fun c => f (n.view c) := by
  rw [h.map f, hf, update_eq_self_iff]

/-- The pre pointer is linked. -/
theorem relinks_changePrePtr (h : n.Owns (uint32 userId) id) (target : BlockId) :
    Relinks (· = id) n (n.changePrePtr userId id target)
      (update n.preOf id target.ptr) n.nextOf :=
  have hc := changes_changePrePtr h target
  ⟨hc.files, hc.frame, hc.map fun b => b.pre.ptr, hc.map_eq (fun b => b.next.ptr) rfl,
    congrFun (hc.map_eq (fun b => b.head.userId) rfl),
    congrFun (hc.map_eq (fun b => b.items) rfl)⟩

/-- The next pointer is linked. -/
theorem relinks_changeNextPtr (h : n.Owns (uint32 userId) id) (target : BlockId) :
    Relinks (· = id) n (n.changeNextPtr userId id target)
      n.preOf (update n.nextOf id target.ptr) :=
  have hc := changes_changeNextPtr h target
  ⟨hc.files, hc.frame, hc.map_eq (fun b => b.pre.ptr) rfl, hc.map fun b => b.next.ptr,
    congrFun (hc.map_eq (fun b => b.head.userId) rfl),
    congrFun (hc.map_eq (fun b => b.items) rfl)⟩

/-- The block before another one gets its pointer to the block after it; there may be none. -/
theorem relinks_changeNextPtr_ptr (h : ∀ c ∈ id.ptr, n.Owns (uint32 userId) c)
    (target : BlockId) :
    Relinks (fun c => id.ptr = some c) n (n.changeNextPtr userId id target) n.preOf
      (fun c => if id.ptr = some c then target.ptr else n.nextOf c) := by
  cases hptr : id.ptr with
  | none =>
      have hsame : n.changeNextPtr userId id target = n := by
        unfold changeNextPtr
        rw [if_pos (BlockId.ptr_eq_none hptr)]
      rw [hsame]
      exact .refl _ n
  | some c =>
      obtain ⟨rfl, hid⟩ := BlockId.ptr_eq_some hptr
      have hlink := relinks_changeNextPtr (h id hptr) target
      have hnext : update n.nextOf id target.ptr =
          fun c => if some id = some c then target.ptr else n.nextOf c := by
        funext c
        by_cases hc : c = id
        · subst hc
          rw [update_self, if_pos rfl]
        · rw [update_of_ne hc, if_neg fun he => hc (Option.some.inj he).symm]
      rw [← hnext]
      exact hlink.mono fun c hc => congrArg some hc.symm

/-- An emptied block that another one follows leaves its chain: its neighbours are linked
to each other and its own pointers cleared. SOURCE: Cache.cpp:444-476 -/
theorem relinks_deleteBlock (h : n.Owns owner id) {b : BlockId} (hnext : n.nextOf id = some b)
    (hb : n.Owns owner b) (hpre : ∀ c ∈ n.preOf id, n.Owns owner c) :
    Relinks (fun c => c = id ∨ c = b ∨ n.preOf id = some c) n (n.deleteBlock id true)
      (update (update n.preOf b (n.preOf id)) id Option.none)
      (update (fun c => if n.preOf id = some c then some b else n.nextOf c) id
        Option.none) := by
  have hu : uint32 (int32 (n.view id).head.userId) = owner := by rw [uint32_int32, h.user]
  unfold deleteBlock
  rw [h.find]
  simp only [if_true]
  obtain ⟨hb', -⟩ := BlockId.ptr_eq_some hnext
  rw [hb']
  generalize int32 (n.view id).head.userId = u at hu
  subst hu
  have hview := view_store_view n id
  have hfound : Relinks (fun c => c = id ∨ c = b ∨ n.preOf id = some c) n
      (n.store id (n.view id)) n.preOf n.nextOf :=
    ⟨rfl, (frame_store n n.files (List.Subset.refl _) id _).mono fun c hc => Or.inl hc,
      preOf_of_view hview, nextOf_of_view hview, fun c => by rw [hview], fun c => by rw [hview]⟩
  have h₁ := relinks_changePrePtr (hfound.owns hb) (n.view id).pre
  have h₁' := hfound.trans (h₁.mono fun c hc => Or.inr (Or.inl hc))
  have h₂ := relinks_changeNextPtr_ptr (fun c hc => h₁'.owns (hpre c hc)) b
  have h₂' := h₁'.trans (h₂.mono fun c hc => Or.inr (Or.inr hc))
  have h₃ := relinks_changePrePtr (h₂'.owns h) BlockId.none
  have h₃' := h₂'.trans (h₃.mono fun c hc => Or.inl hc)
  have h₄ := relinks_changeNextPtr (h₃'.owns h) BlockId.none
  have h₄' := h₃'.trans (h₄.mono fun c hc => Or.inl hc)
  rw [h₃'.pre, h₂'.pre, h₁'.pre, h₃'.next, h₂'.next, h₁'.next, hfound.pre, hfound.next,
    BlockId.ptr_of_not_none hb.named] at h₄'
  exact h₄'

/-! ## A put -/

/-- What the first record of a block leaves of a block that was not in memory. -/
theorem putBlock_init_first (h1 : data.blk.curCount = 1) :
    (putBlock Block.init data false).2.head.userId = uint32 data.blk.userId ∧
      (putBlock Block.init data false).2.items = [data.item] ∧
      (putBlock Block.init data false).2.pre = data.blk.preId ∧
      (putBlock Block.init data false).2.next = .none := by
  unfold putBlock
  simp only [h1]
  exact ⟨rfl, rfl, rfl, rfl⟩

/-- The log plays no part in what a chain holds. -/
theorem Holds.of_alike (h : n.Holds owner chain) (ha : Alike m n) : m.Holds owner chain := by
  refine h.of_same (by rw [ha.files]; exact List.Subset.refl _) (fun c _ => by rw [ha.view])
    fun c _ => ?_
  unfold preOf nextOf
  rw [ha.view]
  exact ⟨rfl, rfl⟩

theorem Frame.of_alike {S : BlockId → Prop} {m' : Node} (h : Frame S n m) (ha : Alike m' m) :
    Frame S n m' := by
  refine ⟨ha.disk.trans h.disk, ?_, fun id hid => ?_, fun id hid => ?_⟩
  · rw [ha.files]
    exact h.files
  · rw [ha.cache]
    exact h.cache id hid
  · rw [ha.cache]
    exact h.cached id hid

/-- The first record of a new block pushes the block, where the memory of its pointer record was
cleared. -/
theorem Holds.pushed_cleared (data : FeedItemBlockInfo)
    (h : n.Holds (uint32 data.blk.userId) chain) (hfeed : 0 ≤ data.item.feed)
    (h1 : data.blk.curCount = 1) (hfresh : n.cache data.blk.id = none)
    (hnew : data.blk.id ∉ chain) (hnamed : data.blk.id.isNone = false) (hin : InFile data.blk.id)
    (hfiles : locateFile n.files data.blk.fileId = some files)
    (hpre : data.blk.preId.ptr = chain.head?) (fuel : ℕ) :
    (n.asyncPut data false fuel).Holds (uint32 data.blk.userId) (data.blk.id :: chain) ∧
      (n.asyncPut data false fuel).itemsOf (data.blk.id :: chain) =
        [data.item] :: n.itemsOf chain ∧
      Frame (fun c => c = data.blk.id ∨ c ∈ chain) n (n.asyncPut data false fuel) ∧
      (n.asyncPut data false fuel).files = files := by
  obtain ⟨hsub, hmem⟩ := locateFile_subset hfiles
  have hlogFiles : (n.logTo data).files = files := by
    unfold logTo locateDataFile
    rw [hfiles]
    rfl
  have hasync : n.asyncPut data false fuel =
      ((n.logTo data).put data false).changeNextPtr data.blk.userId data.blk.preId data.blk.id := by
    rw [asyncPut_eq, if_pos h1, handleTask, if_neg (by omega)]
  rw [hasync]
  have hcontent : (n.logTo data).content data.blk.id (data.blk.curCount ≠ 1) = Block.init := by
    simp [content, hfresh, h1]
  have hfile₁ : data.blk.fileId ∈ (n.logTo data).files := by
    rw [hlogFiles]
    exact hmem
  have hcache := put_located hfile₁ hin false
  rw [hcontent] at hcache
  have hfiles₂ : ((n.logTo data).put data false).files = files := by
    rw [put_files hfile₁, hlogFiles]
  have hframe₂ : Frame (· = data.blk.id) n ((n.logTo data).put data false) :=
    (frame_logTo n data).trans (frame_put _ _ _)
  have hview₂ := view_of_frame hframe₂ hcache
  obtain ⟨huser, hitems, hpreB, hnextB⟩ := putBlock_init_first h1
  generalize (n.logTo data).put data false = n₂ at hfiles₂ hframe₂ hview₂
  generalize (putBlock Block.init data false).2 = b at hview₂ huser hitems hpreB hnextB
  have hold : ∀ c ∈ chain, n₂.view c = n.view c := by
    intro c hc
    have hne : c ≠ data.blk.id := by
      rintro rfl
      exact hnew hc
    rw [hview₂, update_of_ne hne]
  have hnewView : n₂.view data.blk.id = b := by
    rw [hview₂, update_self]
  have howns₂ : ∀ c ∈ chain, n₂.Owns (uint32 data.blk.userId) c := fun c hc =>
    (h.owns c hc).of_view (hold c hc) (by rw [hfiles₂]; exact hsub)
  have hnewOwns : n₂.Owns (uint32 data.blk.userId) data.blk.id :=
    ⟨hnamed, hin, by rw [hfiles₂]; exact hmem, by rw [hnewView, huser]⟩
  -- the block that was the newest is linked to the new one
  have hpreOwns : ∀ c ∈ data.blk.preId.ptr, n₂.Owns (uint32 data.blk.userId) c :=
    fun c hc => howns₂ c (List.mem_of_head? (hpre ▸ hc))
  have hlink := relinks_changeNextPtr_ptr hpreOwns data.blk.id
  generalize n₂.changeNextPtr data.blk.userId data.blk.preId data.blk.id = n₃ at hlink
  have hnext₃ : ∀ c, n₃.nextOf c =
      if data.blk.preId.ptr = some c then data.blk.id.ptr else n₂.nextOf c := congrFun hlink.next
  have hnotHead : data.blk.preId.ptr ≠ some data.blk.id := by
    rw [hpre]
    exact fun he => hnew (List.mem_of_head? he)
  refine ⟨⟨?_, List.nodup_cons.mpr ⟨hnew, h.nodup⟩, ?_⟩, ?_, ?_, hlink.files.trans hfiles₂⟩
  · intro c hc
    rcases List.mem_cons.mp hc with rfl | hc
    · exact hlink.owns hnewOwns
    · exact hlink.owns (howns₂ c hc)
  · refine h.linked.push h.nodup ⟨?_, ?_⟩ ?_ ?_ ?_
    · rw [hlink.pre, preOf, hnewView, hpreB, hpre, Option.or_none]
    · rw [hnext₃, if_neg hnotHead, nextOf, hnewView, hnextB]
      rfl
    · intro c hc
      rw [hlink.pre, preOf, hold c hc]
      rfl
    · intro c hc
      rw [hnext₃, if_pos (hpre.trans hc), BlockId.ptr_of_not_none hnamed]
    · intro c hc hne
      rw [hnext₃, hpre, if_neg hne, nextOf, hold c hc]
      rfl
  · have hrest : n₃.itemsOf chain = n.itemsOf chain := by
      refine itemsOf_congr fun c hc => ?_
      rw [hlink.items, hold c hc]
    have hcons : n₃.itemsOf (data.blk.id :: chain) =
        (n₃.view data.blk.id).items :: n₃.itemsOf chain := rfl
    rw [hcons, hrest, hlink.items, hnewView, hitems]
  · refine (hframe₂.mono fun c hc => Or.inl hc).trans (hlink.frame.mono fun c hc => Or.inr ?_)
    exact List.mem_of_head? (hpre.symm.trans hc)

/-- **The first record of a new block pushes the block**, as long as the feed of its pointer record
is not negative. -/
theorem Holds.pushed (data : FeedItemBlockInfo) (h : n.Holds (uint32 data.blk.userId) chain)
    (hgarbage : data.blk.preId.isNone = false → 0 ≤ garbage) (hfeed : 0 ≤ data.item.feed)
    (h1 : data.blk.curCount = 1) (hfresh : n.cache data.blk.id = none)
    (hnew : data.blk.id ∉ chain) (hnamed : data.blk.id.isNone = false) (hin : InFile data.blk.id)
    (hfiles : locateFile n.files data.blk.fileId = some files)
    (hpre : data.blk.preId.ptr = chain.head?) (fuel : ℕ) :
    (n.asyncPutWith garbage data false fuel).Holds (uint32 data.blk.userId) (data.blk.id :: chain) ∧
      (n.asyncPutWith garbage data false fuel).itemsOf (data.blk.id :: chain) =
        [data.item] :: n.itemsOf chain ∧
      Frame (fun c => c = data.blk.id ∨ c ∈ chain) n (n.asyncPutWith garbage data false fuel) ∧
      (n.asyncPutWith garbage data false fuel).files = files := by
  obtain ⟨hholds, hitems, hframe, hfiles'⟩ :=
    h.pushed_cleared data hfeed h1 hfresh hnew hnamed hin hfiles hpre fuel
  have ha := Alike.asyncPutWith n hgarbage false fuel
  refine ⟨hholds.of_alike ha, ?_, hframe.of_alike ha, ha.files.trans hfiles'⟩
  rw [← hitems]
  exact itemsOf_congr fun id _ => by rw [ha.view]

/-- What a later record of the owner leaves of a block with room. -/
theorem putBlock_owner (hu : b.head.userId = uint32 data.blk.userId)
    (hc : uint32 data.blk.curCount ≤ UInt32.ofNat recordPerBlock) (h1 : data.blk.curCount ≠ 1)
    (hroom : b.items.length ≠ recordPerBlock) :
    (putBlock b data false).2.head.userId = uint32 data.blk.userId ∧
      (putBlock b data false).2.items = insertFeed data.item b.items ∧
      (putBlock b data false).2.pre = b.pre ∧ (putBlock b data false).2.next = b.next := by
  obtain ⟨hm1, hm2⟩ := curCount_ne_of_le hc
  have howner : ¬ (b.head.userId ≠ 0 ∧ b.head.userId ≠ uint32 data.blk.userId) := fun h => h.2 hu
  have hown' : ¬ (0 < b.head.userId ∧ uint32 data.blk.userId ≠ b.head.userId) :=
    fun h => h.2 hu.symm
  have hroom' : (b.setUser (uint32 data.blk.userId)).items.length ≠ recordPerBlock := hroom
  unfold putBlock
  simp only [if_neg howner, if_neg hm1, if_neg hm2, if_pos hc, if_neg h1]
  unfold Block.putData
  rw [if_neg hown']
  simp only [dif_neg hroom']
  exact ⟨rfl, place_eq_insertFeed _ b.sorted, rfl, rfl⟩

/-- **A later record of the newest block changes the items of that block only.** -/
theorem Holds.filled (data : FeedItemBlockInfo)
    (h : n.Holds (uint32 data.blk.userId) (id :: chain)) (hid : data.blk.id = id)
    (hfeed : 0 ≤ data.item.feed) (h1 : data.blk.curCount ≠ 1)
    (hc : uint32 data.blk.curCount ≤ UInt32.ofNat recordPerBlock)
    (hroom : (n.view id).items.length ≠ recordPerBlock) (fuel : ℕ) :
    (n.asyncPutWith garbage data false fuel).Holds (uint32 data.blk.userId) (id :: chain) ∧
      (n.asyncPutWith garbage data false fuel).itemsOf (id :: chain) =
        insertFeed data.item (n.view id).items :: n.itemsOf chain ∧
      Frame (fun c => c = id) n (n.asyncPutWith garbage data false fuel) ∧
      (n.asyncPutWith garbage data false fuel).files = n.files := by
  subst hid
  have hasync : n.asyncPutWith garbage data false fuel = (n.logTo data).put data false := by
    rw [asyncPutWith, if_neg h1, handleTask, if_neg (by omega)]
  rw [hasync]
  have hown := h.owns data.blk.id List.mem_cons_self
  have hlog := logTo_files hown.file
  have hput := changes_put (n := n.logTo data) hown.inFile (by rw [hlog]; exact hown.file) h1 false
  rw [logTo_view] at hput
  obtain ⟨huser, hitems, hpre, hnext⟩ := putBlock_owner hown.user hc h1 hroom
  have hchange : Changes (· = data.blk.id) n ((n.logTo data).put data false) data.blk.id
      (putBlock (n.view data.blk.id) data false).2 :=
    ⟨hput.files.trans hlog, (frame_logTo n data).trans hput.frame, by rw [hput.view, logTo_view]⟩
  generalize (n.logTo data).put data false = n₂ at hchange
  generalize (putBlock (n.view data.blk.id) data false).2 = b at *
  have huser₂ := congrFun (hchange.map_eq (fun b => b.head.userId) (huser.trans hown.user.symm))
  have hpre₂ := congrFun (hchange.map_eq (fun b => b.pre.ptr) (congrArg BlockId.ptr hpre))
  have hnext₂ := congrFun (hchange.map_eq (fun b => b.next.ptr) (congrArg BlockId.ptr hnext))
  refine ⟨h.of_same (by rw [hchange.files]; exact List.Subset.refl _) (fun c _ => huser₂ c)
    fun c _ => ⟨hpre₂ c, hnext₂ c⟩, ?_, hchange.frame, hchange.files⟩
  have hrest : n₂.itemsOf chain = n.itemsOf chain := by
    refine itemsOf_congr fun c hc => ?_
    have hne : c ≠ data.blk.id := fun he => (List.nodup_cons.mp h.nodup).1 (he ▸ hc)
    rw [hchange.view, update_of_ne hne]
  have hcons : n₂.itemsOf (data.blk.id :: chain) =
      (n₂.view data.blk.id).items :: n₂.itemsOf chain := rfl
  rw [hcons, hrest, hchange.view, update_self, hitems]

end Node

end Oce.FeedDB
