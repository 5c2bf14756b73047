import Oce.FeedDB.Analysis.Recovery
import Oce.FeedDB.Analysis.StoreSteps

/-!
# What a replay writes to a block

`ReplayWrite` is everything a record of a log can do to one block when it is restored: a
pointer is changed, or, in the block the record names, a feed is removed, an item is put,
a first record is written over a block that is not in memory, or everything is cleared.
A replay is a chain of such writes (`restoreRecord_view`), so what each of them keeps the
replay of a log keeps, and the recovery of all files (`recoverFiles_view`).
-/

set_option autoImplicit false

namespace Oce.FeedDB

open Oce.Base Node

variable {P : Block → Prop} {n : Node} {data : FeedItemBlockInfo} {id : BlockId} {feed : ℤ}
  {records : List FeedItemBlockInfo}

/-- A write of the replay of `data` to block `id`, which was in memory or not. -/
inductive ReplayWrite (data : FeedItemBlockInfo) (loaded : Bool) (id : BlockId) (b : Block) :
    Block → Prop
  | pointer (b' : Block) (h : PointerWrite b b') : ReplayWrite data loaded id b b'
  | remove (hid : data.blk.id = id) (hfeed : data.item.feed < 0) :
      ReplayWrite data loaded id b (b.remove (-data.item.feed)).2
  | put (hid : data.blk.id = id) (hfeed : 0 ≤ data.item.feed) :
      ReplayWrite data loaded id b (putBlock b data false).2
  | first (hid : data.blk.id = id) (hfeed : 0 ≤ data.item.feed) (h1 : data.blk.curCount = 1)
      (hloaded : loaded = false) : ReplayWrite data loaded id b (putBlock .init data false).2
  | removeAll (hid : data.blk.id = id) (h3 : data.blk.curCount = -3) :
      ReplayWrite data loaded id b b.removeAll

/-! ## One record -/

/-- What the reader of a block sees of a put. -/
theorem view_put (n : Node) (data : FeedItemBlockInfo) (overwrite : Bool) (id : BlockId) :
    (n.put data overwrite).view id = n.view id ∨
      id = data.blk.id ∧ (n.put data overwrite).view id =
        (putBlock (n.content data.blk.id (data.blk.curCount ≠ 1)) data overwrite).2 := by
  rcases put_cases n data overwrite with he | ⟨files, -, -, he⟩
  · exact Or.inl (by rw [he])
  have hview : (n.put data overwrite).view = (n.store data.blk.id
      (putBlock (n.content data.blk.id (data.blk.curCount ≠ 1)) data overwrite).2).view := by
    rw [he]
    dsimp only
    split <;> rfl
  rw [hview]
  by_cases hid : id = data.blk.id
  · exact Or.inr ⟨hid, by rw [hid, view_store_self]⟩
  · exact Or.inl (view_store_ne _ _ hid)

theorem view_removeAll (n : Node) (userId : ℤ) (id id' : BlockId) :
    (n.removeAll userId id false).view id' = n.view id' ∨
      id' = id ∧ (n.removeAll userId id false).view id' = (n.view id').removeAll := by
  unfold Node.removeAll
  cases hf : n.find id true with
  | none => exact Or.inl rfl
  | some r =>
      obtain ⟨b, n'⟩ := r
      obtain ⟨hb, hview⟩ := find_load hf
      simp only [Bool.false_eq_true, if_false]
      by_cases hid : id' = id
      · exact Or.inr ⟨hid, by rw [hid, view_store_self, hb]⟩
      · exact Or.inl (by rw [view_store_ne _ _ hid, hview])

/-- A replayed record writes as `ReplayWrite` says. -/
theorem syncPut_view (n : Node) (data : FeedItemBlockInfo) (hfeed : 0 ≤ data.item.feed)
    (id : BlockId) :
    Relation.ReflTransGen (ReplayWrite data (n.cache id).isSome id) (n.view id)
      ((n.syncPut data false).view id) := by
  have hput : Relation.ReflTransGen (ReplayWrite data (n.cache id).isSome id) (n.view id)
      ((n.put data false).view id) := by
    rcases view_put n data false id with he | ⟨hid, he⟩
    · rw [he]
    subst hid
    rw [he]
    by_cases hblank : n.cache data.blk.id = none ∧ data.blk.curCount = 1
    · have hcontent : n.content data.blk.id (data.blk.curCount ≠ 1) = Block.init := by
        simp [Node.content, hblank.1, hblank.2]
      rw [hcontent]
      exact .single (.first rfl hfeed hblank.2 (by rw [hblank.1]; rfl))
    · rw [content_of_not_blank fun hnone h1 => hblank ⟨hnone, h1⟩]
      exact .single (.put rfl hfeed)
  unfold syncPut
  simp only [Bool.false_eq_true, if_false]
  split
  · refine hput.trans ?_
    exact (writes_changeNextPtr (W := fun id => ReplayWrite data (n.cache id).isSome id)
      (fun _ _ b' hp => .pointer b' hp) (n.put data false) _ _ _).view id
  · exact hput

/-- **A record that is replayed is a chain of its writes.** -/
theorem restoreRecord_view (n : Node) (data : FeedItemBlockInfo) (id : BlockId) :
    Relation.ReflTransGen (ReplayWrite data (n.cache id).isSome id) (n.view id)
      ((n.restoreRecord data).view id) := by
  have hmain : Relation.ReflTransGen (ReplayWrite data (n.cache id).isSome id) (n.view id)
      ((if data.item.feed < 0 then n.remove data.blk (-data.item.feed) false false 1
        else n.syncPut data false).view id) := by
    split
    · rename_i hfeed
      refine (writes_remove (W := fun id => ReplayWrite data (n.cache id).isSome id) n data.blk false
        (fun id' b delete hdone _ => ?_) fun _ _ b' hp => .pointer b' hp).view id
      exact .remove ((frame_removeLoop_one _ n data.blk.id).2 id' delete hdone).1.symm hfeed
    · rename_i hfeed
      exact syncPut_view n data (by omega) id
  unfold restoreRecord
  dsimp only
  split
  · rename_i h3
    refine hmain.trans ?_
    generalize (if data.item.feed < 0 then n.remove data.blk (-data.item.feed) false false 1
      else n.syncPut data false) = m
    rcases view_removeAll m data.blk.userId data.blk.id id with he | ⟨hid, he⟩
    · rw [he]
    · rw [he]
      exact .single (.removeAll hid.symm h3)
  · exact hmain

/-- What every write of a record keeps, the record keeps. -/
theorem restoreRecord_keeps
    (hP : ∀ b b', ReplayWrite data (n.cache id).isSome id b b' → P b → P b') (h : P (n.view id)) :
    P ((n.restoreRecord data).view id) := by
  have hchain := restoreRecord_view n data id
  generalize (n.restoreRecord data).view id = b at hchain ⊢
  induction hchain with
  | refl => exact h
  | tail _ hw ih => exact hP _ _ hw ih

/-! ## What the writes keep -/

section Write

variable {data : FeedItemBlockInfo} {loaded : Bool} {id : BlockId} {b b' : Block}

/-- A block no record names keeps its owner and its items. -/
theorem ReplayWrite.other (h : ReplayWrite data loaded id b b') (hid : data.blk.id ≠ id) :
    b'.head.userId = b.head.userId ∧ b'.items = b.items := by
  cases h with
  | pointer _ hp =>
      obtain ⟨_, rfl | rfl⟩ := hp
      · exact ⟨rfl, rfl⟩
      · exact ⟨rfl, rfl⟩
  | remove hid' _ => exact absurd hid' hid
  | put hid' _ => exact absurd hid' hid
  | first hid' _ _ _ => exact absurd hid' hid
  | removeAll hid' _ => exact absurd hid' hid

theorem ReplayWrite.own {u : UInt32} (h : ReplayWrite data loaded id b b')
    (hdata : IsInsert data → uint32 data.blk.userId = u) (hb : OwnBlock u b) : OwnBlock u b' := by
  cases h with
  | pointer _ hp => exact hb.pointer hp
  | remove _ _ => exact hb.remove _
  | put _ hfeed => exact hb.putBlock fun hc => hdata ⟨hfeed, hc⟩
  | first _ hfeed _ _ => exact OwnBlock.init.putBlock fun hc => hdata ⟨hfeed, hc⟩
  | removeAll _ _ => exact hb.imp (fun hu => hu) fun h0 => ⟨h0.1, rfl⟩

/-- A write that neither removes the item nor starts from an empty block. -/
theorem ReplayWrite.hasItem {r : FeedItemBlockInfo} (h : ReplayWrite data loaded r.blk.id b b')
    (hu : uint32 r.blk.userId ≠ 0) (hremoves : ¬ Removes r data)
    (hfirst : loaded = true ∨ ¬ (data.blk.id = r.blk.id ∧ IsInsert data ∧ data.blk.curCount = 1))
    (hb : b.HasItem r) : b'.HasItem r := by
  cases h with
  | pointer _ hp => exact hb.pointer hp
  | remove hid hfeed =>
      refine hb.remove fun he => hremoves ⟨hid, Or.inl ⟨?_, hfeed⟩⟩
      omega
  | put _ _ => exact hb.putBlock hu data false
  | first hid hfeed h1 hloaded =>
      rcases hfirst with hl | hno
      · rw [hl] at hloaded
        cases hloaded
      · exact absurd ⟨hid, ⟨hfeed, by rw [h1]; decide⟩, h1⟩ hno
  | removeAll hid h3 => exact absurd ⟨hid, Or.inr h3⟩ hremoves

/-- A put brings in no feed but its own. -/
theorem find_putBlock {b : Block} (h : (putBlock b data false).2.find feed ≠ none) :
    b.find feed ≠ none ∨
      uint32 data.blk.curCount ≤ UInt32.ofNat recordPerBlock ∧ data.item.feed = feed := by
  by_cases hold : b.find feed = none
  swap
  · exact Or.inl hold
  right
  unfold putBlock at h
  dsimp only at h
  split at h
  · exact absurd hold h
  split at h
  · exact absurd hold h
  split at h
  · exact absurd hold h
  have hr : (if uint32 data.blk.curCount ≤ UInt32.ofNat recordPerBlock then
      b.putData data.blk data.item false else (false, b)).2.find feed ≠ none := by
    split at h
    · exact h
    · exact h
  split at hr
  · rename_i hc
    refine ⟨hc, ?_⟩
    rcases b.putData_cases data.blk data.item false with
      ⟨-, -, he⟩ | ⟨-, -, he⟩ | ⟨-, href, hroom, he⟩
    · rw [he] at hr
      exact absurd hold hr
    · rw [he] at hr
      exact absurd hold hr
    · rw [he, Block.find_placeItem (b := b.setUser (uint32 data.blk.userId)) href] at hr
      by_contra hne
      rw [if_neg hne] at hr
      exact hr hold
  · exact absurd hold hr

/-- A write brings in no feed but the one of a record that writes to the block. -/
theorem ReplayWrite.find (h : ReplayWrite data loaded id b b') (hfind : b'.find feed ≠ none) :
    b.find feed ≠ none ∨ WritesTo id data ∧ data.item.feed = feed := by
  cases h with
  | pointer _ hp =>
      obtain ⟨_, rfl | rfl⟩ := hp
      · exact Or.inl hfind
      · exact Or.inl hfind
  | remove _ _ =>
      rw [Block.find_remove] at hfind
      split at hfind
      · exact absurd rfl hfind
      · exact Or.inl hfind
  | put hid hfeed =>
      exact (find_putBlock hfind).imp_right fun hput => ⟨⟨hid, hfeed, hput.1⟩, hput.2⟩
  | first hid hfeed _ _ =>
      rcases find_putBlock hfind with hinit | hput
      · exact absurd rfl hinit
      · exact Or.inr ⟨⟨hid, hfeed, hput.1⟩, hput.2⟩
  | removeAll _ _ => exact absurd rfl hfind

end Write

/-! ## A log -/

theorem files_restore (n : Node) (records : List FeedItemBlockInfo) {f : ℤ} (h : f ∈ n.files) :
    f ∈ (n.restore records).files := by
  unfold restore
  induction records generalizing n with
  | nil => exact h
  | cons r records ih =>
      rw [List.foldl_cons]
      exact ih _ ((frame_restoreRecord n r).files h)

/-- What every write of a log keeps, the log keeps. A block that was in memory stays there. -/
theorem restore_keeps (hP : ∀ d ∈ records, ∀ loaded, ((n.cache id).isSome → loaded = true) →
      ∀ b b', ReplayWrite d loaded id b b' → P b → P b') (h : P (n.view id)) :
    P ((n.restore records).view id) := by
  unfold restore
  induction records generalizing n with
  | nil => exact h
  | cons r records ih =>
      rw [List.foldl_cons]
      refine ih (fun d hd loaded hl => ?_)
        (restoreRecord_keeps (hP r List.mem_cons_self _ fun hc => hc) h)
      exact hP d (List.mem_cons_of_mem r hd) loaded fun hc =>
        hl ((frame_restoreRecord n r).cached id hc)

/-- A block a log does not name keeps its owner and its items. -/
theorem restore_other (h : ∀ d ∈ records, d.blk.id ≠ id) :
    ((n.restore records).view id).head.userId = (n.view id).head.userId ∧
      ((n.restore records).view id).items = (n.view id).items := by
  refine restore_keeps (P := fun b => b.head.userId = (n.view id).head.userId ∧
    b.items = (n.view id).items) (fun d hd loaded _ b b' hw hb => ?_) ⟨rfl, rfl⟩
  obtain ⟨hu, hi⟩ := hw.other (h d hd)
  exact ⟨hu.trans hb.1, hi.trans hb.2⟩

/-- The feeds of a block after a log was replayed. -/
theorem restore_feeds {disk : BlockId → Block} (h : (n.view id).items = (disk id).items)
    (records : List FeedItemBlockInfo) :
    ∀ feed, ((n.restore records).view id).find feed ≠ none → feed ∈ feedsOf disk records id := by
  refine restore_keeps (P := fun b => ∀ feed, b.find feed ≠ none → feed ∈ feedsOf disk records id)
    (fun d hd loaded _ b b' hw hb feed hfind => ?_) fun feed hfind => ?_
  · rcases hw.find hfind with hold | ⟨hwrites, rfl⟩
    · exact hb feed hold
    · refine List.mem_append_right _ (List.mem_map.mpr ⟨d, ?_, rfl⟩)
      exact List.mem_filter.mpr ⟨hd, decide_eq_true hwrites⟩
  · rw [Block.find, h] at hfind
    obtain ⟨x, hx⟩ := Option.ne_none_iff_exists'.mp hfind
    obtain ⟨hmem, rfl⟩ := mem_of_lookup hx
    exact List.mem_append_left _ (List.mem_map_of_mem hmem)

end Oce.FeedDB
