import Oce.FeedDB.Model.Store
import Oce.FeedDB.Analysis.DirtyBit
import Oce.FeedDB.Analysis.Modify

/-!
# The blocks of one user under the calls of another

A call names a block, and from there the pointers of blocks name others, so a call may reach
a block whose owner is not the caller. `get` checks the owner at every block it reads, `put`
at the block it writes. `remove` only logs a difference: it takes the feed out of the first
block of its walk that has it (`Node.holder`), whoever owns the block. And the first record
of a block is written without the block being loaded, so the owner on disk is not seen.

`Request.KeepsOut` is the exact condition: a removal finds the feed in no block of another
user, and a first record does not meet one on disk. The pointer records that follow a removal
carry the owner of the emptied block, so they pass no check the removal did not.
-/

set_option autoImplicit false

namespace Oce.FeedDB

open Function Oce.Base

/-- The block has an owner, and it is not the user. -/
def Block.Foreign (b : Block) (userId : ℤ) : Prop :=
  b.head.userId ≠ 0 ∧ b.head.userId ≠ uint32 userId

instance (b : Block) (userId : ℤ) : Decidable (b.Foreign userId) :=
  inferInstanceAs (Decidable (_ ∧ _))

theorem Block.Foreign.not_takes {b : Block} {blk : BlockInfo} (h : b.Foreign blk.userId) :
    ¬ b.Takes blk := by
  rintro (h0 | heq)
  · exact h.1 h0
  · exact h.2 heq

namespace Node

/-- The first block of a walk along `pre` pointers that has the feed. -/
def holder (view : BlockId → Block) (feed : ℤ) (depth : Bool) :
    ℕ → List ℤ → BlockId → Option BlockId
  | 0, _, _ => none
  | fuel + 1, files, id =>
    if id.isNone ∨ ¬ InFile id then none
    else (locateFile files id.fileId).bind fun files =>
      if (view id).find feed ≠ none then some id
      else if depth then holder view feed depth fuel files (view id).pre
      else none

variable {n : Node} {id : BlockId} {userId : ℤ}

/-! ## Puts and pointer records -/

/-- A put does nothing to a block of another user that it loads. -/
theorem view_put_of_foreign {data : FeedItemBlockInfo} (hid : (n.view id).Foreign data.blk.userId)
    (hfirst : id = data.blk.id → n.cache id = none → data.blk.curCount ≠ 1) (overwrite : Bool) :
    (n.put data overwrite).view id = n.view id := by
  rcases view_put n data overwrite id with he | ⟨rfl, he⟩
  · exact he
  · rw [he, content_of_not_blank (hfirst rfl)]
    exact putBlock_of_not_takes hid.not_takes overwrite

theorem view_changeNextPtr_of_foreign (hid : (n.view id).Foreign userId) (id' next : BlockId) :
    (n.changeNextPtr userId id' next).view id = n.view id := by
  unfold changeNextPtr
  split
  · rfl
  · have hlog := congrFun (logTo_view n (specialRecord 0 userId (-2) id' next)) id
    have hcount : (-2 : ℤ) ≠ 1 := by decide
    rw [view_put_of_foreign (by rw [hlog]; exact hid) fun _ _ => hcount, hlog]

theorem view_changePrePtr_of_foreign (hid : (n.view id).Foreign userId) (id' pre : BlockId) :
    (n.changePrePtr userId id' pre).view id = n.view id := by
  unfold changePrePtr
  split
  · rfl
  · have hlog := congrFun (logTo_view n (specialRecord 0 userId (-1) id' pre)) id
    have hcount : (-1 : ℤ) ≠ 1 := by decide
    rw [view_put_of_foreign (by rw [hlog]; exact hid) fun _ _ => hcount, hlog]

/-- A block leaves its chain without a write to a block of another owner. -/
theorem view_deleteBlock_of_foreign {id' : BlockId} (hid : (n.view id).Foreign userId)
    (howner : ¬ (n.view id').Foreign userId) (log : Bool) :
    (n.deleteBlock id' log).view id = n.view id := by
  unfold deleteBlock
  cases hf : n.find id' true with
  | none => rfl
  | some r =>
      obtain ⟨cache, n'⟩ := r
      obtain ⟨hcache, hview⟩ := find_load hf
      have hother : ∀ m : Node, m.view id = n.view id →
          (m.view id).Foreign (int32 cache.head.userId) := by
        intro m hm
        rw [hm, hcache]
        refine ⟨hid.1, ?_⟩
        rw [uint32_int32]
        intro heq
        exact howner ⟨heq ▸ hid.1, heq ▸ hid.2⟩
      have h0 : n'.view id = n.view id := congrFun hview id
      dsimp only
      cases log with
      | false =>
          have h1 := (view_changePrePtr_of_foreign (hother _ h0) id' .none).trans h0
          exact (view_changeNextPtr_of_foreign (hother _ h1) id' .none).trans h1
      | true =>
          have h1 := (view_changePrePtr_of_foreign (hother _ h0) cache.next cache.pre).trans h0
          have h2 := (view_changeNextPtr_of_foreign (hother _ h1) cache.pre cache.next).trans h1
          have h3 := (view_changePrePtr_of_foreign (hother _ h2) id' .none).trans h2
          exact (view_changeNextPtr_of_foreign (hother _ h3) id' .none).trans h3

/-! ## The walk of a removal -/

/-- **The loop of `remove`** takes the feed out of its holder, and changes nothing else. -/
theorem removeLoop_holder (feed : ℤ) (depth : Bool) (fuel : ℕ) (n : Node) (id : BlockId) :
    (holder n.view feed depth fuel n.files id = none ∧
      (removeLoop feed depth fuel n id).1 = .nothing ∧
      (removeLoop feed depth fuel n id).2.view = n.view) ∨
    ∃ h delete, holder n.view feed depth fuel n.files id = some h ∧ (n.view h).find feed ≠ none ∧
      (removeLoop feed depth fuel n id).1 = .done h delete ∧
      (removeLoop feed depth fuel n id).2.view =
        update n.view h ((n.view h).remove feed).2 := by
  induction fuel generalizing n id with
  | zero => exact Or.inl ⟨rfl, rfl, rfl⟩
  | succ fuel ih =>
      unfold removeLoop holder
      by_cases hstop : id.isNone
      · rw [if_pos hstop, if_pos (Or.inl hstop)]
        exact Or.inl ⟨rfl, rfl, rfl⟩
      rw [if_neg hstop]
      cases hf : n.find id true with
      | none =>
          refine Or.inl ⟨?_, rfl, rfl⟩
          rw [find_eq] at hf
          by_cases hin : InFile id
          · rw [if_pos hin] at hf
            rw [if_neg (not_or.mpr ⟨hstop, not_not.mpr hin⟩), Option.map_eq_none_iff.mp hf]
            rfl
          · rw [if_pos (Or.inr hin)]
      | some r =>
          obtain ⟨cache, n'⟩ := r
          obtain ⟨hcache, hview⟩ := find_load hf
          obtain ⟨hin, -, files, hfiles, hn'⟩ := find_some hf
          have hfiles' : n'.files = files := by rw [hn', store_files]
          rw [if_neg (not_or.mpr ⟨hstop, not_not.mpr hin⟩), hfiles, Option.bind_some]
          dsimp only
          have hfound : (cache.remove feed).1 = true ↔ (n.view id).find feed ≠ none := by
            rw [Block.remove_fst, ← Block.find_ne_none_iff, hcache]
          by_cases hfeed : (n.view id).find feed ≠ none
          · rw [if_pos (hfound.mpr hfeed), if_pos hfeed]
            refine Or.inr ⟨id, _, rfl, hfeed, rfl, ?_⟩
            rw [view_setDirty]
            funext id'
            by_cases hid : id' = id
            · rw [hid, view_store_self, update_self, hcache]
            · rw [view_store_ne _ _ hid, update_of_ne hid, hview]
          · rw [if_neg (mt hfound.mp hfeed), if_neg hfeed]
            cases depth with
            | false => exact Or.inl ⟨rfl, rfl, hview⟩
            | true =>
                have hnext := ih n' cache.pre
                rw [hview, hfiles', hcache] at hnext
                rw [hcache]
                exact hnext

/-- Pointers that are written leave the items of every block. -/
theorem items_deleteBlock (n : Node) (id' : BlockId) (log : Bool) (id : BlockId) :
    ((n.deleteBlock id' log).view id).items = (n.view id).items := by
  have hchain := (writes_deleteBlock (W := fun _ => PointerWrite) (fun _ _ _ hp => hp) n id'
    log).view id
  generalize (n.deleteBlock id' log).view id = b at hchain ⊢
  induction hchain with
  | refl => rfl
  | tail _ hw ih =>
      obtain ⟨_, rfl | rfl⟩ := hw
      · exact ih
      · exact ih

/-- What a removal does when its walk finds the feed. -/
theorem remove_of_done {blk : BlockInfo} {feed : ℤ} {depth delete : Bool} {fuel : ℕ}
    {h : BlockId} (log : Bool) (hdone : (removeLoop feed depth fuel n blk.id).1 = .done h delete) :
    ∃ m : Node, m.view = (removeLoop feed depth fuel n blk.id).2.view ∧
      n.remove blk feed depth log fuel = if delete then m.deleteBlock h log else m := by
  unfold remove
  generalize removeLoop feed depth fuel n blk.id = r at hdone
  obtain ⟨removed, n'⟩ := r
  subst hdone
  refine ⟨if log then n'.logTo (specialRecord (-feed) blk.userId 0 h ⟨0, 0⟩) else n', ?_, rfl⟩
  split
  · exact logTo_view _ _
  · rfl

/-- **A removal leaves the blocks of other users alone exactly when the feed is not in one of
them first.** -/
theorem remove_keeps_foreign_iff (n : Node) (blk : BlockInfo) (feed : ℤ) (depth log : Bool)
    (fuel : ℕ) :
    (∀ id, (n.view id).Foreign blk.userId →
      (n.remove blk feed depth log fuel).view id = n.view id) ↔
    ∀ id, holder n.view feed depth fuel n.files blk.id = some id →
      ¬ (n.view id).Foreign blk.userId := by
  rcases removeLoop_holder feed depth fuel n blk.id with
    ⟨hholder, hdone, hview⟩ | ⟨h, delete, hholder, hfeed, hdone, hview⟩
  · refine iff_of_true (fun id _ => ?_) fun id hid => ?_
    · unfold remove
      generalize removeLoop feed depth fuel n blk.id = r at hdone hview
      obtain ⟨removed, n'⟩ := r
      subst hdone
      exact congrFun hview id
    · rw [hholder] at hid
      cases hid
  · obtain ⟨m, hm, he⟩ := remove_of_done log hdone
    rw [he, hholder]
    constructor
    · rintro hkeeps id hid hforeign
      cases hid
      have hitems : ((if delete then m.deleteBlock h log else m).view h).items =
          ((n.view h).remove feed).2.items := by
        have hmh : m.view h = ((n.view h).remove feed).2 := by
          rw [hm, hview, update_self]
        split
        · rw [items_deleteBlock, hmh]
        · rw [hmh]
      rw [hkeeps h hforeign] at hitems
      have hgone : ((n.view h).remove feed).2.find feed = none := by
        rw [Block.find_remove, if_pos rfl]
      rw [Block.find, ← hitems] at hgone
      exact hfeed hgone
    · intro howner id hid
      have hne : id ≠ h := fun heq => howner h rfl (heq ▸ hid)
      have hmid : m.view id = n.view id := by
        rw [hm, hview, update_of_ne hne]
      split
      · have hmh : ¬ (m.view h).Foreign blk.userId := by
          rw [hm, hview, update_self]
          exact howner h rfl
        rw [view_deleteBlock_of_foreign (by rw [hmid]; exact hid) hmh log, hmid]
      · exact hmid

/-! ## First records -/

/-- A first record meets a block of another user on disk. -/
def Overwrites (n : Node) (data : FeedItemBlockInfo) : Prop :=
  data.blk.curCount = 1 ∧ n.cache data.blk.id = none ∧ InFile data.blk.id ∧
    (locateFile n.files data.blk.fileId).isSome ∧ (n.view data.blk.id).Foreign data.blk.userId

instance (n : Node) (data : FeedItemBlockInfo) : Decidable (n.Overwrites data) :=
  inferInstanceAs (Decidable (_ ∧ _ ∧ _ ∧ _ ∧ _))

/-- The block of a record after its put, if its file is located. -/
theorem view_put_self {data : FeedItemBlockInfo} (hin : InFile data.blk.id) {files : List ℤ}
    (hfiles : locateFile n.files data.blk.fileId = some files) (overwrite : Bool) :
    (n.put data overwrite).view data.blk.id =
      (putBlock (n.content data.blk.id (data.blk.curCount ≠ 1)) data overwrite).2 := by
  have hfile : locateFile n.files data.blk.id.fileId = some files := hfiles
  unfold put
  rw [find_eq, if_pos hin, hfile, Option.map_some]
  dsimp only
  rw [store_store]
  split
  · rw [view_setDirty, view_store_self]
  · rw [view_store_self]

/-- **A put leaves the blocks of other users alone exactly when it does not write its first
record over one.** -/
theorem put_keeps_foreign_iff (n : Node) (data : FeedItemBlockInfo) (overwrite : Bool) :
    (∀ id, (n.view id).Foreign data.blk.userId → (n.put data overwrite).view id = n.view id) ↔
      ¬ n.Overwrites data := by
  constructor
  · rintro hkeeps ⟨hone, hnone, hin, hfiles, hforeign⟩
    have hsame := congrArg (fun b => b.head.userId) (hkeeps _ hforeign)
    have hput : ((n.put data overwrite).view data.blk.id).head.userId = uint32 data.blk.userId := by
      obtain ⟨files, hfiles⟩ := Option.isSome_iff_exists.mp hfiles
      have hcontent : n.content data.blk.id (data.blk.curCount ≠ 1) = Block.init := by
        simp [Node.content, hnone, hone]
      have hseen := @putBlock_of_takes Block.init data (Or.inl rfl) (by rw [hone]; decide) overwrite
      rw [view_put_self hin hfiles, hcontent]
      exact congrArg (fun s => s.1) hseen
    exact hforeign.2 (hsame.symm.trans hput)
  · intro hover id hid
    rcases put_cases n data overwrite with he | ⟨files, hin, hfiles, -⟩
    · rw [he]
    · refine view_put_of_foreign hid (fun hid' hnone hone => hover ?_) overwrite
      subst hid'
      exact ⟨hone, hnone, hin, by rw [hfiles]; rfl, hid⟩

/-! ## The walk of a read -/

/-- A loop without space copies nothing. -/
theorem getLoop_zero {fuel : ℕ} {items : List FeedItem}
    (h : getLoop userId fuel n id 0 = some items) : items = [] := by
  cases fuel with
  | zero => cases h
  | succ fuel =>
      rw [getLoop, if_pos (Or.inl rfl)] at h
      exact (Option.some.inj h).symm

/-- **Everything `get` returns lies in blocks of its user**, and it changes no block. -/
theorem getLoop_of_user (huser : userId ≠ 0) (fuel : ℕ) (n : Node) (id : BlockId) (count : ℕ) :
    (getLoopNode userId fuel n id count).view = n.view ∧
    ∀ items, getLoop userId fuel n id count = some items →
      ∃ ids : List BlockId, (∀ id ∈ ids, (n.view id).head.userId = uint32 userId) ∧
        items <+: ids.flatMap fun id => (n.view id).items := by
  induction fuel generalizing n id count with
  | zero => exact ⟨rfl, fun _ h => by cases h⟩
  | succ fuel ih =>
      unfold getLoopNode getLoop
      by_cases hstop : count = 0 ∨ id.isNone
      · rw [if_pos hstop, if_pos hstop]
        refine ⟨rfl, fun items h => ⟨[], by simp, ?_⟩⟩
        cases h
        exact List.nil_prefix
      rw [if_neg hstop, if_neg hstop]
      cases hf : n.find id true with
      | none =>
          refine ⟨rfl, fun items h => ⟨[], by simp, ?_⟩⟩
          cases h
          exact List.nil_prefix
      | some r =>
          obtain ⟨cache, n'⟩ := r
          obtain ⟨hcache, hview⟩ := find_load hf
          dsimp only
          by_cases hother : userId ≠ 0 ∧ cache.head.userId ≠ uint32 userId
          · rw [if_pos hother, if_pos hother]
            refine ⟨hview, fun items h => ⟨[], by simp, ?_⟩⟩
            cases h
            exact List.nil_prefix
          rw [if_neg hother, if_neg hother]
          have hown : (n.view id).head.userId = uint32 userId := by
            rw [← hcache]
            by_contra hne
            exact hother ⟨huser, hne⟩
          obtain ⟨hnode, hitems⟩ := ih n' cache.pre (count - (cache.getData count).length)
          refine ⟨hnode.trans hview, fun items h => ?_⟩
          obtain ⟨rest, hrest, rfl⟩ := Option.map_eq_some_iff.mp h
          obtain ⟨ids, hids, hprefix⟩ := hitems rest hrest
          rw [hview] at hids hprefix
          have hmem : ∀ id' ∈ id :: ids, (n.view id').head.userId = uint32 userId := by
            intro id' hid'
            rcases List.mem_cons.mp hid' with rfl | hid'
            · exact hown
            · exact hids id' hid'
          refine ⟨id :: ids, hmem, ?_⟩
          rw [List.flatMap_cons, ← hcache]
          by_cases hlen : cache.items.length ≤ count
          · have hall : cache.getData count = cache.items := List.take_of_length_le hlen
            rw [hall]
            exact (List.prefix_append_right_inj _).mpr hprefix
          · have hfull : (cache.getData count).length = count := by
              rw [Block.getData, List.length_take]
              omega
            rw [hfull, Nat.sub_self] at hrest
            rw [getLoop_zero hrest, List.append_nil]
            exact (List.take_prefix _ _).trans (List.prefix_append _ _)

end Node

/-! ## Every run -/

open Node

/-- A call for a user changes no block of another one and returns no item of such a block. -/
def Request.Isolated (n : Node) (r : Request) : Prop :=
  r.userId ≠ 0 →
    (∀ id, (n.view id).Foreign r.userId → (r.step n).view id = n.view id) ∧
    ∀ items, r.answer n = some items →
      ∃ ids : List BlockId, (∀ id ∈ ids, (n.view id).head.userId = uint32 r.userId) ∧
        items <+: ids.flatMap fun id => (n.view id).items

/-- A first record does not meet a block of another user on disk, and a removal finds its feed
in no such block first. -/
def Request.KeepsOut (n : Node) : Request → Prop
  | put data _ => ¬ n.Overwrites data
  | remove blk feed depth _ fuel => ∀ id,
    holder n.view feed depth fuel n.files blk.id = some id → ¬ (n.view id).Foreign blk.userId
  | _ => True

/-- The calls of a run are isolated. -/
def Action.Isolated (n : Node) : Action → Prop
  | request r => r.Isolated n
  | _ => True

/-- The calls of a run keep out of the blocks of other users. -/
def Action.KeepsOut (n : Node) : Action → Prop
  | request r => r.userId ≠ 0 → r.KeepsOut n
  | _ => True

/-- Of a call that returns nothing only the blocks matter. -/
theorem Request.isolated_iff {n : Node} {r : Request} (hanswer : r.answer n = some []) :
    r.Isolated n ↔
      (r.userId ≠ 0 → ∀ id, (n.view id).Foreign r.userId → (r.step n).view id = n.view id) := by
  constructor
  · intro h huser
    exact (h huser).1
  · intro h huser
    refine ⟨h huser, fun items hitems => ⟨[], by simp, ?_⟩⟩
    rw [hanswer] at hitems
    cases hitems
    exact List.nil_prefix

/-- **One call.** -/
theorem Request.isolated_iff_keepsOut (n : Node) (r : Request) :
    r.Isolated n ↔ (r.userId ≠ 0 → r.KeepsOut n) := by
  cases r with
  | put data overwrite =>
      rw [isolated_iff rfl]
      exact imp_congr_right fun _ => put_keeps_foreign_iff n data overwrite
  | get blk count fuel =>
      refine iff_of_true (fun huser => ?_) fun _ => trivial
      obtain ⟨hview, hitems⟩ := getLoop_of_user huser fuel n blk.id count
      exact ⟨fun id _ => congrFun hview id, hitems⟩
  | remove blk feed depth log fuel =>
      rw [isolated_iff rfl]
      exact imp_congr_right fun _ => remove_keeps_foreign_iff n blk feed depth log fuel
  | changeNextPtr userId id next =>
      rw [isolated_iff rfl]
      exact iff_of_true (fun _ _ hid => view_changeNextPtr_of_foreign hid id next) fun _ => trivial
  | changePrePtr userId id pre =>
      rw [isolated_iff rfl]
      exact iff_of_true (fun _ _ hid => view_changePrePtr_of_foreign hid id pre) fun _ => trivial

/-- **A run isolates its users exactly when no first record is written over another user's block
on disk and no removal finds its feed in another user's block.** -/
theorem run_isolated_iff (n : Node) (actions : List Action) :
    StepsMeet Action.step Action.Isolated n actions ↔
      StepsMeet Action.step Action.KeepsOut n actions := by
  have hstep : ∀ (m : Node) (a : Action), a.Isolated m ↔ a.KeepsOut m := by
    intro m a
    cases a with
    | request r => exact r.isolated_iff_keepsOut m
    | _ => exact Iff.rfl
  exact ⟨StepsMeet.mono fun m a => (hstep m a).mp, StepsMeet.mono fun m a => (hstep m a).mpr⟩

/-- User 8 removes the feed of user 7 with a block info that names user 7's block. -/
theorem remove_reaches_other_user :
    ¬ StepsMeet Action.step Action.Isolated
      (started [1] (fun _ => Block.zeroed) (fun _ => []) fun _ => [])
      [.request (.put ⟨⟨5, 1, 1, 1, 1, 1⟩, ⟨0, 7, 1, 1, 1, 0, 0, -1, 0⟩⟩ false),
        .request (.remove ⟨0, 8, 0, 0, 1, 0, 0, -1, 0⟩ 5 true true 1)] := by
  rintro ⟨-, hremove, -⟩
  have hkept := (hremove (by decide)).1 ⟨1, 0⟩ (by decide +kernel)
  revert hkept
  decide +kernel

end Oce.FeedDB
