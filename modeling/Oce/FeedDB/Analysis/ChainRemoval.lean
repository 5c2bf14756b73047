import Oce.FeedDB.Analysis.ChainSteps

/-!
# A removal from a chain

The loop of `remove` follows the `pre` pointers to the first block that has the feed. If the
block is then empty and another one follows it, the four pointer updates of `remove` take it
out of the chain, which `Chain.unlink` shows to leave the rest in one piece.
-/

set_option autoImplicit false

namespace Oce.FeedDB

open Function Oce.Base

variable {owner : UInt32} {chain : List BlockId} {fuel : ℕ} {feed : ℤ}

namespace Node

variable {n n' : Node} {id target : BlockId} {userId : ℤ}

/-! ## The loop of a removal -/

/-- **The loop over the rest of a chain finds nothing, or takes the feed from the first
block that has it.** -/
theorem removeLoop_chain {after : Option BlockId} (howns : ∀ id ∈ chain, n.Owns owner id)
    (hlinked : Chain n.preOf n.nextOf after Option.none chain) {start : BlockId}
    (hstart : start.ptr = chain.head?) (hfuel : chain.length < fuel) (feed : ℤ) :
    ((∀ id ∈ chain, ((n.view id).remove feed).1 = false) ∧
      ∃ n', removeLoop feed true fuel n start = (.nothing, n') ∧ n'.view = n.view ∧
        n'.files = n.files ∧ Frame (· ∈ chain) n n') ∨
    ∃ xs id ys n', chain = xs ++ id :: ys ∧
      (∀ c ∈ xs, ((n.view c).remove feed).1 = false) ∧ ((n.view id).remove feed).1 = true ∧
      removeLoop feed true fuel n start =
        (.done id (decide (((n.view id).remove feed).2.isEmpty ∧ n.nextOf id ≠ Option.none)), n') ∧
      n'.view = update n.view id ((n.view id).remove feed).2 ∧
      n'.files = n.files ∧ Frame (· ∈ chain) n n' := by
  induction chain generalizing n start fuel after with
  | nil =>
      left
      obtain ⟨fuel, rfl⟩ : ∃ k, fuel = k + 1 := ⟨fuel - 1, by simp at hfuel; omega⟩
      refine ⟨by simp, n, ?_, rfl, rfl, .refl _ n⟩
      unfold removeLoop
      rw [if_pos (BlockId.ptr_eq_none hstart)]
  | cons id chain ih =>
      obtain ⟨fuel, rfl⟩ : ∃ k, fuel = k + 1 := ⟨fuel - 1, by omega⟩
      obtain ⟨rfl, hnamed⟩ := BlockId.ptr_eq_some hstart
      have hown := howns start List.mem_cons_self
      have hstored : Frame (· ∈ start :: chain) n (n.store start (n.view start)) :=
        (frame_store n n.files (List.Subset.refl _) start _).mono fun c hc => by
          rw [hc]
          exact List.mem_cons_self
      unfold removeLoop
      rw [if_neg (by rw [hnamed]; exact Bool.false_ne_true), hown.find]
      dsimp only
      cases hrem : ((n.view start).remove feed).1 with
      | true =>
          right
          have hwrite : Frame (· ∈ start :: chain) n
              (((n.store start (n.view start)).store start ((n.view start).remove feed).2).setDirty
                start) := by
            rw [store_store]
            refine Frame.trans ((frame_store n n.files (List.Subset.refl _) start _).mono ?_)
              (frame_setDirty _ _)
            intro c hc
            rw [hc]
            exact List.mem_cons_self
          rw [if_pos rfl]
          refine ⟨[], start, chain, _, rfl, by simp, hrem, Prod.ext ?_ rfl, ?_, rfl, hwrite⟩
          · have hnext : ((n.view start).remove feed).2.next = (n.view start).next := rfl
            have hiff := @BlockId.ptr_ne_none_iff (n.view start).next
            refine congrArg (Removed.done start) (decide_eq_decide.mpr ?_)
            rw [hnext]
            exact and_congr_right fun _ => hiff.symm
          · rw [store_store, view_setDirty]
            funext c
            by_cases hc : c = start
            · rw [hc, view_store_self, update_self]
            · rw [view_store_ne _ _ hc, update_of_ne hc]
      | false =>
          rw [if_neg Bool.false_ne_true, if_pos rfl]
          have hview := view_store_view n start
          obtain ⟨hpre, hrest, howns'⟩ := chain_loaded howns hlinked
          have hlen : chain.length < fuel := by
            simp only [List.length_cons] at hfuel
            omega
          have hmono : ∀ {m : Node}, Frame (· ∈ chain) (n.store start (n.view start)) m →
              Frame (· ∈ start :: chain) n m := fun hm =>
            hstored.trans (hm.mono fun c hc => List.mem_cons_of_mem _ hc)
          rcases ih howns' hrest hpre hlen with
            ⟨hnone, n', hloop, hv, hf, hframe⟩ |
              ⟨xs, id, ys, n', rfl, hxs, hid, hloop, hv, hf, hframe⟩
          · left
            rw [hview] at hnone hv
            refine ⟨?_, n', hloop, hv, hf, hmono hframe⟩
            rw [List.forall_mem_cons]
            exact ⟨hrem, hnone⟩
          · right
            rw [hview] at hxs hid hloop hv
            rw [nextOf_of_view hview] at hloop
            refine ⟨start :: xs, id, ys, n', rfl, ?_, hid, hloop, hv, hf, hmono hframe⟩
            rw [List.forall_mem_cons]
            exact ⟨hrem, hxs⟩

/-! ## A removal -/

section Parts

variable {owner : UInt32} {xs ys : List BlockId}

/-- **A block that is not the newest one leaves the chain, and the rest stays as it is.** -/
theorem Holds.deleteBlock (h : n.Holds owner (xs ++ id :: ys)) (hnext : n.nextOf id ≠ none) :
    xs ≠ [] ∧ (n.deleteBlock id true).Holds owner (xs ++ ys) ∧
      Frame (· ∈ xs ++ id :: ys) n (n.deleteBlock id true) ∧
      (n.deleteBlock id true).files = n.files ∧
      ∀ zs, (n.deleteBlock id true).itemsOf zs = n.itemsOf zs := by
  obtain ⟨-, hndy, hdisj⟩ := List.nodup_append'.mp h.nodup
  have hne : ∀ c ∈ xs ++ ys, c ≠ id := by
    rintro c hc rfl
    rcases List.mem_append.mp hc with hc | hc
    · exact hdisj hc List.mem_cons_self
    · exact (List.nodup_cons.mp hndy).1 hc
  have hsub : ∀ c ∈ xs ++ ys, c ∈ xs ++ id :: ys := by
    intro c hc
    rcases List.mem_append.mp hc with hc | hc
    · exact List.mem_append_left _ hc
    · exact List.mem_append_right _ (List.mem_cons_of_mem _ hc)
  obtain ⟨hpreId, hnextId⟩ := h.linked.links
  rw [Option.or_none] at hpreId hnextId
  obtain ⟨b, hb⟩ := Option.ne_none_iff_exists'.mp hnext
  have hlast : xs.getLast? = some b := by rw [← hnextId, hb]
  have hbxs : b ∈ xs := List.mem_of_getLast? hlast
  have hpreMem : ∀ c ∈ n.preOf id, c ∈ ys := by
    intro c hc
    rw [hpreId] at hc
    exact List.mem_of_head? hc
  have hlink := relinks_deleteBlock (h.owns id (List.mem_append_right xs List.mem_cons_self)) hb
    (h.owns b (List.mem_append_left _ hbxs))
    fun c hc => h.owns c (List.mem_append_right xs (List.mem_cons_of_mem id (hpreMem c hc)))
  refine ⟨List.ne_nil_of_mem hbxs, ⟨fun c hc => hlink.owns (h.owns c (hsub c hc)), ?_, ?_⟩, ?_,
    hlink.files, fun zs => itemsOf_congr fun c _ => hlink.items c⟩
  · exact h.nodup.sublist (List.Sublist.append_left (List.sublist_cons_self id ys) xs)
  · refine h.linked.unlink h.nodup ?_ ?_ ?_ ?_
    · intro c hc
      obtain rfl : b = c := Option.some.inj (hlast.symm.trans hc)
      rw [hlink.pre, update_of_ne (hne b (List.mem_append_left ys hbxs)),
        update_self, hpreId, Option.or_none]
    · intro c hc hcb
      have hcb' : c ≠ b := fun he => hcb (he ▸ hlast)
      rw [hlink.pre, update_of_ne (hne c hc), update_of_ne hcb']
    · intro c hc
      have hhead : ys.head? = some c := hc
      rw [hlink.next, update_of_ne
        (hne c (List.mem_append_right xs (List.mem_of_head? hc))), hpreId, if_pos hhead, hlast]
      rfl
    · intro c hc hcy
      rw [hlink.next, update_of_ne (hne c hc), hpreId, if_neg hcy]
  · refine hlink.frame.mono ?_
    rintro c (rfl | rfl | hc)
    · exact List.mem_append_right xs List.mem_cons_self
    · exact List.mem_append_left _ hbxs
    · exact List.mem_append_right xs (List.mem_cons_of_mem _ (hpreMem c hc))

theorem not_mem_of_not_remove {c : BlockId} (hc : ((n.view c).remove feed).1 = false) :
    ¬ ∃ a ∈ (n.view c).items, a.feed = feed := by
  intro hex
  rw [(Block.remove_fst _ feed).mpr hex] at hc
  cases hc

/-- The feed is taken from the first block that has it. -/
theorem dropFirst_itemsOf (hxs : ∀ c ∈ xs, ((n.view c).remove feed).1 = false)
    (hid : ((n.view id).remove feed).1 = true) :
    dropFirst feed (n.itemsOf (xs ++ id :: ys)) =
      n.itemsOf xs ++ dropFeed feed (n.view id).items :: n.itemsOf ys := by
  rw [itemsOf_append]
  refine dropFirst_append ?_ ((Block.remove_fst _ feed).mp hid)
  intro l hl
  obtain ⟨c, hc, rfl⟩ := List.mem_map.mp hl
  exact not_mem_of_not_remove (hxs c hc)

/-- When the block has lost the feed and the removal is logged, the chain is as it was, and so are
the feeds of its other blocks. -/
theorem Holds.changed (h : n.Holds owner (xs ++ id :: ys))
    (hlogged : Changes (· ∈ xs ++ id :: ys) n n' id ((n.view id).remove feed).2) :
    n'.Holds owner (xs ++ id :: ys) ∧ n'.nextOf = n.nextOf ∧ n'.itemsOf xs = n.itemsOf xs ∧
      n'.itemsOf (id :: ys) = dropFeed feed (n.view id).items :: n.itemsOf ys := by
  have hpre := hlogged.map_eq (fun b => b.pre.ptr) rfl
  have hnext := hlogged.map_eq (fun b => b.next.ptr) rfl
  have huser := congrFun (hlogged.map_eq (fun b => b.head.userId) rfl)
  have hitems : ∀ c, (n'.view c).items =
      update (fun c => (n.view c).items) id (dropFeed feed (n.view id).items) c := by
    rw [← Block.items_remove]
    exact congrFun (hlogged.map fun b => b.items)
  obtain ⟨-, hndy, hdisj⟩ := List.nodup_append'.mp h.nodup
  refine ⟨h.of_same (by rw [hlogged.files]; exact List.Subset.refl _) (fun c _ => huser c) ?_, hnext,
    itemsOf_congr fun c hc => ?_, ?_⟩
  · exact fun c _ => ⟨congrFun hpre c, congrFun hnext c⟩
  · have hne : c ≠ id := by
      rintro rfl
      exact hdisj hc List.mem_cons_self
    rw [hitems, update_of_ne hne]
  · have hys : n'.itemsOf ys = n.itemsOf ys := itemsOf_congr fun c hc => by
      have hne : c ≠ id := by
        rintro rfl
        exact (List.nodup_cons.mp hndy).1 hc
      rw [hitems, update_of_ne hne]
    rw [← hys]
    unfold itemsOf
    rw [List.map_cons, hitems, update_self]

end Parts

/-- **A removal takes the feed from the first block of the chain that has it; if that block
is then empty and not the newest one, it leaves the chain.** -/
theorem Holds.removed (h : n.Holds owner chain) (blk : BlockInfo)
    (hstart : blk.id.ptr = chain.head?) (hfuel : chain.length < fuel) (hfeed : 0 < feed) :
    ∃ chain', (n.asyncRemove blk feed fuel).Holds owner chain' ∧ chain'.head? = chain.head? ∧
      chain' ⊆ chain ∧ Frame (· ∈ chain) n (n.asyncRemove blk feed fuel) ∧
      (n.asyncRemove blk feed fuel).files = n.files ∧
      KeptAs ((n.asyncRemove blk feed fuel).itemsOf chain') (dropFirst feed (n.itemsOf chain)) := by
  have hremove : n.asyncRemove blk feed fuel = n.remove blk feed true true fuel := by
    unfold asyncRemove handleTask
    dsimp only
    rw [if_pos (by omega), Int.neg_neg]
  rw [hremove]
  unfold remove
  rcases removeLoop_chain h.owns h.linked hstart hfuel feed with
    ⟨hnone, n', hloop, hview, hfiles, hframe⟩ |
      ⟨xs, id, ys, n₁, rfl, hxs, hid, hloop, hview, hfiles, hframe⟩
  · rw [hloop]
    dsimp only
    refine ⟨chain, ?_, rfl, List.Subset.refl _, hframe, hfiles, ?_⟩
    · refine h.of_same (by rw [hfiles]; exact List.Subset.refl _) ?_ ?_
      · exact fun c _ => by rw [hview]
      · exact fun c _ => by rw [preOf_of_view hview, nextOf_of_view hview]; exact ⟨rfl, rfl⟩
    · have hsame : dropFirst feed (n.itemsOf chain) = n.itemsOf chain := by
        refine dropFirst_of_not fun l hl => ?_
        obtain ⟨c, hc, rfl⟩ := List.mem_map.mp hl
        exact not_mem_of_not_remove (hnone c hc)
      rw [hsame, itemsOf_of_view hview]
      exact ⟨rfl, rfl⟩
  · rw [hloop]
    simp only [if_true]
    have hown := h.owns id (List.mem_append_right xs List.mem_cons_self)
    have hfile₁ : (specialRecord (-feed) blk.userId 0 id ⟨0, 0⟩).blk.fileId ∈ n₁.files := by
      rw [hfiles]
      exact hown.file
    -- the record of the removal is logged
    have hlogged : Changes (· ∈ xs ++ id :: ys) n
        (n₁.logTo (specialRecord (-feed) blk.userId 0 id ⟨0, 0⟩)) id ((n.view id).remove feed).2 :=
      ⟨(logTo_files hfile₁).trans hfiles, hframe.trans (frame_logTo _ _), by rw [logTo_view, hview]⟩
    generalize n₁.logTo (specialRecord (-feed) blk.userId 0 id ⟨0, 0⟩) = n₂ at hlogged
    obtain ⟨hholds₂, hnext₂, hxs₂, hys₂⟩ := h.changed hlogged
    rw [dropFirst_itemsOf hxs hid]
    by_cases hdel : ((n.view id).remove feed).2.isEmpty = true ∧ n.nextOf id ≠ none
    · rw [decide_eq_true hdel, if_pos rfl]
      obtain ⟨hempty, hnext⟩ := hdel
      rw [← hnext₂] at hnext
      obtain ⟨hxsne, hholds₃, hframe₃, hfiles₃, hitems₃⟩ := hholds₂.deleteBlock hnext
      refine ⟨xs ++ ys, hholds₃, ?_, ?_, hlogged.frame.trans hframe₃, hfiles₃.trans hlogged.files, ?_⟩
      · cases xs with
        | nil => exact absurd rfl hxsne
        | cons x xs => rfl
      · intro c hc
        rcases List.mem_append.mp hc with hc | hc
        · exact List.mem_append_left _ hc
        · exact List.mem_append_right _ (List.mem_cons_of_mem _ hc)
      · have hnil : dropFeed feed (n.view id).items = [] := by
          rw [← Block.items_remove]
          exact List.isEmpty_iff.mp hempty
        have hys₃ : n₂.itemsOf ys = n.itemsOf ys := by
          rw [itemsOf, List.map_cons] at hys₂
          exact (List.cons.inj hys₂).2
        rw [hnil, hitems₃, itemsOf_append, hxs₂, hys₃]
        refine keptAs_drop_empty fun hxsnil => ?_
        rw [itemsOf, List.map_eq_nil_iff] at hxsnil
        exact hxsne hxsnil
    · rw [decide_eq_false hdel, if_neg Bool.false_ne_true]
      refine ⟨xs ++ id :: ys, hholds₂, rfl, List.Subset.refl _, hlogged.frame, hlogged.files, ?_⟩
      rw [itemsOf_append, hxs₂, hys₂]
      exact ⟨rfl, rfl⟩

end Node

end Oce.FeedDB
