import Mathlib.Data.List.Nodup
import Mathlib.Data.List.Perm.Subperm
import Oce.Base.Run
import Oce.FeedCacheN.Analysis.Sweeps

/-!
# Runs of a user's feeds

`FeedOp.Does` says what each operation is for, as a change of the list of stored feeds; a feed that
is put may push out the oldest. A ring does that, and has the size of its list, as long as
every operation fits (`FeedOp.Fits`). What does not fit are the feeds that are stored more
than once and the ids and merge ids that stand for nothing:

* a removal by id takes out one copy, or all of them and one off the size;
* a removal by merge removes by the ids that it has found, so it may take other copies, and if it
  tidies then it takes one off the size for all copies;
* a free slot has the id 0, and its old merge id: a rejection of 0 counts it, and a removal of
  what merges with 0 finds it;
* a merge id of -1 is taken for a feed that is not there.
-/

set_option autoImplicit false

namespace Oce.FeedCacheN

open Oce.Base

variable {u : UserFeed} {item e : FeedItem} {l : List FeedItem}

variable {q : FeedItem → Bool} {feedId : ℤ}

/-! ## What the operations are for -/

/-- The feeds before and after an operation. -/
def FeedOp.Does (l l' : List FeedItem) : FeedOp → Prop
  | put item => if item.feed ≤ 0 then l' = l else l' = item :: l ∨ l' = item :: l.dropLast
  | modify item => l' = UserFeed.replaceNewest item l
  | remove _ feedId => l' = l.filter fun e => e.feed ≠ feedId
  | removeByMerge _ mergeId stype => l' = l.filter fun e => ¬ e.merges mergeId stype
  | removeMergeByFeedId _ feedId =>
    match l.find? fun e => e.feed = feedId with
    | none => l' = l
    | some e => l' = l.filter fun e' => ¬ e'.merges e.merge e.stype
  | reject rejectedIds => l' = l.filter fun e => e.feed ∉ rejectedIds
  | removeAll => l' = []

instance (l l' : List FeedItem) (op : FeedOp) : Decidable (op.Does l l') := by
  cases op with
  | removeMergeByFeedId d feedId =>
      unfold FeedOp.Does
      dsimp only
      split <;> infer_instance
  | _ =>
      unfold FeedOp.Does
      infer_instance

/-- The size is the number of slots with a feed, within bounds, and the feeds above every id are
got in the order of the ring. -/
structure UserFeed.Holds (u : UserFeed) : Prop where
  size : u.size = (List.range feedCount).countP fun i => (u.feeds i).feed ≠ 0
  nonneg : 0 ≤ u.size
  le : u.size ≤ feedCount
  getMore : ∀ maxFeed, u.getMore maxFeed = u.stored.filter fun e => maxFeed < e.feed

/-- Every state of the run is consistent and every operation does what it is for. -/
def Consistent (ops : List FeedOp) : Prop :=
  ∀ k, (runOps FeedOp.step .new (ops.take k)).Holds ∧
    ∀ op, ops[k]? = some op → op.Does (runOps FeedOp.step .new (ops.take k)).stored
      (runOps FeedOp.step .new (ops.take (k + 1))).stored

/-! ## When they do it -/

/-- How often an id is stored. -/
def copies (l : List FeedItem) (feedId : ℤ) : ℕ := l.countP fun e => e.feed = feedId

/-- The feeds that merge have no copies that do not, and each is stored once, or else the removal
of all of them does not tidy. -/
def MergeFits (u : UserFeed) (deletedCount mergeId stype : ℤ) : Prop :=
  (∀ e ∈ u.stored, e.feed ∈ (u.stored.filter fun e => e.merges mergeId stype).map FeedItem.feed →
      e.merges mergeId stype = true) ∧
    ((∀ e ∈ u.stored, e.merges mergeId stype = true → copies u.stored e.feed ≤ 1) ∨
      u.deletedCount + u.stored.countP (fun e => e.merges mergeId stype) ≤ deletedCount)

instance (u : UserFeed) (deletedCount mergeId stype : ℤ) :
    Decidable (MergeFits u deletedCount mergeId stype) := inferInstanceAs (Decidable (_ ∧ _))

/-- The operation meets no feed that is stored twice and no value that stands for nothing. -/
def FeedOp.Fits (u : UserFeed) : FeedOp → Prop
  | remove _ feedId => copies u.stored feedId ≤ 1
  | removeByMerge deletedCount mergeId stype => MergeFits u deletedCount mergeId stype
  | removeMergeByFeedId deletedCount feedId =>
    (feedId = 0 → u.Packed) ∧
      ∀ e ∈ u.stored.find? fun e => e.feed = feedId,
        e.merge ≠ -1 ∧ MergeFits u deletedCount e.merge e.stype
  | reject rejectedIds => 0 ∈ rejectedIds → u.Packed
  | _ => True

instance (u : UserFeed) (op : FeedOp) : Decidable (op.Fits u) := by
  cases op <;> unfold FeedOp.Fits <;> infer_instance

namespace UserFeed

/-! ## Slots and places -/

theorem length_filled (f : ℕ → FeedItem) (k : ℕ) :
    (filled f 0 k).length = (List.range k).countP fun j => (f j).feed ≠ 0 := by
  induction k with
  | zero => rfl
  | succ k ih =>
      rw [filled, List.length_append, ih, List.range_succ, List.countP_append, Nat.zero_add,
        Nat.add_comm]
      congr 1
      unfold occupant
      by_cases hk : (f k).feed = 0 <;> simp [hk]

/-- **The stored feeds are as many as the slots with a feed.** -/
theorem length_stored (u : UserFeed) :
    u.stored.length = (List.range feedCount).countP fun i => (u.feeds i).feed ≠ 0 := by
  have hperm : ((List.range feedCount).map u.slot).Perm (List.range feedCount) := by
    have hnodup : ((List.range feedCount).map u.slot).Nodup := by
      refine List.Nodup.map_on (fun a ha b hb h => ?_) List.nodup_range
      exact (slot_inj (List.mem_range.mp ha) (List.mem_range.mp hb)).mp h
    refine (hnodup.subperm fun i hi => ?_).perm_of_length_le (by simp)
    obtain ⟨j, -, rfl⟩ := List.mem_map.mp hi
    exact List.mem_range.mpr (Nat.mod_lt _ (by decide))
  rw [← hperm.countP_eq, List.countP_map]
  exact length_filled u.look feedCount

theorem Sound.holds (hu : u.Sound) : u.Holds where
  size := by rw [hu.size, length_stored]
  nonneg := by rw [hu.size]; exact Int.natCast_nonneg _
  le := by rw [hu.size]; exact_mod_cast u.length_stored_le
  getMore := hu.getMore_eq

/-! ## Putting and modifying -/

/-- The newest slot is the one that was the oldest. -/
theorem look_put (hitem : 0 < item.feed) {j : ℕ} (hj : j < feedCount) :
    (u.put item).2.look j = if j + 1 = feedCount then item else u.look (j + 1) := by
  unfold put
  rw [if_neg (not_le.mpr hitem)]
  show Function.update u.feeds ((u.endPos + 0) % feedCount) item
    (((u.endPos + 1) % feedCount + j) % feedCount) = _
  by_cases hlast : j + 1 = feedCount
  · have hslot : ((u.endPos + 1) % feedCount + j) % feedCount = (u.endPos + 0) % feedCount := by
      unfold feedCount at *
      omega
    rw [if_pos hlast, hslot, Function.update_self]
  · have hslot : ((u.endPos + 1) % feedCount + j) % feedCount = (u.endPos + (j + 1)) % feedCount := by
      unfold feedCount at *
      omega
    have hother : (u.endPos + (j + 1)) % feedCount ≠ (u.endPos + 0) % feedCount := by
      unfold feedCount at *
      omega
    rw [if_neg hlast, hslot, Function.update_of_ne hother]
    rfl

theorem stored_put (hitem : 0 < item.feed) : (u.put item).2.stored = item :: above u.look 1 := by
  obtain ⟨m, hm⟩ : ∃ m, feedCount = m + 1 := ⟨249, rfl⟩
  have hlast : (u.put item).2.look m = item := by
    rw [look_put hitem (by omega), if_pos hm.symm]
  have hrest : filled (u.put item).2.look 0 m = filled (fun j => u.look (j + 1)) 0 m :=
    filled_congr fun j _ hj => by rw [look_put hitem (by omega), if_neg (by omega)]
  unfold stored above
  rw [hm, Nat.sub_zero, filled, Nat.zero_add, hlast, occupant_of_ne hitem.ne', hrest, filled_shift]
  rfl

/-- **What is put may push out the oldest feed.** -/
theorem put_spec (hu : u.Sound) (hitem : 0 < item.feed) :
    ((u.put item).2.stored = item :: u.stored ∨ (u.put item).2.stored = item :: u.stored.dropLast) ∧
      (u.put item).2.Sound := by
  have hold : u.stored = above u.look 1 ++ occupant (u.look 0) := above_eq _ (by decide)
  have hlen : (above u.look 1).length ≤ feedCount - 1 := length_filled_le _ _ _
  have hsize : (u.put item).2.size =
      if (u.look 0).feed = 0 then min (u.size + 1) feedCount else u.size := by
    unfold put
    rw [if_neg (not_le.mpr hitem)]
  have hnonneg : ∀ i, 0 ≤ ((u.put item).2.feeds i).feed := by
    unfold put
    rw [if_neg (not_le.mpr hitem)]
    exact feed_setAt_nonneg hu.nonneg hitem.le _
  have hfeeds : feedCount = 250 := rfl
  have hu' := hu.size
  rw [hold, List.length_append] at hu'
  by_cases hzero : (u.look 0).feed = 0
  · rw [occupant_of_eq hzero] at hu' hold
    refine ⟨.inl (by rw [stored_put hitem, hold, List.append_nil]), ?_, hnonneg⟩
    rw [hsize, if_pos hzero, stored_put hitem, hu', List.length_cons, List.length_nil]
    omega
  · rw [occupant_of_ne hzero] at hu' hold
    refine ⟨.inr (by rw [stored_put hitem, hold, List.dropLast_concat]), ?_, hnonneg⟩
    rw [hsize, if_neg hzero, stored_put hitem, hu']
    simp

theorem length_replaceNewest (item : FeedItem) (l : List FeedItem) :
    (replaceNewest item l).length = l.length := by
  induction l with
  | nil => rfl
  | cons e l ih =>
      unfold replaceNewest
      split
      · rfl
      · rw [List.length_cons, ih, List.length_cons]

theorem replaceNewest_of_not_mem (h : ∀ e ∈ l, e.feed ≠ item.feed) : replaceNewest item l = l := by
  induction l with
  | nil => rfl
  | cons e l ih =>
      rw [replaceNewest, if_neg (h e (by simp)), ih fun e' he' => h e' (List.mem_cons_of_mem _ he')]

theorem modify_spec (hu : u.Sound) (item : FeedItem) :
    (u.modify item).stored = replaceNewest item u.stored ∧ (u.modify item).Sound := by
  unfold modify
  by_cases hzero : item.feed = 0
  · have hnone : ∀ e ∈ u.stored, e.feed ≠ item.feed := fun e he => hzero ▸ feed_ne_zero he
    rw [if_pos hzero, replaceNewest_of_not_mem hnone]
    exact ⟨rfl, hu⟩
  · have hc : (0 : ℤ) + (below u.look feedCount).length = u.size := by
      rw [hu.size, Int.zero_add]
      rfl
    obtain ⟨hstored, hsize, hfeeds⟩ := modifyLoop_spec hzero (le_refl feedCount) hc
    rw [above_feedCount, List.nil_append] at hstored
    rw [if_neg hzero]
    refine ⟨hstored, ?_, fun i => ?_⟩
    · rw [hsize, hstored, length_replaceNewest]
      exact hu.size
    · rcases hfeeds i with h | ⟨h, j, hj⟩
      · rw [h]
        exact hu.nonneg i
      · rw [h, ← hj]
        exact hu.nonneg _

/-! ## Removing -/

theorem filter_eq_eraseP (h : l.countP q ≤ 1) : l.filter (fun e => ¬ q e) = l.eraseP q := by
  induction l with
  | nil => rfl
  | cons e l ih =>
      rw [List.countP_cons] at h
      by_cases hq : q e = true
      · rw [if_pos hq] at h
        have hnone : ∀ e' ∈ l, ¬ q e' = true := List.countP_eq_zero.mp (by omega)
        rw [List.filter_cons_of_neg (by simpa using hq), List.eraseP_cons_of_pos hq]
        exact List.filter_eq_self.mpr fun e' he' => by simpa using hnone e' he'
      · rw [List.filter_cons_of_pos (by simpa using hq), List.eraseP_cons_of_neg hq,
          ih (by omega)]

theorem countP_eq_ite (h : l.countP q ≤ 1) : l.countP q = if l.any q then 1 else 0 := by
  by_cases hany : l.any q = true
  · obtain ⟨e, he, hq⟩ := List.any_eq_true.mp hany
    have hpos : 0 < l.countP q := List.countP_pos_iff.mpr ⟨e, he, hq⟩
    rw [if_pos hany]
    omega
  · rw [if_neg hany]
    refine List.countP_eq_zero.mpr fun e he hq => hany (List.any_eq_true.mpr ⟨e, he, hq⟩)

/-- The loop of a removal by id. -/
theorem sweepLoop_id (hu : u.Sound) {tidy : Bool} (hid : feedId ≠ 0)
    (h : copies u.stored feedId ≤ 1 ∨ tidy = false) {s : Sweep}
    (hs : s = sweepLoop (fun feed => feed = feedId) tidy u.size feedCount ⟨u, -1, 0, 0⟩) :
    s.user.stored = u.stored.eraseP (fun e => e.feed = feedId) ∧
      s.taken = (if u.stored.any (fun e => e.feed = feedId) then 1 else 0) ∧
      u.Rises s.user ∧ ∀ i, 0 ≤ (s.user.feeds i).feed := by
  have hp : decide ((0 : ℤ) = feedId) = false := by simpa using Ne.symm hid
  subst hs
  cases tidy with
  | false =>
      have hc : (0 : ℤ) + (below u.look feedCount).length = u.size := by
        rw [hu.size, Int.zero_add]
        rfl
      have hfirst := sweepLoop_first (p := fun feed => decide (feed = feedId)) (-1) 0 hu.nonneg
        (le_refl feedCount) hp hc
      rw [above_feedCount, List.nil_append, Nat.zero_add] at hfirst
      exact hfirst
  | true =>
      have hone : copies u.stored feedId ≤ 1 := h.resolve_right (by simp)
      obtain ⟨hstored, htaken, hrest⟩ := sweepLoop_tidy
        (Sweeping.init (p := fun feed => decide (feed = feedId)) hu.nonneg) (le_refl feedCount) hu.size
        (fun h0 => by rw [hp] at h0; cases h0)
      rw [filter_eq_eraseP hone] at hstored
      rw [countP_eq_ite hone] at htaken
      exact ⟨hstored, htaken, hrest⟩

/-- **A removal takes out the newest copy**, if there is one copy or it does not tidy. -/
theorem remove_spec (hu : u.Sound) (deletedCount feedId : ℤ)
    (h : copies u.stored feedId ≤ 1 ∨ u.deletedCount < deletedCount) :
    (u.remove deletedCount feedId).stored = u.stored.eraseP (fun e => e.feed = feedId) ∧
      (u.remove deletedCount feedId).Sound ∧
      u.Rises (u.remove deletedCount feedId) ∧
      (u.deletedCount < deletedCount →
        (u.remove deletedCount feedId).deletedCount ≤ u.deletedCount + 1) := by
  unfold remove
  by_cases hid : feedId = 0
  · rw [if_pos hid, List.eraseP_of_forall_not fun e he => by simpa [hid] using feed_ne_zero he]
    exact ⟨rfl, hu, Rises.refl u, fun _ => by omega⟩
  · rw [if_neg hid]
    dsimp only
    generalize hs : sweepLoop _ _ u.size feedCount ⟨u, -1, 0, 0⟩ = s
    obtain ⟨hstored, htaken, hrises, hnonneg⟩ := sweepLoop_id hu hid
      (h.imp_right fun hlt => decide_eq_false (not_le.mpr hlt)) hs.symm
    refine ⟨hstored, ⟨?_, hnonneg⟩, hrises, fun hlt => ?_⟩
    · show (if 0 < s.taken then u.size - 1 else u.size) = (s.user.stored.length : ℤ)
      rw [hstored, htaken, List.length_eraseP, hu.size]
      by_cases hany : u.stored.any (fun e => decide (e.feed = feedId)) = true
      · obtain ⟨e, he, -⟩ := List.any_eq_true.mp hany
        have hpos : 0 < u.stored.length := List.length_pos_of_mem he
        rw [if_pos hany, if_pos hany, if_pos (by decide)]
        omega
      · rw [if_neg hany, if_neg hany, if_neg (by decide)]
    · rw [decide_eq_false (not_le.mpr hlt), if_neg (by simp)]
      split <;> omega

/-- A removal by id, of a feed that is stored at most once. -/
theorem remove_once (hu : u.Sound) (deletedCount : ℤ) (h : copies u.stored feedId ≤ 1) :
    (u.remove deletedCount feedId).stored = u.stored.filter (fun e => e.feed ≠ feedId) ∧
      (u.remove deletedCount feedId).Sound ∧
      u.Rises (u.remove deletedCount feedId) := by
  obtain ⟨hstored, hsound, hrises, -⟩ := remove_spec hu deletedCount feedId (.inl h)
  refine ⟨?_, hsound, hrises⟩
  rw [hstored, ← filter_eq_eraseP h]
  simp

/-- A rejection takes out every feed that is listed. -/
theorem reject_spec (hu : u.Sound) (rejectedIds : List ℤ) (h : 0 ∈ rejectedIds → u.Packed) :
    (u.reject rejectedIds).stored = u.stored.filter (fun e => e.feed ∉ rejectedIds) ∧
      (u.reject rejectedIds).Sound ∧ u.Rises (u.reject rejectedIds) := by
  obtain ⟨hstored, htaken, hrises, hnonneg⟩ := sweepLoop_tidy
    (Sweeping.init (p := fun feed => decide (feed ∈ rejectedIds)) hu.nonneg) (le_refl feedCount) hu.size
    (fun h0 => h (of_decide_eq_true h0))
  have hfilter : (u.reject rejectedIds).stored = u.stored.filter (fun e => e.feed ∉ rejectedIds) := by
    refine hstored.trans ?_
    simp
  refine ⟨hfilter, ⟨?_, hnonneg⟩, hrises⟩
  have hlen := List.length_eq_countP_add_countP (fun e : FeedItem => decide (e.feed ∈ rejectedIds))
    (l := u.stored)
  have hcount : (u.stored.filter fun e => e.feed ∉ rejectedIds).length =
      u.stored.countP fun e => ¬ decide (e.feed ∈ rejectedIds) = true := by
    rw [List.countP_eq_length_filter]
    simp
  rw [hfilter, hcount]
  show u.size - ((sweepLoop _ true u.size feedCount ⟨u, -1, 0, 0⟩).taken : ℤ) = _
  rw [htaken, hu.size, hlen]
  push_cast
  omega

/-! ## Removing what merges -/

theorem foldl_remove_filter (deletedCount : ℤ) (ids : List ℤ) (u : UserFeed) :
    ids.foldl (fun u feedId => u.remove deletedCount feedId) u =
      (ids.filter fun feedId => feedId ≠ 0).foldl (fun u feedId => u.remove deletedCount feedId) u := by
  induction ids generalizing u with
  | nil => rfl
  | cons feedId ids ih =>
      by_cases hid : feedId = 0
      · subst hid
        rw [List.foldl_cons, ih, List.filter_cons_of_neg (by simp)]
        rfl
      · rw [List.foldl_cons, ih, List.filter_cons_of_pos (by simpa using hid), List.foldl_cons]

/-- The newest copy of each id goes, one after the other. -/
theorem foldl_remove_spec (deletedCount : ℤ) (ids : List ℤ) (hu : u.Sound)
    (h : (∀ feedId ∈ ids, copies u.stored feedId ≤ 1) ∨ u.deletedCount + ids.length ≤ deletedCount) :
    (ids.foldl (fun u feedId => u.remove deletedCount feedId) u).stored =
        ids.foldl (fun l feedId => l.eraseP fun e => e.feed = feedId) u.stored ∧
      (ids.foldl (fun u feedId => u.remove deletedCount feedId) u).Sound ∧
      u.Rises (ids.foldl (fun u feedId => u.remove deletedCount feedId) u) := by
  induction ids generalizing u with
  | nil => exact ⟨rfl, hu, Rises.refl u⟩
  | cons feedId ids ih =>
      have hfirst : copies u.stored feedId ≤ 1 ∨ u.deletedCount < deletedCount := by
        refine h.imp (fun hone => hone feedId (by simp)) fun hroom => ?_
        rw [List.length_cons] at hroom
        push_cast at hroom
        omega
      obtain ⟨hstored, hsound, hrises, hcount⟩ := remove_spec hu deletedCount feedId hfirst
      have hothers : (∀ feedId' ∈ ids, copies (u.remove deletedCount feedId).stored feedId' ≤ 1) ∨
          (u.remove deletedCount feedId).deletedCount + ids.length ≤ deletedCount := by
        refine h.imp (fun hone feedId' hmem => ?_) fun hroom => ?_
        · rw [hstored]
          exact List.eraseP_sublist.countP_le.trans (hone feedId' (List.mem_cons_of_mem _ hmem))
        · rw [List.length_cons] at hroom
          push_cast at hroom
          have hnext := hcount (by omega)
          omega
      obtain ⟨hrest, hrest_sound, hrest_rises⟩ := ih hsound hothers
      rw [List.foldl_cons, List.foldl_cons, ← hstored]
      exact ⟨hrest, hrest_sound, hrises.trans hrest_rises⟩

theorem foldl_eraseP_cons {ids : List ℤ} (h : e.feed ∉ ids) (l : List FeedItem) :
    ids.foldl (fun l feedId => l.eraseP fun e => e.feed = feedId) (e :: l) =
      e :: ids.foldl (fun l feedId => l.eraseP fun e => e.feed = feedId) l := by
  induction ids generalizing l with
  | nil => rfl
  | cons feedId ids ih =>
      rw [List.mem_cons, not_or] at h
      rw [List.foldl_cons, List.foldl_cons, List.eraseP_cons_of_neg (by simpa using h.1), ih h.2]

/-- If the ids are those of what `q` says and of nothing else, that is what goes. -/
theorem foldl_eraseP_ids (h : ∀ e ∈ l, e.feed ∈ (l.filter q).map FeedItem.feed → q e = true) :
    ((l.filter q).map FeedItem.feed).foldl (fun l feedId => l.eraseP fun e => e.feed = feedId) l =
      l.filter fun e => ¬ q e := by
  induction l with
  | nil => rfl
  | cons e l ih =>
      by_cases hq : q e = true
      · have hrest : ∀ e' ∈ l, e'.feed ∈ (l.filter q).map FeedItem.feed → q e' = true := by
          intro e' he' hmem
          refine h e' (List.mem_cons_of_mem _ he') ?_
          rw [List.filter_cons_of_pos hq, List.map_cons]
          exact List.mem_cons_of_mem _ hmem
        rw [List.filter_cons_of_pos hq, List.map_cons, List.foldl_cons,
          List.eraseP_cons_of_pos (by simp), ih hrest, List.filter_cons_of_neg (by simpa using hq)]
      · have hfilter : (e :: l).filter q = l.filter q := List.filter_cons_of_neg hq
        have hnot : e.feed ∉ (l.filter q).map FeedItem.feed := fun hmem =>
          hq (h e (by simp) (by rw [hfilter]; exact hmem))
        have hrest : ∀ e' ∈ l, e'.feed ∈ (l.filter q).map FeedItem.feed → q e' = true := by
          intro e' he' hmem
          exact h e' (List.mem_cons_of_mem _ he') (by rw [hfilter]; exact hmem)
        rw [hfilter, foldl_eraseP_cons hnot, ih hrest, List.filter_cons_of_pos (by simpa using hq)]

/-- **A removal by merge takes out what merges and nothing else.** -/
theorem removeByMerge_spec (hu : u.Sound) {deletedCount mergeId stype : ℤ}
    (h : MergeFits u deletedCount mergeId stype) :
    (u.removeByMerge deletedCount mergeId stype).2.stored =
        u.stored.filter (fun e => ¬ e.merges mergeId stype) ∧
      (u.removeByMerge deletedCount mergeId stype).2.Sound ∧
      u.Rises (u.removeByMerge deletedCount mergeId stype).2 := by
  have hc : (0 : ℤ) + (below u.look feedCount).length = u.size := by
    rw [hu.size, Int.zero_add]
    rfl
  have hids := mergeLoop_eq mergeId stype hc
  rw [below_feedCount] at hids
  unfold removeByMerge
  dsimp only
  rw [foldl_remove_filter, hids]
  obtain ⟨hcopies, hroom⟩ := h
  obtain ⟨hstored, hrest⟩ := foldl_remove_spec deletedCount
    ((u.stored.filter fun e => e.merges mergeId stype).map FeedItem.feed) hu (by
      refine hroom.imp (fun hone feedId hmem => ?_) fun hroom => ?_
      · obtain ⟨e, he, rfl⟩ := List.mem_map.mp hmem
        obtain ⟨he, hm⟩ := List.mem_filter.mp he
        exact hone e he hm
      · rw [List.length_map, ← List.countP_eq_length_filter]
        exact hroom)
  exact ⟨hstored.trans (foldl_eraseP_ids hcopies), hrest⟩

end UserFeed

/-! ## Runs -/

theorem UserFeed.sound_new : UserFeed.new.Sound where
  size := by
    have hnil : UserFeed.new.stored = [] := filled_eq_nil fun _ _ _ => rfl
    rw [hnil]
    rfl
  nonneg _ := le_refl 0

/-- **An operation that fits does what it is for.** -/
theorem FeedOp.step_spec (hu : u.Sound) (op : FeedOp) (h : op.Fits u) :
    (op.step u).Sound ∧ op.Does u.stored (op.step u).stored := by
  cases op with
  | put item =>
      unfold FeedOp.Does FeedOp.step
      dsimp only
      by_cases hitem : item.feed ≤ 0
      · rw [if_pos hitem]
        unfold UserFeed.put
        rw [if_pos hitem]
        exact ⟨hu, rfl⟩
      · rw [if_neg hitem]
        have hput := UserFeed.put_spec hu (not_le.mp hitem)
        exact ⟨hput.2, hput.1⟩
  | modify item =>
      have hmod := UserFeed.modify_spec hu item
      exact ⟨hmod.2, hmod.1⟩
  | remove deletedCount feedId =>
      have hrem := UserFeed.remove_once hu deletedCount h
      exact ⟨hrem.2.1, hrem.1⟩
  | removeByMerge deletedCount mergeId stype =>
      have hrem := UserFeed.removeByMerge_spec hu h
      exact ⟨hrem.2.1, hrem.1⟩
  | removeMergeByFeedId deletedCount feedId =>
      obtain ⟨hpacked, hfits⟩ := h
      have hc : (0 : ℤ) + (below u.look feedCount).length = u.size := by
        rw [hu.size, Int.zero_add]
        rfl
      have hfind := UserFeed.findLoop_eq (le_refl feedCount) hpacked hc
      rw [below_feedCount] at hfind
      change _ = u.stored.find? _ at hfind
      unfold FeedOp.Does FeedOp.step UserFeed.removeMergeByFeedId
      dsimp only
      rw [hfind]
      cases hfound : u.stored.find? fun e => e.feed = feedId with
      | none => exact ⟨hu, rfl⟩
      | some e =>
          obtain ⟨hmerge, hfit⟩ := hfits e hfound
          have hrem := UserFeed.removeByMerge_spec hu hfit
          dsimp only
          rw [if_neg hmerge]
          exact ⟨hrem.2.1, hrem.1⟩
  | reject rejectedIds =>
      have hrej := UserFeed.reject_spec hu _ h
      exact ⟨hrej.2.1, hrej.1⟩
  | removeAll => exact ⟨UserFeed.sound_new, filled_eq_nil fun _ _ _ => rfl⟩

/-- **main result**: a run whose operations meet no feed that is stored twice, no free slot for the
id 0 and no merge id of -1 is consistent. -/
theorem consistent_of_fits (ops : List FeedOp)
    (h : StepsMeet FeedOp.step (fun u op => op.Fits u) .new ops) : Consistent ops := by
  have hsound : ∀ k, (runOps FeedOp.step .new (ops.take k)).Sound := fun k =>
    @run_invariant_take _ _ FeedOp.step (fun u op => op.Fits u) UserFeed.Sound
      (fun _ op hu hop => (FeedOp.step_spec hu op hop).1) _ UserFeed.sound_new ops h k
  refine fun k => ⟨(hsound k).holds, fun op hop => ?_⟩
  have hnext : runOps FeedOp.step .new (ops.take (k + 1)) =
      op.step (runOps FeedOp.step .new (ops.take k)) := by
    rw [List.take_add_one, hop, runOps_append]
    rfl
  rw [hnext]
  exact (FeedOp.step_spec (hsound k) op (h.at_step hop)).2

/-- Two feeds, the newer of which goes. -/
def twoFeeds : List FeedOp :=
  [.put ⟨1, 7, 0, 0, 0, 0⟩, .put ⟨2, 8, 0, 0, 0, 0⟩, .remove 20 2]

set_option maxRecDepth 8000 in
theorem consistent_of_fits_twoFeeds : Consistent twoFeeds :=
  consistent_of_fits twoFeeds (by decide)

set_option maxRecDepth 8000 in
/-- The free slot above the feed that is left counts as rejected, and hides that feed. -/
theorem rejected_zero_hides : ¬ Consistent (twoFeeds ++ [.reject [0]]) := by
  intro h
  have hsize := (h 4).1.size
  revert hsize
  decide

end Oce.FeedCacheN
