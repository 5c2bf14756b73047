import Oce.Base.AscSeq
import Oce.FeedCacheN.Analysis.UserFeeds
import Oce.FeedCacheN.Model.UserFeedPool

/-!
# What is cached, and what is stored

The changes of the store that the cache has not been called with (`pending`) are those that the
feeds of a cached user lack: the ring holds the newest feeds of some list (`Knows`), of which these
changes make the store (`Cached`). A removal that the load has seen already and that finds nothing
any more may be among them. A feed that the ring has been given comes into an older slot with each
put and into a newer one when a removal tidies, so that no feed is pushed out before 250 puts
(`Ages`).

A load breaks that if a change came after the read and has had its call, which did nothing as the
user was not cached, or if a put came before the read and has its call after the insertion. Calls
break it that overtake one another, unless they all remove, and so does a rejection of anything but
the oldest feeds (`Fits`).
-/

set_option autoImplicit false

namespace Oce.FeedCacheN

open Oce.Base

variable {u : UserFeed} {item e : FeedItem} {l base store given : List FeedItem} {c : Change}
  {changes : List Change} {rejected : List ℤ} {s : UserFeedPool}

variable {cs : List Change} {ids : List ℤ} {i : ℕ} {ps : List (ℕ × Change)}

/-! ## The condition -/

/-- One step of the store. -/
def storeStep (l : List FeedItem) (c : Change) : List FeedItem := c.onStore l

/-- A feed that is put has a positive id of its own. -/
def Change.Fresh (l : List FeedItem) : Change → Prop
  | put item => 0 < item.feed ∧ item.feed ∉ l.map FeedItem.feed
  | _ => True

/-- Different positive ids. -/
def Distinct (l : List FeedItem) : Prop := (l.map FeedItem.feed).Nodup ∧ ∀ e ∈ l, 0 < e.feed

namespace PoolStep

/-- A feed that is put has an id of its own; calls for a cached user come in the order of the
changes, but removals among themselves; of a load that is inserted, the changes since the
read still have to make their calls, and the earlier ones that have to are removals of nothing that
was read; a task for a cached user rejects the oldest feeds only. -/
def Fits (s : UserFeedPool) : PoolStep → Prop
  | apply c => c.Fresh s.store
  | call i _ => s.user.isSome = true → ∀ p ∈ s.pending[i]?, ∀ q ∈ s.pending.take i,
      p.2.isPut = false ∧ q.2.isPut = false
  | insert i => s.user.isNone = true → ∀ r ∈ s.loads[i]?,
      (∀ j < s.history.length, r.1 ≤ j → j ∈ s.pending.map Prod.fst) ∧
        ∀ p ∈ s.pending, p.1 < r.1 → p.2.isPut = false ∧ ∀ e ∈ r.2, p.2.keeps e = true
  | reject i enableLogicReject enableCacheReject resorted => ∀ u ∈ s.user, ∀ fis ∈ s.rejects[i]?,
      0 ∉ rejectedIds enableLogicReject enableCacheReject resorted fis ∧
        (u.stored.filter fun e =>
          e.feed ∉ rejectedIds enableLogicReject enableCacheReject resorted fis) <+: u.stored
  | _ => True

instance (l : List FeedItem) (c : Change) : Decidable (c.Fresh l) := by
  cases c <;> unfold Change.Fresh <;> infer_instance

instance (s : UserFeedPool) (op : PoolStep) : Decidable (op.Fits s) := by
  cases op <;> unfold Fits <;> infer_instance

end PoolStep

/-- When all calls are made, a cached user has the newest feeds of the store: all that no task has
rejected, or if the ring has been given as many as there is room for, all of those that are among
the last 250 of these. -/
def UserFeedPool.Agrees (s : UserFeedPool) : Prop :=
  s.pending = [] → ∀ u, s.user = some u →
    u.stored <+: s.store ∧
      ∀ e ∈ s.store, e.feed ∉ s.rejected →
        s.given.length < feedCount ∨ e ∈ s.given.take feedCount → e ∈ u.stored

/-! ## Lists -/

theorem Distinct.sublist (h : Distinct l) {l' : List FeedItem} (hl : l'.Sublist l) : Distinct l' :=
  ⟨h.1.sublist (hl.map _), fun e he => h.2 e (hl.subset he)⟩

theorem Distinct.copies_le_one (h : Distinct l) (feedId : ℤ) : copies l feedId ≤ 1 := by
  have hcount := List.nodup_iff_count_le_one.mp h.1 feedId
  rw [List.count, List.countP_map] at hcount
  refine le_of_eq_of_le (List.countP_congr fun e _ => ?_) hcount
  simp

theorem onStore_of_not_put (hc : c.isPut = false) (l : List FeedItem) :
    c.onStore l = l.filter c.keeps := by
  cases c with
  | put item => cases hc
  | _ => rfl

theorem Distinct.onStore (h : Distinct l) (hc : c.Fresh l) : Distinct (c.onStore l) := by
  cases hput : c.isPut with
  | false =>
      rw [onStore_of_not_put hput]
      exact h.sublist List.filter_sublist
  | true =>
      cases c with
      | put item =>
          refine ⟨List.nodup_cons.mpr ⟨hc.2, h.1⟩, fun e he => ?_⟩
          rcases List.mem_cons.mp he with rfl | he
          · exact hc.1
          · exact h.2 e he
      | _ => cases hput

theorem onStore_comm {c' : Change} (hc : c.isPut = false) (hc' : c'.isPut = false)
    (l : List FeedItem) : c.onStore (c'.onStore l) = c'.onStore (c.onStore l) := by
  rw [onStore_of_not_put hc, onStore_of_not_put hc', onStore_of_not_put hc', onStore_of_not_put hc,
    List.filter_filter, List.filter_filter]
  exact List.filter_congr fun e _ => Bool.and_comm _ _

/-- Removals may come in any order. -/
theorem runOps_onStore (hcs : ∀ c' ∈ cs, c'.isPut = false) (hc : c.isPut = false)
    (l : List FeedItem) : runOps storeStep (c.onStore l) cs = c.onStore (runOps storeStep l cs) := by
  induction cs generalizing l with
  | nil => rfl
  | cons c' cs ih =>
      have hc' := hcs c' (by simp)
      rw [runOps_cons, runOps_cons, ← ih fun c'' h => hcs c'' (List.mem_cons_of_mem _ h)]
      congr 1
      exact onStore_comm hc' hc l

theorem stepsMeet_of_not_put (hcs : ∀ c' ∈ cs, c'.isPut = false) (l : List FeedItem) :
    StepsMeet storeStep (fun l c => c.Fresh l) l cs := by
  induction cs generalizing l with
  | nil => trivial
  | cons c' cs ih =>
      refine ⟨?_, ih (fun c'' h => hcs c'' (List.mem_cons_of_mem _ h)) _⟩
      have hc' := hcs c' (by simp)
      cases c' with
      | put item => cases hc'
      | _ => trivial

theorem Distinct.run (h : Distinct l) (hcs : StepsMeet storeStep (fun l c => c.Fresh l) l cs) :
    Distinct (runOps storeStep l cs) :=
  run_invariant (fun _ _ hl hc => hl.onStore hc) h hcs

/-! ## The ring -/

/-- The feed in a slot has been given no earlier than the slot was written, or was in an older one. -/
def Ages (given : List FeedItem) (u : UserFeed) : Prop :=
  ∀ j < feedCount, (u.look j).feed ≠ 0 → u.look j ∈ given.drop (feedCount - 1 - j)

/-- The put item is the newest. -/
theorem Ages.put (h : Ages given u) (hitem : 0 < item.feed) : Ages (item :: given) (u.put item).2 := by
  intro j hj hfeed
  rw [UserFeed.look_put hitem hj] at hfeed ⊢
  by_cases hlast : j + 1 = feedCount
  · have hzero : feedCount - 1 - j = 0 := by omega
    rw [if_pos hlast, hzero]
    exact List.mem_cons_self
  · rw [if_neg hlast] at hfeed ⊢
    have hsucc : feedCount - 1 - j = feedCount - 1 - (j + 1) + 1 := by omega
    rw [hsucc, List.drop_succ_cons]
    exact h (j + 1) (by omega) hfeed

/-- A removal of some of the feeds, which are cleared among those that have been given. -/
theorem Ages.rises (h : Ages given u) {u' : UserFeed} (hrises : u.Rises u') {f : FeedItem → FeedItem}
    (hf : ∀ j < feedCount, (u'.look j).feed ≠ 0 → f (u'.look j) = u'.look j) : Ages (given.map f) u' := by
  intro j hj hfeed
  obtain ⟨i, hi, heq⟩ := hrises j hj hfeed
  have hmem := h i (by omega) (by rw [heq]; exact hfeed)
  rw [heq] at hmem
  have hdrop : u'.look j ∈ given.drop (feedCount - 1 - j) :=
    List.drop_subset_drop_left given (by omega) hmem
  rw [← List.map_drop, ← hf j hj hfeed]
  exact List.mem_map_of_mem hdrop

/-- A slot with a feed is among those that are stored. -/
theorem look_mem_stored {j : ℕ} (hj : j < feedCount) (hfeed : (u.look j).feed ≠ 0) :
    u.look j ∈ u.stored := by
  rw [UserFeed.stored_eq u hj, occupant_of_ne hfeed]
  simp

/-- What a put leaves of the ring. -/
theorem stored_split (u : UserFeed) : u.stored = above u.look 1 ++ occupant (u.look 0) :=
  above_eq _ (by decide)

/-- **A load has the feeds that were read.** -/
theorem load_spec (hl : l.length ≤ feedCount) (hpos : ∀ e ∈ l, 0 < e.feed) :
    (UserFeedPool.load l).stored = l ∧ (UserFeedPool.load l).Sound ∧ Ages l (UserFeedPool.load l) := by
  induction l with
  | nil => exact ⟨filled_eq_nil fun _ _ _ => rfl, UserFeed.sound_new, fun _ _ h => absurd rfl h⟩
  | cons e l ih =>
      rw [List.length_cons] at hl
      obtain ⟨hstored, hsound, hages⟩ := ih (by omega) fun e' he' => hpos e' (List.mem_cons_of_mem _ he')
      have hload : UserFeedPool.load (e :: l) = ((UserFeedPool.load l).put e).2 := by
        simp [UserFeedPool.load, List.foldl_append]
      have he := hpos e List.mem_cons_self
      -- there is room: the oldest slot has had no feed yet
      have hfree : ((UserFeedPool.load l).look 0).feed = 0 := by
        by_contra hfeed
        have hmem := hages 0 (by decide) hfeed
        rw [List.drop_of_length_le (by omega)] at hmem
        cases hmem
      have hsplit := stored_split (UserFeedPool.load l)
      rw [occupant_of_eq hfree, List.append_nil] at hsplit
      rw [hload]
      refine ⟨?_, (UserFeed.put_spec hsound he).2, hages.put he⟩
      rw [UserFeed.stored_put he, ← hsplit, hstored]

/-- **A removal does to the ring what it does to the store.** -/
theorem toOp_spec (hu : u.Sound) (hd : Distinct u.stored) (hc : c.isPut = false) (deletedCount : ℤ) :
    ((c.toOp deletedCount).step u).stored = u.stored.filter c.keeps ∧
      ((c.toOp deletedCount).step u).Sound ∧ u.Rises ((c.toOp deletedCount).step u) := by
  cases c with
  | put item => cases hc
  | remove feedId => exact UserFeed.remove_once hu deletedCount (hd.copies_le_one feedId)
  | removeByMerge mergeId stype =>
      refine UserFeed.removeByMerge_spec hu
        ⟨fun e he hmem => ?_, .inl fun e _ _ => hd.copies_le_one e.feed⟩
      obtain ⟨e', he', hfeed⟩ := List.mem_map.mp hmem
      obtain ⟨he', hm⟩ := List.mem_filter.mp he'
      have heq : e' = e := List.inj_on_of_nodup_map hd.1 he' he hfeed
      exact heq ▸ hm
  | removeAll =>
      refine ⟨?_, UserFeed.sound_new, fun j _ hfeed => absurd rfl hfeed⟩
      have hnil : u.stored.filter Change.removeAll.keeps = [] :=
        List.filter_eq_nil_iff.mpr fun e _ => by simp [Change.keeps]
      rw [hnil]
      exact filled_eq_nil fun _ _ _ => rfl

/-! ## What a cached user lacks -/

/-- The ring holds the newest feeds of a list, and has been given the others too long ago. -/
structure Knows (base given : List FeedItem) (rejected : List ℤ) (u : UserFeed) : Prop where
  sound : u.Sound
  distinct : Distinct base
  newest : u.stored <+: base
  ages : Ages given u
  once : ((given.filter fun e => e.feed ≠ 0).map FeedItem.feed).Nodup
  known : ∀ e ∈ given, e.feed ≠ 0 → e ∈ base
  kept : ∀ e ∈ base, e.feed ∉ rejected → given.length < feedCount ∨ e ∈ given.take feedCount → e ∈ u.stored

/-- What has been given once is not given both late and early. -/
theorem not_mem_drop (h : ((given.filter fun e => e.feed ≠ 0).map FeedItem.feed).Nodup) (he : e.feed ≠ 0)
    {n : ℕ} (hmem : e ∈ given.take n) : e ∉ given.drop n := by
  intro hmem'
  rw [← List.take_append_drop n given, List.filter_append, List.map_append, List.nodup_append] at h
  have hlive : ∀ {l : List FeedItem}, e ∈ l → e.feed ∈ (l.filter fun e => e.feed ≠ 0).map FeedItem.feed :=
    fun hl => List.mem_map_of_mem (List.mem_filter.mpr ⟨hl, decide_eq_true he⟩)
  exact h.2.2 _ (hlive hmem) _ (hlive hmem') rfl

/-- **A put to the list and to the ring.** -/
theorem Knows.put (h : Knows base given rejected u) (hfresh : (Change.put item).Fresh base) :
    Knows (item :: base) (item :: given) ((Change.put item).onRejected rejected) (u.put item).2 := by
  obtain ⟨hpos, hnew⟩ := hfresh
  have hstored := UserFeed.stored_put (u := u) hpos
  have hsplit := stored_split u
  have habove : above u.look 1 <+: u.stored := ⟨_, hsplit.symm⟩
  have hother : ∀ {e}, e ∈ base → e.feed ≠ item.feed := fun he heq => hnew (heq ▸ List.mem_map_of_mem he)
  refine ⟨(UserFeed.put_spec h.sound hpos).2, h.distinct.onStore (c := .put item) ⟨hpos, hnew⟩, ?_,
    h.ages.put hpos, ?_, fun e he hfeed => ?_, fun e he hrej hgiven => ?_⟩
  · rw [hstored]
    exact List.prefix_cons_inj item |>.mpr (habove.trans h.newest)
  · rw [List.filter_cons_of_pos (by simpa using hpos.ne'), List.map_cons, List.nodup_cons]
    refine ⟨fun hmem => ?_, h.once⟩
    obtain ⟨e, he, heq⟩ := List.mem_map.mp hmem
    obtain ⟨he, hfeed⟩ := List.mem_filter.mp he
    exact hother (h.known e he (of_decide_eq_true hfeed)) heq
  · exact (List.mem_cons.mp he).elim (fun heq => heq ▸ List.mem_cons_self)
      fun he => List.mem_cons_of_mem _ (h.known e he hfeed)
  · rw [hstored]
    obtain rfl | he := List.mem_cons.mp he
    · exact List.mem_cons_self
    refine List.mem_cons_of_mem _ ?_
    have hrej' : e.feed ∉ rejected := fun hmem =>
      hrej (List.mem_filter.mpr ⟨hmem, decide_eq_true (hother he)⟩)
    -- what has been given before is one put older
    have hlater : given.length + 1 < feedCount ∨ e ∈ given.take (feedCount - 1) := by
      refine hgiven.imp_right fun hmem => ?_
      exact (List.mem_cons.mp hmem).resolve_left fun heq => hother he (heq ▸ rfl)
    have hmem : e ∈ u.stored := h.kept e he hrej' (hlater.imp (fun hlt => by omega)
      fun hmem => (List.take_subset_take_left given (by decide)) hmem)
    rw [hsplit] at hmem
    refine (List.mem_append.mp hmem).resolve_right fun hlast => ?_
    have hfeed : (u.look 0).feed ≠ 0 := by
      intro hzero
      rw [occupant_of_eq hzero] at hlast
      cases hlast
    rw [occupant_of_ne hfeed] at hlast
    have hold := h.ages 0 (by decide) hfeed
    rw [← List.mem_singleton.mp hlast] at hold hfeed
    rcases hlater with hlt | hmem'
    · rw [List.drop_of_length_le (by omega)] at hold
      cases hold
    · exact not_mem_drop h.once hfeed hmem' hold

/-- Clearing brings no new ids. -/
theorem live_sublist (c : Change) (given : List FeedItem) :
    (((given.map fun e => if c.keeps e then e else e.cleared).filter fun e => e.feed ≠ 0).map
      FeedItem.feed).Sublist ((given.filter fun e => e.feed ≠ 0).map FeedItem.feed) := by
  induction given with
  | nil => exact List.Sublist.refl _
  | cons e given ih =>
      rw [List.map_cons]
      by_cases hk : c.keeps e = true
      · rw [if_pos hk]
        by_cases hfeed : e.feed = 0
        · rw [List.filter_cons_of_neg (by simpa using hfeed), List.filter_cons_of_neg (by simpa using hfeed)]
          exact ih
        · rw [List.filter_cons_of_pos (by simpa using hfeed), List.filter_cons_of_pos (by simpa using hfeed),
            List.map_cons, List.map_cons]
          exact ih.cons_cons _
      · rw [if_neg hk, List.filter_cons_of_neg (by simp [FeedItem.cleared])]
        exact ih.trans (((List.sublist_cons_self e given).filter _).map _)

/-- **A removal from the ring**, and from the list unless it finds nothing. -/
theorem Knows.removal (h : Knows base given rejected u) (hput : c.isPut = false) {base' : List FeedItem}
    (hsub : base'.Sublist base) (hkeeps : ∀ e ∈ base, c.keeps e = true → e ∈ base')
    (hgone : ∀ e ∈ base', e ∈ u.stored → c.keeps e = true) (hnewest : u.stored.filter c.keeps <+: base')
    (deletedCount : ℤ) :
    Knows base' (c.onGiven given) (c.onRejected rejected) ((c.toOp deletedCount).step u) := by
  have hdu : Distinct u.stored := h.distinct.sublist h.newest.sublist
  obtain ⟨hstored, hsound, hrises⟩ := toOp_spec h.sound hdu hput deletedCount
  have hgiven : c.onGiven given = given.map fun e => if c.keeps e then e else e.cleared := by
    cases c with
    | put item => cases hput
    | _ => rfl
  have hrejected : c.onRejected rejected = rejected := by
    cases c with
    | put item => cases hput
    | _ => rfl
  -- what is not cleared has been given, and is kept
  have hlive : ∀ {l : List FeedItem} {e}, e ∈ l.map (fun e => if c.keeps e then e else e.cleared) →
      e.feed ≠ 0 → e ∈ l ∧ c.keeps e = true := by
    intro l e he hfeed
    obtain ⟨e', he', rfl⟩ := List.mem_map.mp he
    by_cases hk : c.keeps e' = true
    · rw [if_pos hk]
      exact ⟨he', hk⟩
    · rw [if_neg hk] at hfeed
      exact absurd rfl hfeed
  rw [hgiven, hrejected]
  refine ⟨hsound, h.distinct.sublist hsub, hstored ▸ hnewest, h.ages.rises hrises fun j hj hfeed => ?_, ?_,
    fun e he hfeed => ?_, fun e he hrej hlate => ?_⟩
  · have hmem := look_mem_stored hj hfeed
    rw [hstored] at hmem
    exact if_pos (List.mem_filter.mp hmem).2
  · exact h.once.sublist (live_sublist c given)
  · obtain ⟨he, hk⟩ := hlive he hfeed
    exact hkeeps e (h.known e he hfeed) hk
  · have hbase := hsub.subset he
    rw [List.length_map, ← List.map_take] at hlate
    have hmem := h.kept e hbase hrej (hlate.imp_right fun hmem =>
      (hlive hmem (h.distinct.2 e hbase).ne').1)
    rw [hstored]
    exact List.mem_filter.mpr ⟨hmem, hgone e he hmem⟩

/-- **A task that rejects the oldest feeds only.** -/
theorem Knows.reject (h : Knows base given rejected u) (hzero : 0 ∉ ids)
    (holdest : (u.stored.filter fun e => e.feed ∉ ids) <+: u.stored) :
    Knows base given (rejected ++ ids) (u.reject ids) := by
  obtain ⟨hstored, hsound, hrises⟩ := UserFeed.reject_spec h.sound ids fun hz => absurd hz hzero
  have hages := h.ages.rises hrises (f := id) fun _ _ _ => rfl
  rw [List.map_id] at hages
  refine ⟨hsound, h.distinct, ?_, hages, h.once, h.known, fun e he hrej hlate => ?_⟩
  · rw [hstored]
    exact holdest.trans h.newest
  · rw [List.mem_append, not_or] at hrej
    rw [hstored]
    exact List.mem_filter.mpr ⟨h.kept e he hrej.1 hlate, decide_eq_true hrej.2⟩

/-- **A load.** -/
theorem Knows.load (h : Distinct base) (hl : l = base.take feedCount) :
    Knows base l [] (UserFeedPool.load l) := by
  have hpre : l <+: base := hl ▸ List.take_prefix _ _
  have hlen : l.length ≤ feedCount := hl ▸ List.length_take_le _ _
  have hd : Distinct l := h.sublist hpre.sublist
  obtain ⟨hstored, hsound, hages⟩ := load_spec hlen hd.2
  refine ⟨hsound, h, hstored.symm ▸ hpre, hages, hd.1.sublist (List.filter_sublist.map _),
    fun e he _ => hpre.subset he, fun e he _ hlate => ?_⟩
  rw [hstored]
  rcases hlate with hroom | hmem
  · rw [hl, List.length_take] at hroom
    rw [hl, List.take_of_length_le (by omega)]
    exact he
  · exact List.mem_of_mem_take hmem

/-- The ring has the newest feeds of a list, of which the changes make the store, but for removals
that find nothing. -/
def Cached (store given : List FeedItem) (rejected : List ℤ) (changes : List Change) (u : UserFeed) : Prop :=
  ∃ base stale rest, changes = stale ++ rest ∧
    (∀ c ∈ stale, c.isPut = false ∧ ∀ e ∈ u.stored, c.keeps e = true) ∧
    runOps storeStep base rest = store ∧ StepsMeet storeStep (fun l c => c.Fresh l) base rest ∧
    Knows base given rejected u

/-- The store changes. -/
theorem Cached.apply (h : Cached store given rejected changes u) (hc : c.Fresh store) :
    Cached (c.onStore store) given rejected (changes ++ [c]) u := by
  obtain ⟨base, stale, rest, rfl, hstale, hrun, hmeet, hknows⟩ := h
  refine ⟨base, stale, rest ++ [c], by rw [List.append_assoc], hstale, ?_, ?_, hknows⟩
  · rw [runOps_append, hrun]
    rfl
  · rw [stepsMeet_append, hrun]
    exact ⟨hmeet, hc, trivial⟩

/-- A task rejects the oldest feeds. -/
theorem Cached.reject (h : Cached store given rejected changes u) (hzero : 0 ∉ ids)
    (holdest : (u.stored.filter fun e => e.feed ∉ ids) <+: u.stored) :
    Cached store given (rejected ++ ids) changes (u.reject ids) := by
  obtain ⟨base, stale, rest, rfl, hstale, hrun, hmeet, hknows⟩ := h
  have hstored := (UserFeed.reject_spec hknows.sound ids fun hz => absurd hz hzero).1
  refine ⟨base, stale, rest, rfl, fun c hc => ⟨(hstale c hc).1, fun e he => ?_⟩, hrun, hmeet,
    hknows.reject hzero holdest⟩
  rw [hstored] at he
  exact (hstale c hc).2 e (List.mem_of_mem_filter he)

section Call

variable {stale front back : List Change} (hknows : Knows base given rejected u)
  (hstale : ∀ c ∈ stale, c.isPut = false ∧ ∀ e ∈ u.stored, c.keeps e = true)
include hknows hstale

/-- A removal that comes before puts, and among other removals. -/
theorem cached_removal (hput : c.isPut = false) (hfront : ∀ c' ∈ front, c'.isPut = false)
    (hrun : runOps storeStep (c.onStore (runOps storeStep base front)) back = store)
    (hmeet : StepsMeet storeStep (fun l c => c.Fresh l) (c.onStore (runOps storeStep base front)) back)
    (deletedCount : ℤ) :
    Cached store (c.onGiven given) (c.onRejected rejected) (stale ++ (front ++ back))
      ((c.toOp deletedCount).step u) := by
  have hdu : Distinct u.stored := hknows.distinct.sublist hknows.newest.sublist
  have hstored := (toOp_spec hknows.sound hdu hput deletedCount).1
  have hcomm := runOps_onStore hfront hput base
  have hbase := onStore_of_not_put hput base
  refine ⟨c.onStore base, stale, front ++ back, rfl, fun c' hc' => ⟨(hstale c' hc').1, fun e he => ?_⟩,
    ?_, ?_, hknows.removal hput ?_ ?_ ?_ ?_ deletedCount⟩
  · rw [hstored] at he
    exact (hstale c' hc').2 e (List.mem_of_mem_filter he)
  · rw [runOps_append, hcomm]
    exact hrun
  · rw [stepsMeet_append, hcomm]
    exact ⟨stepsMeet_of_not_put hfront _, hmeet⟩
  · rw [hbase]
    exact List.filter_sublist
  · rw [hbase]
    exact fun e he hk => List.mem_filter.mpr ⟨he, hk⟩
  · rw [hbase]
    exact fun e he _ => (List.mem_filter.mp he).2
  · rw [hbase]
    exact hknows.newest.filter _

/-- A removal that finds nothing. -/
theorem cached_stale {rest : List Change} (hi : stale[i]? = some c)
    (hrun : runOps storeStep base rest = store)
    (hmeet : StepsMeet storeStep (fun l c => c.Fresh l) base rest) (deletedCount : ℤ) :
    Cached store (c.onGiven given) (c.onRejected rejected) (stale.eraseIdx i ++ rest)
      ((c.toOp deletedCount).step u) := by
  have hdu : Distinct u.stored := hknows.distinct.sublist hknows.newest.sublist
  obtain ⟨hput, hkeeps⟩ := hstale c (List.mem_of_getElem? hi)
  have hstored := (toOp_spec hknows.sound hdu hput deletedCount).1
  have hself := List.filter_eq_self.mpr hkeeps
  refine ⟨base, stale.eraseIdx i, rest, rfl, fun c' hc' => ?_, hrun, hmeet,
    hknows.removal hput (List.Sublist.refl _) (fun e he _ => he) (fun e _ he => hkeeps e he) ?_ deletedCount⟩
  · rw [hstored, hself]
    exact hstale c' (List.mem_of_mem_eraseIdx hc')
  · rw [hself]
    exact hknows.newest

end Call

/-- A call is made. -/
theorem Cached.call (h : Cached store given rejected changes u) (hi : changes[i]? = some c)
    (hfits : ∀ c' ∈ changes.take i, c.isPut = false ∧ c'.isPut = false) (deletedCount : ℤ) :
    Cached store (c.onGiven given) (c.onRejected rejected) (changes.eraseIdx i)
      ((c.toOp deletedCount).step u) := by
  obtain ⟨base, stale, rest, rfl, hstale, hrun, hmeet, hknows⟩ := h
  rcases Nat.lt_or_ge i stale.length with hlt | hge
  · rw [List.getElem?_append_left hlt] at hi
    rw [List.eraseIdx_append_of_lt_length hlt]
    exact cached_stale hknows hstale hi hrun hmeet deletedCount
  · rw [List.getElem?_append_right hge] at hi
    obtain ⟨hlen, hc⟩ := List.getElem?_eq_some_iff.mp hi
    have hrest : rest = rest.take (i - stale.length) ++ c :: rest.drop (i - stale.length + 1) := by
      rw [← hc, List.getElem_cons_drop, List.take_append_drop]
    have herase : (stale ++ rest).eraseIdx i =
        stale ++ (rest.take (i - stale.length) ++ rest.drop (i - stale.length + 1)) := by
      rw [List.eraseIdx_append_of_length_le hge, List.eraseIdx_eq_take_drop_succ]
    have htake : (stale ++ rest).take i = stale ++ rest.take (i - stale.length) := by
      rw [List.take_append, List.take_of_length_le hge]
    rw [htake] at hfits
    rw [herase]
    generalize rest.take (i - stale.length) = front at *
    generalize rest.drop (i - stale.length + 1) = back at *
    subst hrest
    rw [runOps_append, runOps_cons] at hrun
    obtain ⟨hfront, hfresh, hback⟩ := (stepsMeet_append base front (c :: back)).mp hmeet
    cases hput : c.isPut with
    | true =>
        -- nothing comes before a put
        have hno : stale ++ front = [] := by
          rw [List.eq_nil_iff_forall_not_mem]
          intro c' hc'
          rw [hput] at hfits
          cases (hfits c' hc').1
        obtain ⟨rfl, rfl⟩ := List.append_eq_nil_iff.mp hno
        cases c with
        | put item =>
            exact ⟨item :: base, [], back, rfl, fun c' hc' => absurd hc' List.not_mem_nil, hrun, hback,
              hknows.put hfresh⟩
        | _ => cases hput
    | false =>
        have hremovals : ∀ c' ∈ front, c'.isPut = false := fun c' hc' =>
          (hfits c' (List.mem_append_right _ hc')).2
        exact cached_removal hknows hstale hput hremovals hrun hback deletedCount

/-! ## Loads -/

/-- A list in ascending order of numbers, cut at one of them. -/
theorem filter_append_filter (h : (ps.map Prod.fst).Pairwise (· < ·)) (k : ℕ) :
    ps = ps.filter (fun p => p.1 < k) ++ ps.filter (fun p => k ≤ p.1) := by
  induction ps with
  | nil => rfl
  | cons p ps ih =>
      obtain ⟨hp, hps⟩ := List.pairwise_cons.mp h
      by_cases hk : p.1 < k
      · rw [List.filter_cons_of_pos (by simpa using hk), List.filter_cons_of_neg (by simpa using hk),
          List.cons_append, ← ih hps]
      · have hnone : (p :: ps).filter (fun p => p.1 < k) = [] := by
          rw [List.filter_eq_nil_iff]
          intro q hq
          rcases List.mem_cons.mp hq with rfl | hq
          · simpa using hk
          · have hlt := hp q.1 (List.mem_map_of_mem hq)
            simp only [decide_eq_true_eq]
            omega
        have hall : (p :: ps).filter (fun p => k ≤ p.1) = p :: ps := by
          rw [List.filter_eq_self]
          intro q hq
          rcases List.mem_cons.mp hq with rfl | hq
          · simpa using hk
          · have hlt := hp q.1 (List.mem_map_of_mem hq)
            simp only [decide_eq_true_eq]
            omega
        rw [hnone, hall]
        rfl

/-- The entries from a number on, when all of them are there, are the rest of the history. -/
theorem map_snd_eq_drop {history : List Change} {k : ℕ}
    (hsorted : (ps.map Prod.fst).Pairwise (· < ·)) (hps : ∀ p ∈ ps, history[p.1]? = some p.2)
    (hall : ∀ j < history.length, k ≤ j → j ∈ ps.map Prod.fst) :
    (ps.filter fun p => k ≤ p.1).map Prod.snd = history.drop k := by
  have hfst : (ps.filter fun p => k ≤ p.1).map Prod.fst = List.range' k (history.length - k) := by
    have hmem : ∀ j, j ∈ (ps.filter fun p => k ≤ p.1).map Prod.fst ↔
        j ∈ List.range' k (history.length - k) := by
      intro j
      rw [List.mem_range'_1, List.mem_map]
      constructor
      · rintro ⟨p, hp, rfl⟩
        obtain ⟨hp, hk⟩ := List.mem_filter.mp hp
        obtain ⟨hlt, -⟩ := List.getElem?_eq_some_iff.mp (hps p hp)
        have hk := of_decide_eq_true hk
        omega
      · rintro ⟨hk, hlt⟩
        obtain ⟨p, hp, rfl⟩ := List.mem_map.mp (hall j (by omega) hk)
        exact ⟨p, List.mem_filter.mpr ⟨hp, decide_eq_true hk⟩, rfl⟩
    have hleft : ((ps.filter fun p => k ≤ p.1).map Prod.fst).Pairwise (· < ·) :=
      hsorted.sublist (List.filter_sublist.map _)
    have heq := AscSeq.ext_mem (s := ⟨_, hleft⟩)
      (t := ⟨_, List.pairwise_lt_range'⟩) hmem
    exact congrArg AscSeq.vals heq
  apply List.ext_getElem?
  intro i
  rw [List.getElem?_drop, List.getElem?_map]
  have hi : ((ps.filter fun p => k ≤ p.1)[i]?).map Prod.fst =
      (List.range' k (history.length - k))[i]? := by
    rw [← hfst, List.getElem?_map]
  cases hp : (ps.filter fun p => k ≤ p.1)[i]? with
  | none =>
      rw [hp, Option.map_none, eq_comm, List.getElem?_eq_none_iff, List.length_range'] at hi
      rw [Option.map_none, eq_comm, List.getElem?_eq_none_iff]
      omega
  | some p =>
      rw [hp, Option.map_some, eq_comm] at hi
      obtain ⟨hlt, hget⟩ := List.getElem?_eq_some_iff.mp hi
      rw [List.getElem_range', Nat.one_mul] at hget
      have hmem := List.mem_of_mem_filter (List.mem_of_getElem? hp)
      rw [Option.map_some, hget, hps p hmem]

/-- What holds between the store, the calls that are to be made, the loads and the ring. -/
structure PoolInv (store₀ : List FeedItem) (s : UserFeedPool) : Prop where
  store : s.store = runOps storeStep store₀ s.history
  fresh : StepsMeet storeStep (fun l c => c.Fresh l) store₀ s.history
  pending : ∀ p ∈ s.pending, s.history[p.1]? = some p.2
  sorted : (s.pending.map Prod.fst).Pairwise (· < ·)
  loads : ∀ r ∈ s.loads, r.1 ≤ s.history.length ∧
    r.2 = (runOps storeStep store₀ (s.history.take r.1)).take feedCount
  cached : ∀ u, s.user = some u → Cached s.store s.given s.rejected (s.pending.map Prod.snd) u

theorem PoolInv.start (store₀ : List FeedItem) : PoolInv store₀ (.start store₀) where
  store := rfl
  fresh := trivial
  pending _ h := absurd h List.not_mem_nil
  sorted := List.Pairwise.nil
  loads _ h := absurd h List.not_mem_nil
  cached _ h := nomatch h

section Steps

variable {store₀ : List FeedItem}

/-- A change of the database. -/
theorem PoolInv.apply (hi : PoolInv store₀ s) (hc : c.Fresh s.store) :
    PoolInv store₀ (PoolStep.step s (.apply c)) := by
  obtain ⟨hstore, hfresh, hpending, hsorted, hloads, hcached⟩ := hi
  refine ⟨?_, ?_, fun p hp => ?_, ?_, fun r hr => ?_, fun u hu => ?_⟩
  · show c.onStore s.store = runOps storeStep store₀ (s.history ++ [c])
    rw [runOps_append, ← hstore]
    rfl
  · show StepsMeet _ _ store₀ (s.history ++ [c])
    rw [stepsMeet_append, ← hstore]
    exact ⟨hfresh, hc, trivial⟩
  · show (s.history ++ [c])[p.1]? = some p.2
    rcases List.mem_append.mp hp with hp | hp
    · have hlt := (List.getElem?_eq_some_iff.mp (hpending p hp)).1
      rw [List.getElem?_append_left hlt]
      exact hpending p hp
    · rw [List.mem_singleton.mp hp]
      simp
  · show ((s.pending ++ [(s.history.length, c)]).map Prod.fst).Pairwise (· < ·)
    rw [List.map_append, List.pairwise_append]
    refine ⟨hsorted, List.pairwise_singleton _ _, fun j hj j' hj' => ?_⟩
    obtain ⟨p, hp, rfl⟩ := List.mem_map.mp hj
    rw [List.mem_singleton.mp hj']
    exact (List.getElem?_eq_some_iff.mp (hpending p hp)).1
  · obtain ⟨hle, hread⟩ := hloads r hr
    show r.1 ≤ (s.history ++ [c]).length ∧
      r.2 = (runOps storeStep store₀ ((s.history ++ [c]).take r.1)).take feedCount
    rw [List.take_append_of_le_length hle, List.length_append]
    exact ⟨by omega, hread⟩
  · show Cached (c.onStore s.store) s.given s.rejected
      ((s.pending ++ [(s.history.length, c)]).map Prod.snd) u
    rw [List.map_append]
    exact (hcached u hu).apply hc

/-- A call on the pool. -/
theorem PoolInv.call (hi : PoolInv store₀ s) (i : ℕ) (deletedCount : ℤ)
    (hfits : (PoolStep.call i deletedCount).Fits s) :
    PoolInv store₀ (PoolStep.step s (.call i deletedCount)) := by
  unfold PoolStep.step
  dsimp only
  cases hp : s.pending[i]? with
  | none => exact hi
  | some p =>
      obtain ⟨hstore, hfresh, hpending, hsorted, hloads, hcached⟩ := hi
      have hsub : (s.pending.eraseIdx i).Sublist s.pending := List.eraseIdx_sublist _ _
      have herase : (s.pending.eraseIdx i).map Prod.snd = (s.pending.map Prod.snd).eraseIdx i :=
        (List.eraseIdx_map _ _ _).symm
      have hsorted' := hsorted.sublist (hsub.map Prod.fst)
      have hpending' : ∀ q ∈ s.pending.eraseIdx i, s.history[q.1]? = some q.2 :=
        fun q hq => hpending q (hsub.subset hq)
      dsimp only
      unfold UserFeedPool.callWith
      cases hu : s.user with
      | none =>
          refine ⟨hstore, hfresh, hpending', hsorted', hloads, fun u hu' => ?_⟩
          rw [hu] at hu'
          cases hu'
      | some u =>
          refine ⟨hstore, hfresh, hpending', hsorted', hloads, fun u' hu' => ?_⟩
          cases hu'
          show Cached s.store (p.2.onGiven s.given) (p.2.onRejected s.rejected)
            ((s.pending.eraseIdx i).map Prod.snd) _
          rw [herase]
          refine (hcached u hu).call (by rw [List.getElem?_map, hp]; rfl) (fun c' hc' => ?_) deletedCount
          rw [← List.map_take] at hc'
          obtain ⟨q, hq, rfl⟩ := List.mem_map.mp hc'
          exact hfits (by rw [hu]; rfl) p hp q hq

/-- A loaded ring is put into the pool. -/
theorem PoolInv.insert (hd : Distinct store₀) (hi : PoolInv store₀ s) (i : ℕ)
    (hfits : (PoolStep.insert i).Fits s) : PoolInv store₀ (PoolStep.step s (.insert i)) := by
  unfold PoolStep.step
  dsimp only
  cases hr : s.loads[i]? with
  | none => exact hi
  | some r =>
      obtain ⟨hstore, hfresh, hpending, hsorted, hloads, hcached⟩ := hi
      have hloads' : ∀ r' ∈ s.loads.eraseIdx i, r'.1 ≤ s.history.length ∧
          r'.2 = (runOps storeStep store₀ (s.history.take r'.1)).take feedCount :=
        fun r' hr' => hloads r' (List.mem_of_mem_eraseIdx hr')
      dsimp only
      unfold UserFeedPool.insertLoaded
      cases hu : s.user with
      | some u => exact ⟨hstore, hfresh, hpending, hsorted, hloads', hcached⟩
      | none =>
          obtain ⟨hlater, hearlier⟩ := hfits (by rw [hu]; rfl) r hr
          obtain ⟨hle, hread⟩ := hloads r (List.mem_of_getElem? hr)
          have hsplit : s.history = s.history.take r.1 ++ s.history.drop r.1 :=
            (List.take_append_drop _ _).symm
          have hmeet := hfresh
          rw [hsplit, stepsMeet_append] at hmeet
          have hbase : Distinct (runOps storeStep store₀ (s.history.take r.1)) := hd.run hmeet.1
          have hknows := Knows.load hbase hread
          refine ⟨hstore, hfresh, hpending, hsorted, hloads', fun u hu' => ?_⟩
          cases hu'
          have hrest := map_snd_eq_drop hsorted hpending hlater
          refine ⟨runOps storeStep store₀ (s.history.take r.1),
            (s.pending.filter fun p => p.1 < r.1).map Prod.snd, s.history.drop r.1, ?_, fun c hc => ?_, ?_,
            hmeet.2, hknows⟩
          · rw [← hrest, ← List.map_append, ← filter_append_filter hsorted r.1]
          · obtain ⟨p, hp, rfl⟩ := List.mem_map.mp hc
            obtain ⟨hp, hlt⟩ := List.mem_filter.mp hp
            have hpre : r.2 <+: runOps storeStep store₀ (s.history.take r.1) := by
              rw [hread]
              exact List.take_prefix _ _
            have hlen : r.2.length ≤ feedCount := by
              rw [hread]
              exact List.length_take_le _ _
            rw [(load_spec hlen fun e he => hbase.2 e (hpre.subset he)).1]
            exact hearlier p hp (of_decide_eq_true hlt)
          · rw [← runOps_append, ← hsplit]
            exact hstore.symm

/-- A `RejectTask` on ring and database. -/
theorem PoolInv.reject (hi : PoolInv store₀ s) (i : ℕ) (logic cache : Bool) (resorted : List ℤ)
    (hfits : (PoolStep.reject i logic cache resorted).Fits s) :
    PoolInv store₀ (PoolStep.step s (.reject i logic cache resorted)) := by
  unfold PoolStep.step
  dsimp only
  cases hr : s.rejects[i]? with
  | none => exact hi
  | some fis =>
      dsimp only
      unfold UserFeedPool.reject
      cases hu : s.user with
      | none =>
          refine ⟨hi.store, hi.fresh, hi.pending, hi.sorted, hi.loads, fun u hu' => ?_⟩
          rw [hu] at hu'
          cases hu'
      | some u =>
          refine ⟨hi.store, hi.fresh, hi.pending, hi.sorted, hi.loads, fun u' hu' => ?_⟩
          cases hu'
          obtain ⟨hzero, holdest⟩ := hfits u hu fis hr
          exact (hi.cached u hu).reject hzero holdest

/-- **Every step that fits keeps the invariant.** -/
theorem PoolInv.step (hd : Distinct store₀) (hi : PoolInv store₀ s) (op : PoolStep)
    (hfits : op.Fits s) : PoolInv store₀ (op.step s) := by
  cases op with
  | apply c => exact hi.apply hfits
  | call i deletedCount => exact hi.call i deletedCount hfits
  | read =>
      refine ⟨hi.store, hi.fresh, hi.pending, hi.sorted, fun r hr => ?_, hi.cached⟩
      rcases List.mem_append.mp hr with hr | hr
      · exact hi.loads r hr
      · rw [List.mem_singleton.mp hr]
        refine ⟨le_refl _, ?_⟩
        show s.store.take feedCount =
          (runOps storeStep store₀ (s.history.take s.history.length)).take feedCount
        rw [List.take_length, ← hi.store]
  | insert i => exact hi.insert hd i hfits
  | reject i logic cache resorted => exact hi.reject i logic cache resorted hfits
  | giveUp i =>
      exact ⟨hi.store, hi.fresh, hi.pending, hi.sorted,
        fun r hr => hi.loads r (List.mem_of_mem_eraseIdx hr), hi.cached⟩
  | leave => exact ⟨hi.store, hi.fresh, hi.pending, hi.sorted, hi.loads, fun u hu => nomatch hu⟩

end Steps

/-- The load reads, a feed comes and is not cached, and the load is inserted. -/
def feedBetween : List PoolStep := [.read, .apply (.put ⟨1, 7, 0, 0, 0, 0⟩), .call 0 20, .insert 0]

/-- The same steps, but with the load inserted before the call. -/
def callAfter : List PoolStep := [.read, .apply (.put ⟨1, 7, 0, 0, 0, 0⟩), .insert 0, .call 0 20]

end Oce.FeedCacheN
