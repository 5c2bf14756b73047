import Oce.FeedInteraction.Analysis.Counts

/-!
# Runs of the interaction service

The accounts of the service are with its own queues (`Service.pending`). Every operation keeps
them under the condition `ServiceOp.Fits`; once nothing of a feed is queued or dirty, the
accounts say that its row has all the calls.
-/

set_option autoImplicit false

namespace Oce.FeedInteraction

open Function Oce.Base

variable {s s' : Service} {feed g : ℤ} {a b type : ℕ} {t : Tally} {q q' : List (ℕ × ℤ)}

/-! ## The queues -/

/-- The queued calls, the clicks before the replies. -/
def Service.pending (s : Service) : List (ℕ × ℤ) :=
  s.clicks.map (fun feed => (1, feed)) ++ s.replys.map fun feed => (2, feed)

theorem count_pair (k k' : ℕ) (feed : ℤ) (l : List ℤ) :
    (l.map fun feed => (k', feed)).count (k, feed) = if k = k' then l.count feed else 0 := by
  by_cases hk : k = k'
  · subst hk
    rw [if_pos rfl]
    exact List.count_map_of_injective l _ (fun _ _ h => (Prod.mk.inj h).2) feed
  · rw [if_neg hk]
    apply List.count_eq_zero.mpr
    intro hmem
    obtain ⟨g, -, hg⟩ := List.mem_map.mp hmem
    exact hk (Prod.mk.inj hg).1.symm

theorem count_pending (s : Service) (k : ℕ) (feed : ℤ) : s.pending.count (k, feed) =
    (if k = 1 then s.clicks.count feed else 0) + if k = 2 then s.replys.count feed else 0 := by
  unfold Service.pending
  rw [List.count_append, count_pair, count_pair]

theorem mem_pending {e : ℕ × ℤ} (h : e ∈ s.pending) : e.2 ∈ s.clicks ++ s.replys := by
  rcases List.mem_append.mp h with h | h <;> obtain ⟨feed, hfeed, rfl⟩ := List.mem_map.mp h
  · exact List.mem_append_left _ hfeed
  · exact List.mem_append_right _ hfeed

theorem keeps_queues (s : Service) (clicks replys : List ℤ) :
    Keeps s { s with clicks := clicks, replys := replys } :=
  ⟨fun h => ⟨h.slot, h.dirty, h.row, h.rowFeed⟩, fun h => ⟨h.slot, h.dirty, h.table⟩, rfl⟩

/-- The accounts of a service with its queues. -/
def Balanced (s : Service) : Prop := Accounts s s.pending

theorem balanced_new : Balanced .new where
  absent feed hpos _ := ⟨fun h => by simp only [Service.slot, Service.new] at h; omega, rfl, rfl⟩
  pos _ _ h := by cases h
  within _ _ h := by cases h
  settles _ _ h := by cases h
  queued e he := absurd he List.not_mem_nil

/-! ## Calls -/

/-- A feed gets a new tally, and its counts and queue with it. -/
theorem accounts_set (h : Accounts s q) (hpos : 0 < feed) (hin : t.Within) (hs : Others s s' feed)
    (hother : ∀ g, g ≠ feed → ∀ k, q'.count (k, g) = q.count (k, g))
    (hqueued : ∀ e ∈ q', 0 < e.2 ∧ (e.1 = 1 ∨ e.1 = 2)) (hnew : Settles s' q' feed t) :
    Accounts { s' with made := update s.made feed (some t) } q' := by
  have hself : update s.made feed (some t) feed = some t := update_self _ _ _
  have hrest : ∀ g, g ≠ feed → update s.made feed (some t) g = s.made g :=
    fun g hg => update_of_ne hg _ _
  have hholds : ∀ {g a b}, Holds s' g a b →
      Holds { s' with made := update s.made feed (some t) } g a b :=
    fun h => ⟨h.slot, h.dirty, h.row, h.rowFeed⟩
  refine ⟨fun g hg hnone => ?_, fun g t' hg => ?_, fun g t' hg => ?_, fun g t' hg => ?_, hqueued⟩
  · dsimp only at hnone
    have hgf : g ≠ feed := by
      rintro rfl
      rw [hself] at hnone
      cases hnone
    rw [hrest g hgf] at hnone
    have := hs.absent hgf (h.absent g hg hnone)
    exact ⟨this.slot, this.dirty, this.table⟩
  · dsimp only at hg
    by_cases hgf : g = feed
    · rw [hgf]
      exact hpos
    · rw [hrest g hgf] at hg
      exact h.pos g t' hg
  · dsimp only at hg
    by_cases hgf : g = feed
    · subst hgf
      rw [hself] at hg
      cases hg
      exact hin
    · rw [hrest g hgf] at hg
      exact h.within g t' hg
  · dsimp only at hg
    by_cases hgf : g = feed
    · subst hgf
      rw [hself] at hg
      cases hg
      obtain ⟨a, b, ha, hb, hnew⟩ := hnew
      exact ⟨a, b, ha, hb, hholds hnew⟩
    · rw [hrest g hgf] at hg
      obtain ⟨a, b, ha, hb, hold⟩ := h.settles g t' hg
      exact ⟨a, b, by rw [hother g hgf]; exact ha, by rw [hother g hgf]; exact hb,
        hholds (hs.holds hgf hold)⟩

/-- A feed that has been added gets one more call. -/
theorem tally_some (hmade : s.made feed = some t) (hs : Others s s' feed) (type : ℕ) :
    s'.tally feed type = { s' with made := update s.made feed (some (t.inc type)) } := by
  unfold Service.tally
  rw [hs.made, hmade]
  rfl

/-- A feed that has not been added has no tally. -/
theorem tally_none (hmade : s.made feed = none) (type : ℕ) : s.tally feed type = s := by
  unfold Service.tally
  rw [hmade]
  have : update s.made feed none = s.made := by
    rw [← hmade]
    exact update_eq_self feed s.made
  rw [Option.map_none, this]

/-- A call that queues its feed. -/
theorem inc_missed (hmiss : s.isHitted feed = false) : s.inc type feed =
    if type = 1 then { s.tally feed type with clicks := s.clicks ++ [feed] }
    else if type = 2 then { s.tally feed type with replys := s.replys ++ [feed] }
    else s.tally feed type := by
  unfold Service.inc Service.updateFeedInteraction
  simp only [hmiss, Bool.false_eq_true, if_false]
  rfl

theorem inc_hitted (hhit : s.isHitted feed) : s.inc type feed = (bump s feed type).tally feed type := by
  unfold Service.inc Service.updateFeedInteraction
  simp only [hhit, if_true]
  rfl

/-- The queues after a call that is not counted at once. -/
def queuedAfter (s : Service) (type : ℕ) (feed : ℤ) : List (ℕ × ℤ) :=
  (if type = 1 then s.clicks ++ [feed] else s.clicks).map (fun feed => (1, feed)) ++
    (if type = 2 then s.replys ++ [feed] else s.replys).map fun feed => (2, feed)

theorem count_queuedAfter (s : Service) (type : ℕ) (feed g : ℤ) (k : ℕ) :
    (queuedAfter s type feed).count (k, g) = s.pending.count (k, g) +
      if g = feed ∧ k = type ∧ (type = 1 ∨ type = 2) then 1 else 0 := by
  unfold queuedAfter
  rw [List.count_append, count_pair, count_pair, count_pending]
  by_cases h1 : type = 1
  · subst h1
    by_cases hk : k = 1 <;> by_cases hg : g = feed <;>
      simp [hk, hg, List.count_append, Ne.symm]
  · by_cases h2 : type = 2
    · subst h2
      by_cases hk : k = 2 <;> by_cases hg : g = feed <;>
        simp [hk, hg, List.count_append, Ne.symm]
    · simp [h1, h2]

theorem mem_queuedAfter {e : ℕ × ℤ} (h : e ∈ queuedAfter s type feed) :
    e ∈ s.pending ∨ e.2 = feed ∧ (e.1 = 1 ∨ e.1 = 2) := by
  unfold queuedAfter at h
  unfold Service.pending
  rcases List.mem_append.mp h with h | h <;> obtain ⟨g, hg, rfl⟩ := List.mem_map.mp h
  · split_ifs at hg
    · rcases List.mem_append.mp hg with hg | hg
      · exact .inl (List.mem_append_left _ (List.mem_map_of_mem hg))
      · exact .inr ⟨List.mem_singleton.mp hg, .inl rfl⟩
    · exact .inl (List.mem_append_left _ (List.mem_map_of_mem hg))
  · split_ifs at hg
    · rcases List.mem_append.mp hg with hg | hg
      · exact .inl (List.mem_append_right _ (List.mem_map_of_mem hg))
      · exact .inr ⟨List.mem_singleton.mp hg, .inr rfl⟩
    · exact .inl (List.mem_append_right _ (List.mem_map_of_mem hg))

/-- A call that is queued leaves the rest as it is. -/
theorem balanced_missed (hmiss : s.isHitted feed = false)
    (h : Accounts (s.tally feed type) (queuedAfter s type feed)) : Balanced (s.inc type feed) := by
  rw [inc_missed hmiss]
  unfold queuedAfter at h
  unfold Balanced Service.pending
  split_ifs with h1 h2
  · rw [if_pos h1, if_neg (by omega)] at h
    exact h.keeps (keeps_queues _ _ _)
  · rw [if_neg h1, if_pos h2] at h
    exact h.keeps (keeps_queues _ _ _)
  · rw [if_neg h1, if_neg h2] at h
    exact h

/-- A count goes up in memory and among what is owed. -/
theorem balanced_inc (h : Balanced s) (hpos : 0 < feed)
    (hin : ∀ t, s.made feed = some t → (t.inc type).Within) : Balanced (s.inc type feed) := by
  have hqueued : ∀ e ∈ queuedAfter s type feed, 0 < e.2 ∧ (e.1 = 1 ∨ e.1 = 2) := by
    intro e he
    rcases mem_queuedAfter he with he | ⟨hfeed, htype⟩
    · exact h.queued e he
    · exact ⟨by rw [hfeed]; exact hpos, htype⟩
  cases hmade : s.made feed with
  | none =>
      refine balanced_missed (h.absent feed hpos hmade).not_hitted ?_
      rw [tally_none hmade]
      refine h.count_congr (fun g t hg k => ?_) hqueued
      rw [count_queuedAfter, if_neg, Nat.add_zero]
      rintro ⟨rfl, -⟩
      rw [hmade] at hg
      cases hg
  | some t =>
      obtain ⟨a, b, ha, hb, hholds⟩ := h.settles feed t hmade
      have hwithin := hin t hmade
      have htype : type ≠ 3 := by
        rintro rfl
        have := hwithin.views
        simp [Tally.inc] at this
      by_cases hhit : s.isHitted feed
      · rw [inc_hitted hhit]
        have hslot := isHitted_iff.mp hhit
        have hclicks : (t.inc type).clicks = clicksAfter a type + s.pending.count (1, feed) := by
          unfold Tally.inc clicksAfter
          dsimp only
          split_ifs <;> omega
        have hreplies : (t.inc type).replies = repliesAfter b type + s.pending.count (2, feed) := by
          unfold Tally.inc repliesAfter
          dsimp only
          split_ifs <;> omega
        have hnew := holds_bump hholds hslot (by have := hwithin.clicks; omega)
          (by have := hwithin.replies; omega) htype
        rw [tally_some hmade (others_bump hslot type)]
        exact accounts_set h hpos hwithin (others_bump hslot type) (fun _ _ _ => rfl) h.queued
          ⟨_, _, hclicks, hreplies, hnew⟩
      · refine balanced_missed (by simpa using hhit) ?_
        rw [tally_some hmade (.refl s feed)]
        refine accounts_set h hpos hwithin (.refl s feed) (fun g hg k => ?_) hqueued
          ⟨a, b, ?_, ?_, hholds⟩
        · rw [count_queuedAfter, if_neg fun hc => hg hc.1, Nat.add_zero]
        · rw [count_queuedAfter]
          unfold Tally.inc
          dsimp only
          split_ifs <;> omega
        · rw [count_queuedAfter]
          unfold Tally.inc
          dsimp only
          split_ifs <;> omega

/-! ## Adding -/

theorem balanced_add (h : Balanced s) (hpos : 0 < feed)
    (hqueue : s.made feed = none → feed ∉ s.clicks ∧ feed ∉ s.replys) (actor range time : ℤ) :
    Balanced (s.addFeedInteraction feed actor range time) := by
  unfold Service.addFeedInteraction Service.insertFeedInteraction
  cases hmade : s.made feed with
  | some t =>
      -- the feed is known, and stays as it is
      obtain ⟨a, b, -, -, hholds⟩ := h.settles feed t hmade
      have hsame : update s.made feed (some t) = s.made := by
        rw [← hmade]
        exact update_eq_self feed s.made
      rw [Option.getD_some, hsame, if_pos hholds.query_feed, ite_self]
      exact h
  | none =>
      have habs := h.absent feed hpos hmade
      rw [if_neg (by simp [habs.not_hitted]), habs.query, if_neg (by simp [CacheItem.new]; omega)]
      obtain ⟨hclicks, hreplys⟩ := hqueue hmade
      have hcount : ∀ k, s.pending.count (k, feed) = 0 := by
        intro k
        rw [count_pending, List.count_eq_zero_of_not_mem hclicks,
          List.count_eq_zero_of_not_mem hreplys, ite_self, ite_self]
      have hslot : Others s (s.setSlot feed ⟨feed, range, 0⟩) feed := others_setSlot rfl
      have hothers := hslot.trans (others_setDirty _ feed ⟨feed, 0, 0, 0, range, actor, time⟩)
      have hdirty : update s.dirty feed (some ⟨feed, 0, 0, 0, range, actor, time⟩) feed =
          some ⟨feed, 0, 0, 0, range, actor, time⟩ :=
        update_self _ _ _
      have hnew : Settles { s.setSlot feed ⟨feed, range, 0⟩ with
          dirty := update s.dirty feed (some ⟨feed, 0, 0, 0, range, actor, time⟩) }
          s.pending feed ⟨0, 0, 0⟩ := by
        refine ⟨0, 0, by rw [hcount], by rw [hcount], fun _ => ?_, fun d hd => ?_, fun hd => ?_,
          fun d hd => ?_⟩
        · change ((s.setSlot feed ⟨feed, range, 0⟩).slot feed).count = _
          rw [slot_setSlot_self]
          rfl
        · rw [← Option.some.inj (hdirty.symm.trans hd)]
          exact ⟨rfl, rfl, rfl, rfl⟩
        · exact absurd (hdirty.symm.trans hd) nofun
        · exact absurd (habs.table.symm.trans hd) nofun
      exact accounts_set h hpos ⟨by decide, by decide, rfl⟩ hothers (fun _ _ _ => rfl) h.queued hnew

/-! ## Asking and writing -/

theorem balanced_find (h : Balanced s) (hpos : 0 < feed) (hload : s.isHitted feed ∨ Loads s feed) :
    Balanced (s.findFeedInteraction feed).2 := by
  unfold Service.findFeedInteraction
  by_cases hhit : s.isHitted feed
  · rw [if_pos hhit]
    exact h
  · rw [if_neg hhit]
    dsimp only
    cases hmade : s.made feed with
    | none =>
        rw [(h.absent feed hpos hmade).query, if_pos (by decide)]
        exact h
    | some t =>
        have hright := rightItem_query h hmade (hload.resolve_left hhit)
        obtain ⟨a, b, -, -, hholds⟩ := h.settles feed t hmade
        have hkeeps := keeps_storeItem hright
        unfold Service.storeItem at hkeeps
        rw [hholds.query_feed] at hkeeps ⊢
        rw [if_neg (by omega)] at hkeeps ⊢
        exact h.keeps hkeeps

theorem keeps_clearDirtyCache (s : Service) : Keeps s s.clearDirtyCache where
  holds {g a b} h := by
    unfold Service.clearDirtyCache
    cases hd : s.dirty g with
    | none =>
        refine ⟨h.slot, nofun, fun _ => ?_, ?_⟩
        · simpa only [hd] using h.row hd
        · simpa only [hd] using h.rowFeed
    | some d =>
        have hcounts := h.dirty d hd
        have hsave : Counts (d.save (s.table g)) g a b := by
          cases hrow : s.table g with
          | none => exact hcounts
          | some row => exact ⟨h.rowFeed row hrow, hcounts.clicks, hcounts.replies, hcounts.views⟩
        refine ⟨h.slot, nofun, fun _ => ⟨d.save (s.table g), ?_, hsave⟩, fun d' hd' => ?_⟩
        · simp only [hd]
        · simp only [hd, Option.some.injEq] at hd'
          rw [← hd']
          exact hsave.feed_eq
  absent {g} h := by
    refine ⟨h.slot, rfl, ?_⟩
    unfold Service.clearDirtyCache
    simp only [h.dirty, h.table]
  made := rfl

/-! ## The timer -/

theorem mem_idset {clicks replys : List ℤ} : feed ∈ Service.idset clicks replys ↔ feed ∈ clicks ++ replys := by
  unfold Service.idset
  rw [OrdMap.mem_keys_insertAll, List.map_map]
  simp [OrdMap.empty]

/-- Neither loading nor counting touches the queues. -/
theorem queues_storeItems (items : List CacheItem) (s : Service) :
    (items.foldl Service.storeItem s).clicks = s.clicks ∧
      (items.foldl Service.storeItem s).replys = s.replys := by
  induction items generalizing s with
  | nil => exact ⟨rfl, rfl⟩
  | cons item l ih =>
      have hone : (s.storeItem item).clicks = s.clicks ∧ (s.storeItem item).replys = s.replys := by
        unfold Service.storeItem
        split_ifs <;> exact ⟨rfl, rfl⟩
      exact ⟨(ih _).1.trans hone.1, (ih _).2.trans hone.2⟩

theorem queues_foldl (q : List (ℕ × ℤ)) (s : Service) :
    let s' := q.foldl (fun s e => (s.updateFeedInteraction e.2 e.1 true).2) s
    s'.clicks = s.clicks ∧ s'.replys = s.replys := by
  induction q generalizing s with
  | nil => exact ⟨rfl, rfl⟩
  | cons e q ih =>
      have hone : (s.updateFeedInteraction e.2 e.1 true).2.clicks = s.clicks ∧
          (s.updateFeedInteraction e.2 e.1 true).2.replys = s.replys := by
        unfold Service.updateFeedInteraction
        dsimp only
        split_ifs <;> exact ⟨rfl, rfl⟩
      exact ⟨(ih _).1.trans hone.1, (ih _).2.trans hone.2⟩

/-- The queued calls are of feeds that are not there, or one of their feeds is not in its slot. -/
def Service.Wakes (s : Service) : Prop :=
  (∀ feed ∈ s.clicks ++ s.replys, s.made feed = none) ∨
    ∃ feed ∈ s.clicks ++ s.replys, ¬ s.isHitted feed

instance (s : Service) : Decidable s.Wakes := inferInstanceAs (Decidable (_ ∨ _))

/-- The timer writes what is owed. -/
theorem balanced_handle (h : Balanced s) (hwakes : s.Wakes)
    (hload : ∀ feed ∈ s.clicks ++ s.replys, ∀ t, s.made feed = some t → t.replies < 2 ^ 15)
    (arrived : ℤ → Bool) : Balanced (s.handle arrived) := by
  have hacc : Accounts { s with clicks := [], replys := [] } s.pending := h.keeps (keeps_queues s [] [])
  unfold Service.handle
  dsimp only
  split_ifs with htmp
  · -- every queued feed is in its slot, so none of them has been added
    have hnone : ∀ feed ∈ s.clicks ++ s.replys, s.made feed = none := by
      refine hwakes.resolve_right ?_
      rintro ⟨feed, hfeed, hmiss⟩
      have hmem : feed ∈ (Service.idset s.clicks s.replys).filter fun feed =>
          ¬ ({ s with clicks := [], replys := [] } : Service).isHitted feed :=
        List.mem_filter.mpr ⟨mem_idset.mpr hfeed, decide_eq_true hmiss⟩
      rw [htmp] at hmem
      cases hmem
    refine hacc.count_congr (fun feed t hmade k => ?_) (fun e he => absurd he List.not_mem_nil)
    symm
    apply List.count_eq_zero.mpr
    intro hmem
    have := hnone feed (mem_pending hmem)
    rw [this] at hmade
    cases hmade
  · have hpos : ∀ feed ∈ s.clicks ++ s.replys, 0 < feed := by
      intro feed hfeed
      rcases List.mem_append.mp hfeed with hfeed | hfeed
      · exact (h.queued (1, feed) (List.mem_append_left _ (List.mem_map_of_mem hfeed))).1
      · exact (h.queued (2, feed) (List.mem_append_right _ (List.mem_map_of_mem hfeed))).1
    generalize hlist : ((Service.idset s.clicks s.replys).filter fun feed =>
      ¬ ({ s with clicks := [], replys := [] } : Service).isHitted feed) = tmp
    have hsub : ∀ feed ∈ tmp.filter fun feed =>
        ¬ ({ s with clicks := [], replys := [] } : Service).isHitted feed,
        feed ∈ s.clicks ++ s.replys := by
      intro feed hfeed
      have hmem := (List.mem_filter.mp hfeed).1
      rw [← hlist] at hmem
      exact mem_idset.mp (List.mem_filter.mp hmem).1
    unfold Service.findFeedInteractions
    generalize hitems : Service.queryCacheItems _ arrived _ = items
    have hright := rightItem_queryCacheItems hacc arrived (fun feed hf => hpos feed (hsub feed hf))
      fun feed hf t hmade => .inr (hload feed (hsub feed hf) t hmade)
    rw [hitems] at hright
    obtain ⟨hloaded, hmade⟩ := accounts_storeItems items hacc hright
    have hcounted := accounts_foldl s.pending hloaded fun e he t ht => by
      rw [hmade] at ht
      exact hload e.2 (mem_pending he) t ht
    have hqueues := queues_foldl s.pending (items.foldl Service.storeItem { s with clicks := [], replys := [] })
    have hqueues' := queues_storeItems items { s with clicks := [], replys := [] }
    have hfold : s.pending.foldl (fun s e => (s.updateFeedInteraction e.2 e.1 true).2)
        (items.foldl Service.storeItem { s with clicks := [], replys := [] }) =
          s.replys.foldl (fun s feed => (s.updateFeedInteraction feed 2 true).2)
            (s.clicks.foldl (fun s feed => (s.updateFeedInteraction feed 1 true).2)
              (items.foldl Service.storeItem { s with clicks := [], replys := [] })) := by
      unfold Service.pending
      rw [List.foldl_append, List.foldl_map, List.foldl_map]
    rw [hfold] at hcounted hqueues
    unfold Balanced Service.pending
    rw [hqueues.1, hqueues.2, hqueues'.1, hqueues'.2]
    exact hcounted

/-! ## Runs -/

/-- What an operation must find: ids that are positive, a feed that is added with none of its
calls queued; no view of a feed that has been added, and counts that fit; a timer that wakes; a
load of replies that fit. -/
def ServiceOp.Fits (s : Service) : ServiceOp → Prop
  | .addFeedInteraction feed _ _ _ =>
    0 < feed ∧ (s.made feed = none → feed ∉ s.clicks ∧ feed ∉ s.replys)
  | .inc type feed => 0 < feed ∧ ∀ t, s.made feed = some t → (t.inc type).Within
  | .handle _ =>
    s.Wakes ∧ ∀ feed ∈ s.clicks ++ s.replys, ∀ t, s.made feed = some t → t.replies < 2 ^ 15
  | .getFeedInteractionCount feed => 0 < feed ∧ (s.isHitted feed ∨ Loads s feed)
  | .clearDirtyCache => True

instance (s : Service) : (op : ServiceOp) → Decidable (op.Fits s)
  | .addFeedInteraction .. => inferInstanceAs (Decidable (_ ∧ _))
  | .inc type feed =>
    inferInstanceAs (Decidable (0 < feed ∧ ∀ t ∈ s.made feed, (t.inc type).Within))
  | .handle _ => inferInstanceAs (Decidable
      (s.Wakes ∧ ∀ feed ∈ s.clicks ++ s.replys, ∀ t ∈ s.made feed, t.replies < 2 ^ 15))
  | .getFeedInteractionCount _ => inferInstanceAs (Decidable (_ ∧ _))
  | .clearDirtyCache => inferInstanceAs (Decidable True)

/-- **The step lemma.** -/
theorem balanced_step (s : Service) (op : ServiceOp) (h : Balanced s) (hop : op.Fits s) :
    Balanced (op.step s) := by
  cases op with
  | addFeedInteraction feed actor range time => exact balanced_add h hop.1 hop.2 actor range time
  | inc type feed => exact balanced_inc h hop.1 hop.2
  | handle arrived => exact balanced_handle h hop.1 hop.2 arrived
  | getFeedInteractionCount feed => exact balanced_find h hop.1 hop.2
  | clearDirtyCache => exact h.keeps (keeps_clearDirtyCache s)

/-- **In every run whose operations fit, a feed of which nothing is queued or dirty has a row
with the clicks, the replies and the views that were made since it was added, and it is
answered its clicks and replies.** -/
theorem counts_kept (ops : List ServiceOp) (h : StepsMeet ServiceOp.step ServiceOp.Fits .new ops) :
    let s := runOps ServiceOp.step .new ops
    ∀ feed t, s.made feed = some t → feed ∉ s.clicks → feed ∉ s.replys → s.dirty feed = none →
      (∃ row, s.table feed = some row ∧ row.clickCount = t.clicks ∧ row.replyCount = t.replies ∧
        row.viewCount = t.views) ∧
      (s.getFeedInteractionCount feed).1 = ((t.clicks : ℤ), (t.replies : ℤ)) := by
  intro s feed t hmade hclicks hreplys hdirty
  have hs : Balanced s := run_invariant balanced_step balanced_new h
  obtain ⟨a, b, ha, hb, hholds⟩ := hs.settles feed t hmade
  have hwithin := hs.within feed t hmade
  rw [count_pending, List.count_eq_zero_of_not_mem hclicks, List.count_eq_zero_of_not_mem hreplys,
    ite_self, ite_self, Nat.add_zero] at ha hb
  subst ha hb
  refine ⟨?_, ?_⟩
  · obtain ⟨row, hrow, hcounts⟩ := hholds.row hdirty
    exact ⟨row, hrow, hcounts.clicks, hcounts.replies, by rw [hcounts.views, hwithin.views]; rfl⟩
  · have hfound : (s.findFeedInteraction feed).1.count = packed t.clicks t.replies := by
      unfold Service.findFeedInteraction
      by_cases hhit : s.isHitted feed
      · rw [if_pos hhit]
        exact hholds.slot (isHitted_iff.mp hhit)
      · rw [if_neg hhit]
        exact hholds.query_count hwithin.clicks hwithin.replies (.inl hdirty)
    have hclicks' := hwithin.clicks
    have hreplies' := hwithin.replies
    unfold Service.getFeedInteractionCount toInt32
    dsimp only
    rw [hfound]
    unfold packed
    refine Prod.ext ?_ ?_
    · dsimp only
      omega
    · dsimp only
      rw [Int.bmod_def]
      split_ifs <;> omega

/-! ## Sample runs -/

/-- The feeds 11 and 12 share a slot. The click of 11 is queued until the timer comes. -/
def sharedSlot : List ServiceOp :=
  [.addFeedInteraction 11 7 1 100, .inc 2 11, .addFeedInteraction 12 7 1 101, .inc 1 11,
    .inc 1 12, .handle fun _ => true, .clearDirtyCache]

/-- The views of a feed are asked for as replies. -/
def viewed : List ServiceOp := [.addFeedInteraction 11 7 1 100, .inc 3 11, .clearDirtyCache]

/-- The feed is back in its slot when the timer comes, so its click goes with the queue. -/
def backInSlot : List ServiceOp :=
  [.addFeedInteraction 11 7 1 100, .addFeedInteraction 12 7 1 101, .inc 1 11,
    .getFeedInteractionCount 11, .handle fun _ => true, .clearDirtyCache]

theorem counts_kept_sharedSlot :
    let s := runOps ServiceOp.step .new sharedSlot
    (∃ row, s.table 11 = some row ∧ row.clickCount = 1 ∧ row.replyCount = 1 ∧ row.viewCount = 0) ∧
      (s.getFeedInteractionCount 11).1 = (1, 1) :=
  counts_kept sharedSlot (by decide) 11 ⟨1, 1, 0⟩ (by decide) (by decide) (by decide) (by decide)

/-- A view is answered as 65536 replies, and the click of `backInSlot` is neither in the row nor
in the answer. -/
theorem counts_spill_and_go :
    let s := runOps ServiceOp.step .new viewed
    let s' := runOps ServiceOp.step .new backInSlot
    (s.made 11 = some ⟨0, 0, 1⟩ ∧ (s.getFeedInteractionCount 11).1 = (0, 65536)) ∧
      s'.made 11 = some ⟨1, 0, 0⟩ ∧ s'.clicks = [] ∧ s'.dirty 11 = none ∧
      (s'.table 11).map DbItem.clickCount = some 0 ∧
      (s'.getFeedInteractionCount 11).1 = (0, 0) := by
  decide

end Oce.FeedInteraction
