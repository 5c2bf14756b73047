import Oce.FeedCacheN.Analysis.FeedSlots

/-!
# Removals from a user's feeds

A tidying removal that has come down to the slot `n` has above it the feeds that stay, then only
free slots, and `start` is the first of these (`Sweeping`); at the end the ring holds the feeds that
stay in their order. A removal that does not tidy clears the newest feed of the id
(`sweepLoop_first`).

A removal of one id takes one off the size, however many feeds of that id a tidying one has
cleared; so it is right about a feed that is stored once, or does not tidy.
-/

set_option autoImplicit false

namespace Oce.FeedCacheN.UserFeed

variable {u u₀ : UserFeed} {n b i j : ℕ} {item : FeedItem} {p : ℤ → Bool} {s : Sweep}

/-! ## A tidying removal -/

/-- A tidying removal of what `p` says has come down to the slot `n`. -/
structure Sweeping (p : ℤ → Bool) (u₀ : UserFeed) (n : ℕ) (s : Sweep) : Prop where
  endPos : s.user.endPos = u₀.endPos
  nonneg : ∀ i, 0 ≤ (s.user.feeds i).feed
  left : ∀ j < n, s.user.look j = u₀.look j
  kept : above s.user.look n = (above u₀.look n).filter fun e => ¬ p e.feed
  start : (s.start = -1 ∧ ∀ j, n ≤ j → j < feedCount → (s.user.look j).feed ≠ 0) ∨
    ∃ b, n ≤ b ∧ b < feedCount ∧ s.start = u₀.endPos + b ∧
      (∀ j, n ≤ j → j ≤ b → (s.user.look j).feed = 0) ∧
      ∀ j, b < j → j < feedCount → (s.user.look j).feed ≠ 0
  rises : u₀.Rises s.user
  count : s.count = (above u₀.look n).length
  taken : s.taken = (above u₀.look n).countP fun e => p e.feed

theorem Sweeping.init (hu : ∀ i, 0 ≤ (u.feeds i).feed) : Sweeping p u feedCount ⟨u, -1, 0, 0⟩ where
  endPos := rfl
  nonneg := hu
  left _ _ := rfl
  kept := by
    show above u.look feedCount = _
    rw [above_feedCount]
    rfl
  start := .inl ⟨rfl, fun j hj hlt => absurd hlt (by omega)⟩
  rises := Rises.refl u
  count := by
    rw [above_feedCount]
    rfl
  taken := by
    rw [above_feedCount]
    rfl

/-- The count and the slot's feed after the first test of a round. -/
def seen (s : Sweep) (n : ℕ) : Sweep :=
  { s with count := if 0 < (s.user.look n).feed then s.count + 1 else s.count }

/-- The feed of the slot `n` is cleared. -/
def clearAt (s : Sweep) (n : ℕ) : Sweep :=
  { s with user := s.user.setSlot n (s.user.look n).cleared, taken := s.taken + 1 }

theorem Sweeping.count_seen (h : Sweeping p u₀ (n + 1) s) (hn : n < feedCount) :
    (seen s n).count = (above u₀.look n).length := by
  have hleft := h.left n (Nat.lt_succ_self n)
  have hnonneg : 0 ≤ (u₀.look n).feed := hleft ▸ h.nonneg _
  unfold seen
  rw [above_eq _ hn, List.length_append, hleft, h.count]
  by_cases hx : (u₀.look n).feed = 0
  · rw [occupant_of_eq hx, hx]
    simp
  · have hpos : 0 < (u₀.look n).feed := lt_of_le_of_ne hnonneg (Ne.symm hx)
    rw [occupant_of_ne hx, if_pos hpos]
    simp

/-- A slot whose feed is cleared, or that was free, is the first free one or one of them. -/
theorem Sweeping.empty (h : Sweeping p u₀ (n + 1) s) (hn : n < feedCount) {u : UserFeed}
    (hu : ∀ i, 0 ≤ (u.feeds i).feed) (hend : u.endPos = u₀.endPos)
    (hlook : ∀ j < feedCount, j ≠ n → u.look j = s.user.look j) (hfree : (u.look n).feed = 0)
    (hgone : (u₀.look n).feed = 0 ∨ p (u₀.look n).feed = true) {taken : ℕ}
    (htaken : taken = (above u₀.look n).countP fun e => p e.feed) {count : ℤ}
    (hcount : count = (above u₀.look n).length) :
    Sweeping p u₀ n (Sweep.tidyAt ⟨u, s.start, taken, count⟩ n) := by
  have hstep : Sweep.tidyAt ⟨u, s.start, taken, count⟩ n =
      ⟨u, if s.start = -1 then (u₀.endPos + n : ℤ) else s.start, taken, count⟩ := by
    unfold Sweep.tidyAt
    dsimp only
    rw [if_neg (by rw [hfree]; simp), hend]
    simp [hfree]
  rw [hstep]
  refine ⟨hend, hu, fun j hj => ?_, ?_, .inr ?_, fun j hj hfeed => ?_, hcount, htaken⟩
  · rw [hlook j (by omega) (by omega)]
    exact h.left j (by omega)
  · have hkeep : (occupant (u₀.look n)).filter (fun e => ¬ p e.feed) = [] := by
      unfold occupant
      rcases hgone with hgone | hgone
      · simp [hgone]
      · split <;> simp [hgone]
    show above u.look n = _
    rw [above_eq _ hn, above_eq _ hn, List.filter_append, hkeep, occupant_of_eq hfree, ← h.kept,
      above_congr fun j hj hlt => hlook j hlt (by omega)]
  · rcases h.start with ⟨hnone, hfull⟩ | ⟨b, hnb, hb, hstart, hzero, hfull⟩
    · refine ⟨n, le_refl n, hn, by simp [hnone], fun j hj hle => ?_, fun j hj hlt => ?_⟩
      · have hjn : j = n := by omega
        rw [hjn]
        exact hfree
      · rw [hlook j hlt (by omega)]
        exact hfull j hj hlt
    · refine ⟨b, by omega, hb, ?_, fun j hj hle => ?_, fun j hj hlt => ?_⟩
      · rw [if_neg (by omega)]
        exact hstart
      · by_cases hjn : j = n
        · rw [hjn]
          exact hfree
        · rw [hlook j (by omega) hjn]
          exact hzero j (by omega) hle
      · rw [hlook j hlt (by omega)]
        exact hfull j hj hlt
  · have hjn : j ≠ n := fun hjn => hfeed (hjn ▸ hfree)
    show ∃ i ≤ j, u₀.look i = u.look j
    rw [hlook j hj hjn]
    exact h.rises j hj (by rw [← hlook j hj hjn]; exact hfeed)

section Stay

variable (h : Sweeping p u₀ (n + 1) s) (hn : n < feedCount) (hx : (u₀.look n).feed ≠ 0)
  (hp : p (u₀.look n).feed = false)
include h hx

theorem Sweeping.pos : 0 < (s.user.look n).feed :=
  lt_of_le_of_ne (h.nonneg _) (by rw [h.left n (Nat.lt_succ_self n)]; exact Ne.symm hx)

include hn hp

theorem Sweeping.taken_stay : s.taken = (above u₀.look n).countP fun e => p e.feed := by
  rw [above_eq _ hn, List.countP_append, h.taken, occupant_of_ne hx, List.countP_singleton, hp]
  rfl

theorem Sweeping.kept_stay : (above u₀.look n).filter (fun e => ¬ p e.feed) =
    above s.user.look (n + 1) ++ [s.user.look n] := by
  rw [above_eq _ hn, List.filter_append, ← h.kept, occupant_of_ne hx, h.left n (Nat.lt_succ_self n),
    List.filter_singleton, hp]
  rfl

/-- Where no slot is free, the feed stays in its slot. -/
theorem Sweeping.stay_full (hnone : s.start = -1)
    (hfull : ∀ j, n + 1 ≤ j → j < feedCount → (s.user.look j).feed ≠ 0) :
    Sweeping p u₀ n ((seen s n).tidyAt n) := by
  have hpos := h.pos hx
  have hstep : (seen s n).tidyAt n = seen s n := by
    have hno : ¬ (s.start = -1 ∧ (s.user.look n).feed = 0) := fun hh => hpos.ne' hh.2
    unfold Sweep.tidyAt seen
    dsimp only
    rw [if_neg hno, if_neg (by rw [hnone]; simp)]
  rw [hstep]
  refine ⟨h.endPos, h.nonneg, fun j hj => h.left j (by omega), ?_, .inl ⟨hnone, fun j hj hlt => ?_⟩,
    h.rises, h.count_seen hn, h.taken_stay hn hx hp⟩
  · show above s.user.look n = _
    rw [h.kept_stay hn hx hp, above_eq _ hn, occupant_of_ne hpos.ne']
  · by_cases hjn : j = n
    · rw [hjn]
      exact hpos.ne'
    · exact hfull j (by omega) hlt

/-- Otherwise it goes to the first free slot, and the one below that is the next. -/
theorem Sweeping.stay_moves (hnb : n + 1 ≤ b) (hb : b < feedCount) (hstart : s.start = u₀.endPos + b)
    (hzero : ∀ j, n + 1 ≤ j → j ≤ b → (s.user.look j).feed = 0)
    (hfull : ∀ j, b < j → j < feedCount → (s.user.look j).feed ≠ 0) :
    Sweeping p u₀ n ((seen s n).tidyAt n) := by
  have hpos := h.pos hx
  have hslot : s.start.toNat = s.user.endPos + b := by
    rw [hstart, h.endPos]
    omega
  have hstep : (seen s n).tidyAt n =
      ⟨(s.user.setSlot b (s.user.look n)).setSlot n (s.user.look n).cleared, s.start - 1, s.taken,
        (seen s n).count⟩ := by
    have hno : ¬ (s.start = -1 ∧ (s.user.look n).feed = 0) := fun hh => hpos.ne' hh.2
    have hstart_pos : 0 < s.start := by
      rw [hstart]
      omega
    unfold Sweep.tidyAt seen
    dsimp only
    rw [if_neg hno, if_pos ⟨hstart_pos, hpos⟩, hslot]
    rfl
  have hlook : ∀ j < feedCount,
      ((s.user.setSlot b (s.user.look n)).setSlot n (s.user.look n).cleared).look j =
        if j = n then (s.user.look n).cleared else if j = b then s.user.look n
        else s.user.look j := by
    intro j hj
    rw [look_setSlot _ hn hj, look_setSlot _ hb hj]
  rw [hstep]
  refine ⟨h.endPos, fun i => ?_, fun j hj => ?_, ?_, .inr ⟨b - 1, by omega, by omega, ?_,
    fun j hj hle => ?_, fun j hj hlt => ?_⟩, fun j hj hfeed => ?_, h.count_seen hn,
    h.taken_stay hn hx hp⟩
  · exact feed_setAt_nonneg (feed_setAt_nonneg h.nonneg hpos.le _) (le_refl 0) _ i
  · show UserFeed.look _ j = _
    rw [hlook j (by omega), if_neg (by omega), if_neg (by omega)]
    exact h.left j (by omega)
  · have hskip : above s.user.look (n + 1) = above s.user.look (b + 1) :=
      above_skip (by omega) (by omega) fun j hj hlt => hzero j hj (by omega)
    show above (UserFeed.look _) n = _
    rw [h.kept_stay hn hx hp, hskip, above_skip (b := b) (by omega) hb.le, above_eq _ hb, hlook b hb,
      if_neg (by omega), if_pos rfl, occupant_of_ne hpos.ne',
      above_congr (g := s.user.look) fun j hj hlt => ?_]
    · rw [hlook j hlt, if_neg (by omega), if_neg (by omega)]
    · intro j hj hlt
      rw [hlook j (by omega)]
      split
      · rfl
      · rw [if_neg (by omega)]
        exact hzero j (by omega) (by omega)
  · show s.start - 1 = u₀.endPos + ((b - 1 : ℕ) : ℤ)
    rw [hstart]
    omega
  · show (UserFeed.look _ j).feed = 0
    rw [hlook j (by omega)]
    split
    · rfl
    · rw [if_neg (by omega)]
      exact hzero j (by omega) (by omega)
  · show (UserFeed.look _ j).feed ≠ 0
    rw [hlook j hlt, if_neg (by omega)]
    split
    · exact hpos.ne'
    · exact hfull j (by omega) hlt
  · change (UserFeed.look _ j).feed ≠ 0 at hfeed
    show ∃ i ≤ j, u₀.look i = UserFeed.look _ j
    rw [hlook j hj] at hfeed ⊢
    split at hfeed
    · exact absurd rfl hfeed
    · next hjn =>
        rw [if_neg hjn]
        split at hfeed
        · next hjb =>
            rw [if_pos hjb]
            exact ⟨n, by omega, (h.left n (Nat.lt_succ_self n)).symm⟩
        · next hjb =>
            rw [if_neg hjb]
            exact h.rises j hj hfeed

/-- A feed that stays goes to the first free slot. -/
theorem Sweeping.stay : Sweeping p u₀ n ((seen s n).tidyAt n) := by
  rcases h.start with ⟨hnone, hfull⟩ | ⟨b, hnb, hb, hstart, hzero, hfull⟩
  · exact h.stay_full hn hx hp hnone hfull
  · exact h.stay_moves hn hx hp hnb hb hstart hzero hfull

end Stay

theorem countP_occupant {q : FeedItem → Bool} {e : FeedItem} (he : e.feed ≠ 0) :
    (occupant e).countP q = if q e then 1 else 0 := by
  rw [occupant_of_ne he, List.countP_singleton]

/-- One round of a tidying removal. -/
theorem Sweeping.round (h : Sweeping p u₀ (n + 1) s) (hn : n < feedCount)
    (hx : p (u₀.look n).feed = true → (u₀.look n).feed ≠ 0) :
    Sweeping p u₀ n
      (if p (s.user.look n).feed then (clearAt (seen s n) n).tidyAt n else (seen s n).tidyAt n) := by
  have hleft := h.left n (Nat.lt_succ_self n)
  have hcount := h.count_seen hn
  rw [hleft]
  by_cases hp : p (u₀.look n).feed = true
  · rw [if_pos hp]
    refine h.empty hn (u := s.user.setSlot n (s.user.look n).cleared) (fun i => ?_) h.endPos
      (fun j hj hne => ?_) ?_ (.inr hp) ?_ hcount
    · exact feed_setAt_nonneg h.nonneg (le_refl 0) _ i
    · rw [look_setSlot _ hn hj, if_neg hne]
    · rw [look_setSlot _ hn hn, if_pos rfl]
      rfl
    · show s.taken + 1 = _
      rw [above_eq _ hn, List.countP_append, h.taken, countP_occupant (hx hp), if_pos hp]
  · rw [if_neg hp]
    by_cases hzero : (u₀.look n).feed = 0
    · refine h.empty hn (u := s.user) h.nonneg h.endPos (fun _ _ _ => rfl) (by rw [hleft, hzero])
        (.inl hzero) ?_ hcount
      rw [above_eq _ hn, List.countP_append, h.taken, occupant_of_eq hzero]
      rfl
    · exact h.stay hn hzero (by simpa using hp)

theorem sweepLoop_succ {size : ℤ} (hlt : s.count < size) :
    sweepLoop p true size (n + 1) s = sweepLoop p true size n
      (if p (s.user.look n).feed then (clearAt (seen s n) n).tidyAt n else (seen s n).tidyAt n) := by
  rw [sweepLoop, if_pos hlt]
  by_cases hp : p (s.user.look n).feed = true
  · rw [if_pos hp, if_pos hp]
    rfl
  · rw [if_neg hp, if_neg hp]
    rfl

/-- **A tidying removal keeps the other feeds in their order.** -/
theorem sweepLoop_tidy {size : ℤ} (h : Sweeping p u₀ n s) (hn : n ≤ feedCount)
    (hsize : size = u₀.stored.length) (hp : p 0 = true → u₀.Packed) :
    (sweepLoop p true size n s).user.stored = u₀.stored.filter (fun e => ¬ p e.feed) ∧
      (sweepLoop p true size n s).taken = u₀.stored.countP (fun e => p e.feed) ∧
      u₀.Rises (sweepLoop p true size n s).user ∧
      ∀ i, 0 ≤ ((sweepLoop p true size n s).user.feeds i).feed := by
  induction n generalizing s with
  | zero => exact ⟨h.kept, h.taken, h.rises, h.nonneg⟩
  | succ n ih =>
      have happ := above_append_below u₀.look hn
      have hleft : s.count + (below u₀.look (n + 1)).length = size := by
        rw [hsize, h.count, stored, ← happ, List.length_append]
        push_cast
        rfl
      by_cases hlt : s.count < size
      · have hx : p (u₀.look n).feed = true → (u₀.look n).feed ≠ 0 := fun hpx hzero =>
          (hp (by rw [← hzero]; exact hpx)).feed_ne_zero (by omega) ((lt_size_iff hleft).mp hlt) hzero
        rw [sweepLoop_succ hlt]
        exact ih (h.round (by omega) hx) (by omega)
      · have hnil := below_eq_nil hleft hlt
        have hstored : u₀.stored = above u₀.look (n + 1) := by
          rw [stored, ← happ, hnil, List.append_nil]
        rw [sweepLoop, if_neg hlt, hstored, ← h.kept, ← h.taken]
        refine ⟨?_, rfl, h.rises, h.nonneg⟩
        rw [stored, ← above_append_below _ hn, below_congr h.left, hnil, List.append_nil]

/-! ## A removal that does not tidy -/

/-- **It clears the newest feed that `p` says.** -/
theorem sweepLoop_first {size c : ℤ} (start : ℤ) (taken : ℕ) (hu : ∀ i, 0 ≤ (u.feeds i).feed)
    (hn : n ≤ feedCount) (hp : p 0 = false) (hc : c + (below u.look n).length = size) :
    (sweepLoop p false size n ⟨u, start, taken, c⟩).user.stored =
        above u.look n ++ (below u.look n).eraseP (fun e => p e.feed) ∧
      (sweepLoop p false size n ⟨u, start, taken, c⟩).taken =
        taken + (if (below u.look n).any (fun e => p e.feed) then 1 else 0) ∧
      u.Rises (sweepLoop p false size n ⟨u, start, taken, c⟩).user ∧
      ∀ i, 0 ≤ ((sweepLoop p false size n ⟨u, start, taken, c⟩).user.feeds i).feed := by
  induction n generalizing c with
  | zero => exact ⟨by simp [sweepLoop, stored], by simp [sweepLoop], Rises.refl u, hu⟩
  | succ n ih =>
      unfold sweepLoop
      by_cases hlt : c < size
      · have hnonneg : 0 ≤ (u.look n).feed := hu _
        have hcount : (if 0 < (u.look n).feed then c + 1 else c) =
            if (u.look n).feed ≠ 0 then c + 1 else c := by
          by_cases hzero : (u.look n).feed = 0
          · simp [hzero]
          · simp [hzero, lt_of_le_of_ne hnonneg (Ne.symm hzero)]
        have hnext := next_count hc
        rw [if_pos hlt]
        by_cases hpx : p (u.look n).feed = true
        · have hx : (u.look n).feed ≠ 0 := by
            intro hzero
            rw [hzero, hp] at hpx
            cases hpx
          dsimp only
          rw [if_pos hpx, if_neg (by simp), below_succ, occupant_of_ne hx, List.singleton_append]
          refine ⟨?_, by simp [hpx], fun j hj hfeed => ?_,
            fun i => feed_setAt_nonneg hu (le_refl 0) _ i⟩
          · rw [stored_setSlot u (by omega), occupant_cleared, List.append_nil, List.eraseP_cons, hpx]
            rfl
          · change (UserFeed.look _ j).feed ≠ 0 at hfeed
            show ∃ i ≤ j, u.look i = UserFeed.look _ j
            rw [look_setSlot u (by omega) hj] at hfeed ⊢
            split at hfeed
            · exact absurd rfl hfeed
            · next hjn => exact ⟨j, le_refl j, (if_neg hjn).symm⟩
        · dsimp only
          rw [if_neg hpx, hcount]
          obtain ⟨hstored, htaken, hrest⟩ := ih (by omega) hnext
          refine ⟨?_, ?_, hrest⟩
          · rw [if_neg (by simp), hstored, above_eq _ (by omega), below_succ, List.append_assoc]
            congr 1
            by_cases hzero : (u.look n).feed = 0
            · rw [occupant_of_eq hzero, List.nil_append, List.nil_append]
            · rw [occupant_of_ne hzero, List.singleton_append, List.singleton_append,
                List.eraseP_cons, (Bool.not_eq_true _).mp hpx]
              rfl
          · rw [if_neg (by simp), htaken, below_succ, List.any_append]
            have hno : (occupant (u.look n)).any (fun e => p e.feed) = false := by
              unfold occupant
              split
              · rfl
              · simpa using hpx
            rw [hno, Bool.false_or]
      · rw [if_neg hlt, below_eq_nil hc hlt]
        refine ⟨?_, by simp, Rises.refl u, hu⟩
        have happ := above_append_below u.look hn
        rw [below_eq_nil hc hlt, List.append_nil] at happ
        rw [List.eraseP_nil, List.append_nil]
        exact happ.symm

end Oce.FeedCacheN.UserFeed
