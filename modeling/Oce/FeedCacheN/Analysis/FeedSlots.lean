import Mathlib.Data.List.Basic
import Mathlib.Tactic.Push
import Oce.FeedCacheN.Model.UserFeed

/-!
# The slots of a user's feeds

`stored` lists the feeds that are in the ring, the newest first: those of the slots from `n` up
(`above`) and then those of the slots below (`below`). A loop that goes down to the slot `n` has
the feeds of `below` before it, so where the size is that of `stored` it stops exactly when nothing
is left there (`lt_size_iff`); with that every loop is a function of `stored`.

A tidying removal has, above the slot it has come to, the feeds that stay, and under them only free
slots (`Sweeping`). Its count of cleared slots includes free ones where it is asked for the id 0,
and is right then if no free slot lies above a feed (`Packed`).
-/

set_option autoImplicit false

namespace Oce.FeedCacheN

open Function

variable {f g : ℕ → FeedItem} {lo k n : ℕ}

variable {e : FeedItem} {c size : ℤ}

/-! ## Runs of slots -/

/-- The feed of a slot, if there is one. -/
def occupant (e : FeedItem) : List FeedItem := if e.feed = 0 then [] else [e]

/-- The feeds of `k` slots from `lo` up, the last slot first. -/
def filled (f : ℕ → FeedItem) (lo : ℕ) : ℕ → List FeedItem
  | 0 => []
  | k + 1 => occupant (f (lo + k)) ++ filled f lo k

theorem occupant_of_eq (h : e.feed = 0) : occupant e = [] := if_pos h

theorem occupant_of_ne (h : e.feed ≠ 0) : occupant e = [e] := if_neg h

@[simp] theorem occupant_cleared (e : FeedItem) : occupant e.cleared = [] := rfl

theorem filled_add (f : ℕ → FeedItem) (lo a b : ℕ) :
    filled f lo (a + b) = filled f (lo + a) b ++ filled f lo a := by
  induction b with
  | zero => rfl
  | succ b ih =>
      rw [← Nat.add_assoc, filled, ih, filled, List.append_assoc, Nat.add_assoc]

theorem filled_congr (h : ∀ j, lo ≤ j → j < lo + k → f j = g j) : filled f lo k = filled g lo k := by
  induction k with
  | zero => rfl
  | succ k ih =>
      rw [filled, filled, ih fun j hj hlt => h j hj (by omega), h (lo + k) (by omega) (by omega)]

theorem filled_eq_nil (h : ∀ j, lo ≤ j → j < lo + k → (f j).feed = 0) : filled f lo k = [] := by
  induction k with
  | zero => rfl
  | succ k ih =>
      rw [filled, ih fun j hj hlt => h j hj (by omega),
        occupant_of_eq (h (lo + k) (by omega) (by omega))]
      rfl

theorem filled_shift (f : ℕ → FeedItem) (lo a k : ℕ) :
    filled (fun j => f (j + a)) lo k = filled f (lo + a) k := by
  induction k with
  | zero => rfl
  | succ k ih => rw [filled, filled, ih, Nat.add_right_comm]

theorem length_filled_le (f : ℕ → FeedItem) (lo k : ℕ) : (filled f lo k).length ≤ k := by
  induction k with
  | zero => simp [filled]
  | succ k ih =>
      have hone : (occupant (f (lo + k))).length ≤ 1 := by
        unfold occupant
        split <;> simp
      rw [filled, List.length_append]
      omega

theorem exists_of_mem_filled (h : e ∈ filled f lo k) :
    e.feed ≠ 0 ∧ ∃ j, lo ≤ j ∧ j < lo + k ∧ f j = e := by
  induction k with
  | zero => cases h
  | succ k ih =>
      rw [filled, List.mem_append] at h
      rcases h with h | h
      · unfold occupant at h
        split at h
        · cases h
        · rename_i hne
          rw [List.mem_singleton] at h
          subst h
          exact ⟨hne, lo + k, by omega, by omega, rfl⟩
      · obtain ⟨hne, j, hj, hlt, hfj⟩ := ih h
        exact ⟨hne, j, hj, by omega, hfj⟩

/-- The feeds of the slots from `n` up. -/
def above (f : ℕ → FeedItem) (n : ℕ) : List FeedItem := filled f n (feedCount - n)

/-- The feeds of the slots below `n`. -/
def below (f : ℕ → FeedItem) (n : ℕ) : List FeedItem := filled f 0 n

@[simp] theorem below_zero (f : ℕ → FeedItem) : below f 0 = [] := rfl

theorem below_succ (f : ℕ → FeedItem) (n : ℕ) : below f (n + 1) = occupant (f n) ++ below f n := by
  unfold below
  rw [filled, Nat.zero_add]

theorem above_append_below (f : ℕ → FeedItem) (hn : n ≤ feedCount) :
    above f n ++ below f n = above f 0 := by
  have h := filled_add f 0 n (feedCount - n)
  rw [Nat.add_sub_cancel' hn, Nat.zero_add] at h
  exact h.symm

theorem above_eq (f : ℕ → FeedItem) (hn : n < feedCount) :
    above f n = above f (n + 1) ++ occupant (f n) := by
  have h := filled_add f n 1 (feedCount - (n + 1))
  have hlen : 1 + (feedCount - (n + 1)) = feedCount - n := by omega
  rw [hlen] at h
  unfold above
  rw [h, filled, filled, List.append_nil]
  rfl

theorem above_feedCount (f : ℕ → FeedItem) : above f feedCount = [] := by
  unfold above
  rw [Nat.sub_self]
  rfl

theorem below_feedCount (f : ℕ → FeedItem) : below f feedCount = above f 0 := rfl

/-- Free slots have no feeds. -/
theorem above_skip {b : ℕ} (hnb : n ≤ b) (hb : b ≤ feedCount)
    (h : ∀ j, n ≤ j → j < b → (f j).feed = 0) : above f n = above f b := by
  have hadd := filled_add f n (b - n) (feedCount - b)
  have hlen : b - n + (feedCount - b) = feedCount - n := by omega
  have hfree : filled f n (b - n) = [] := filled_eq_nil fun j hj hlt => h j hj (by omega)
  rw [hlen, Nat.add_sub_cancel' hnb, hfree, List.append_nil] at hadd
  exact hadd

theorem above_congr (h : ∀ j, n ≤ j → j < feedCount → f j = g j) : above f n = above g n :=
  filled_congr fun j hj hlt => h j hj (by omega)

theorem below_congr (h : ∀ j, j < n → f j = g j) : below f n = below g n :=
  filled_congr fun j _ hlt => h j (by omega)

/-! ## The ring -/

namespace UserFeed

variable {u : UserFeed} {a b i j : ℕ} {item : FeedItem}

/-- The feeds in the ring, the newest first. -/
def stored (u : UserFeed) : List FeedItem := above u.look 0

/-- The size is the number of feeds, and no feed has a negative id. -/
structure Sound (u : UserFeed) : Prop where
  size : u.size = u.stored.length
  nonneg : ∀ i, 0 ≤ (u.feeds i).feed

/-- No free slot lies above a feed. -/
def Packed (u : UserFeed) : Prop :=
  ∀ i < feedCount, ∀ j < feedCount, i < j → (u.look i).feed ≠ 0 → (u.look j).feed ≠ 0

instance (u : UserFeed) : Decidable u.Packed :=
  inferInstanceAs (Decidable (∀ i < feedCount, ∀ j < feedCount, _))

/-- Each feed of `u'` is one of `u`, and not in an older slot than there. -/
def Rises (u u' : UserFeed) : Prop :=
  ∀ j < feedCount, (u'.look j).feed ≠ 0 → ∃ i ≤ j, u.look i = u'.look j

theorem Rises.refl (u : UserFeed) : u.Rises u := fun j _ _ => ⟨j, le_refl j, rfl⟩

theorem Rises.trans {u u' u'' : UserFeed} (h : u.Rises u') (h' : u'.Rises u'') : u.Rises u'' := by
  intro j hj hfeed
  obtain ⟨i, hi, heq⟩ := h' j hj hfeed
  obtain ⟨k, hk, heq'⟩ := h i (by omega) (by rw [heq]; exact hfeed)
  exact ⟨k, hk.trans hi, heq'.trans heq⟩

theorem slot_inj (ha : a < feedCount) (hb : b < feedCount) : u.slot a = u.slot b ↔ a = b := by
  unfold slot feedCount at *
  omega

theorem look_setSlot (u : UserFeed) (ha : a < feedCount) (hb : b < feedCount) (item : FeedItem) :
    (u.setSlot a item).look b = if b = a then item else u.look b := by
  show update u.feeds (u.slot a) item (u.slot b) = _
  by_cases h : b = a
  · subst h
    rw [update_self, if_pos rfl]
  · rw [update_of_ne fun hs => h ((slot_inj hb ha).mp hs), if_neg h]
    rfl

theorem feed_setAt_nonneg (hu : ∀ i, 0 ≤ (u.feeds i).feed) (hitem : 0 ≤ item.feed) (n i : ℕ) :
    0 ≤ ((u.setAt n item).feeds i).feed := by
  show 0 ≤ (update u.feeds (n % feedCount) item i).feed
  rw [update_apply]
  split
  · exact hitem
  · exact hu i

theorem length_stored_le (u : UserFeed) : u.stored.length ≤ feedCount := length_filled_le _ _ _

theorem feed_ne_zero (h : item ∈ u.stored) : item.feed ≠ 0 := (exists_of_mem_filled h).1

/-- **A loop goes on exactly as long as there are feeds below.** -/
theorem lt_size_iff {l : List FeedItem} (h : c + l.length = size) : c < size ↔ l ≠ [] := by
  rw [← List.length_pos_iff]
  omega

/-- Where no free slot lies above a feed, the next slot of a loop has one. -/
theorem Packed.feed_ne_zero (hu : u.Packed) (hn : n < feedCount) (h : below u.look (n + 1) ≠ []) :
    (u.look n).feed ≠ 0 := by
  obtain ⟨e, he⟩ := List.exists_mem_of_ne_nil _ h
  obtain ⟨hne, j, -, hj, rfl⟩ := exists_of_mem_filled he
  rcases Nat.lt_or_ge j n with hlt | hge
  · exact hu j (by omega) n hn hlt hne
  · have hjn : j = n := by omega
    exact hjn ▸ hne

theorem below_eq_nil (hc : c + (below u.look n).length = size) (hlt : ¬ c < size) :
    below u.look n = [] := by
  by_contra hne
  exact hlt ((lt_size_iff hc).mpr hne)

/-- The count after one more slot. -/
theorem next_count (hc : c + (below u.look (n + 1)).length = size) :
    (if (u.look n).feed ≠ 0 then c + 1 else c) + (below u.look n).length = size := by
  rw [below_succ, List.length_append] at hc
  by_cases hx : (u.look n).feed = 0
  · rw [occupant_of_eq hx] at hc
    rw [if_neg (by simpa using hx)]
    simpa using hc
  · rw [occupant_of_ne hx, List.length_singleton] at hc
    rw [if_pos hx]
    push_cast at hc
    omega

/-! ## Reading -/

theorem getMoreLoop_eq (maxFeed : ℤ) (hc : c + (below u.look n).length = u.size) :
    u.getMoreLoop maxFeed n c = (below u.look n).filter fun e => maxFeed < e.feed := by
  induction n generalizing c with
  | zero => rfl
  | succ n ih =>
      have hnext := next_count hc
      unfold getMoreLoop
      by_cases hlt : c < u.size
      · rw [if_pos hlt, below_succ]
        by_cases hx : (u.look n).feed = 0
        · rw [if_neg (by simpa using hx)] at hnext ⊢
          rw [occupant_of_eq hx, List.nil_append]
          exact ih hnext
        · rw [if_pos hx] at hnext ⊢
          rw [occupant_of_ne hx, List.filter_append, ih hnext]
          by_cases hm : maxFeed < (u.look n).feed <;> simp [hm]
      · rw [if_neg hlt, below_eq_nil hc hlt]
        rfl

/-- **What is got are the stored feeds above `maxFeed`, the newest first.** -/
theorem Sound.getMore_eq (hu : u.Sound) (maxFeed : ℤ) :
    u.getMore maxFeed = u.stored.filter fun e => maxFeed < e.feed := by
  have hc : (0 : ℤ) + (below u.look feedCount).length = u.size := by
    rw [hu.size, Int.zero_add]
    rfl
  exact getMoreLoop_eq maxFeed hc

theorem findLoop_eq {feedId : ℤ} (hn : n ≤ feedCount) (hid : feedId = 0 → u.Packed)
    (hc : c + (below u.look n).length = u.size) :
    u.findLoop feedId n c = (below u.look n).find? fun e => e.feed = feedId := by
  induction n generalizing c with
  | zero => rfl
  | succ n ih =>
      have hnext := ih (by omega) (next_count hc)
      unfold findLoop
      by_cases hlt : c < u.size
      · have hne := (lt_size_iff hc).mp hlt
        rw [if_pos hlt, hnext, below_succ]
        by_cases hx : (u.look n).feed = 0
        · have hno : ¬ (u.look n).feed = feedId := fun h =>
            (hid (h ▸ hx)).feed_ne_zero (by omega) hne hx
          rw [if_neg hno, occupant_of_eq hx, List.nil_append]
        · rw [occupant_of_ne hx, List.singleton_append, List.find?_cons]
          by_cases hm : (u.look n).feed = feedId <;> simp [hm]
      · rw [if_neg hlt, below_eq_nil hc hlt]
        rfl

theorem mergeLoop_eq (mergeId stype : ℤ) (hc : c + (below u.look n).length = u.size) :
    (u.mergeLoop mergeId stype n c).filter (fun feedId => feedId ≠ 0) =
      ((below u.look n).filter fun e => e.merges mergeId stype).map FeedItem.feed := by
  induction n generalizing c with
  | zero => rfl
  | succ n ih =>
      unfold mergeLoop
      by_cases hlt : c < u.size
      · rw [if_pos hlt, List.filter_append, ih (next_count hc), below_succ, List.filter_append,
          List.map_append]
        congr 1
        by_cases hm : (u.look n).merges mergeId stype = true
        · by_cases hx : (u.look n).feed = 0
          · simp [hm, hx, occupant_of_eq hx]
          · simp [hm, hx, occupant_of_ne hx]
        · by_cases hx : (u.look n).feed = 0
          · simp [hm, occupant_of_eq hx]
          · simp [hm, occupant_of_ne hx]
      · rw [if_neg hlt, below_eq_nil hc hlt]
        rfl

/-! ## Writing -/

/-- The newest feed of that id in the place of the new one. -/
def replaceNewest (item : FeedItem) : List FeedItem → List FeedItem
  | [] => []
  | e :: l => if e.feed = item.feed then item :: l else e :: replaceNewest item l

/-- A slot is written: the feeds above and below it stay. -/
theorem stored_setSlot (u : UserFeed) (hn : n < feedCount) (item : FeedItem) :
    (u.setSlot n item).stored = above u.look (n + 1) ++ occupant item ++ below u.look n := by
  have hlook := fun j hj => look_setSlot u (a := n) (b := j) hn hj item
  unfold stored
  rw [← above_append_below _ hn.le, above_eq _ hn, hlook n hn, if_pos rfl]
  rw [above_congr (g := u.look), below_congr (g := u.look)]
  · intro j hj
    rw [hlook j (by omega), if_neg (by omega)]
  · intro j hj hlt
    rw [hlook j hlt, if_neg (by omega)]

theorem stored_eq (u : UserFeed) (hn : n < feedCount) :
    u.stored = above u.look (n + 1) ++ occupant (u.look n) ++ below u.look n := by
  unfold stored
  rw [← above_append_below _ hn.le, above_eq _ hn]

/-- The loop replaces the newest entry of the feed. -/
theorem modifyLoop_spec (hitem : item.feed ≠ 0) (hn : n ≤ feedCount)
    (hc : c + (below u.look n).length = u.size) :
    (u.modifyLoop item n c).stored = above u.look n ++ replaceNewest item (below u.look n) ∧
      (u.modifyLoop item n c).size = u.size ∧
      ∀ i, (u.modifyLoop item n c).feeds i = u.feeds i ∨
        (u.modifyLoop item n c).feeds i = item ∧ ∃ j, (u.look j).feed = item.feed := by
  induction n generalizing c with
  | zero => exact ⟨by simp [modifyLoop, replaceNewest, stored], rfl, fun i => .inl rfl⟩
  | succ n ih =>
      have hnext := ih (by omega) (next_count hc)
      unfold modifyLoop
      by_cases hlt : c < u.size
      · rw [if_pos hlt]
        by_cases hm : (u.look n).feed = item.feed
        · have hx : (u.look n).feed ≠ 0 := hm ▸ hitem
          rw [if_pos hm]
          refine ⟨?_, rfl, fun i => ?_⟩
          · rw [stored_setSlot u (by omega), occupant_of_ne hitem, below_succ, occupant_of_ne hx,
              List.singleton_append, replaceNewest, if_pos hm, List.append_assoc,
              List.singleton_append]
          · show update u.feeds _ item i = _ ∨ update u.feeds _ item i = _ ∧ _
            rw [update_apply]
            split
            · exact .inr ⟨rfl, n, hm⟩
            · exact .inl rfl
        · rw [if_neg hm]
          refine ⟨?_, hnext.2⟩
          rw [hnext.1, above_eq _ (by omega), below_succ, List.append_assoc]
          congr 1
          by_cases hx : (u.look n).feed = 0
          · rw [occupant_of_eq hx, List.nil_append, List.nil_append]
          · rw [occupant_of_ne hx, List.singleton_append, List.singleton_append, replaceNewest, if_neg hm]
      · rw [if_neg hlt, below_eq_nil hc hlt, replaceNewest, List.append_nil]
        refine ⟨?_, rfl, fun i => .inl rfl⟩
        have happ := above_append_below u.look hn
        rw [below_eq_nil hc hlt, List.append_nil] at happ
        exact happ.symm

end UserFeed

end Oce.FeedCacheN
