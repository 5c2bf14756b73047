import Mathlib.Data.Int.Order.Basic
import Mathlib.Data.List.Basic
import Mathlib.Logic.Function.Basic
import Mathlib.Tactic.TypeStar
import Oce.Base.Bisect
import Oce.Base.Descending

/-!
# A window on an array

An array is a function of the place, and a pointer into it is a place. `window lo n` is the
list in the `n` slots from `lo` on, `memmove` the copy of a range that may overlap the range
it is copied to. A list that grows to the front is changed by three moves: one slot to the
front and a write in the gap inserts (`window_insert`), one slot to the back erases
(`window_erase`), a write replaces (`window_write`). All three touch no slot outside of the
longer one of the two windows (`memmove_outside`).

The second half says where the two searches of such a list stop, in the words of `place` and
`removeKey`.
-/

set_option autoImplicit false

namespace Oce.Base

open Function

variable {α κ : Type*}

variable {n k : ℕ} {dst src i : ℤ}

/-- The list in the `n` slots from `lo` on. -/
def window (slots : ℤ → α) (lo : ℤ) (n : ℕ) : List α := (List.range n).map fun i : ℕ => slots (lo + i)

/-- The copy of `n` slots from `src` on to the slots from `dst` on. -/
def memmove (dst src : ℤ) (n : ℕ) (slots : ℤ → α) : ℤ → α := fun i =>
  if dst ≤ i ∧ i < dst + n then slots (src + (i - dst)) else slots i

variable {slots slots' : ℤ → α} {lo : ℤ} {n : ℕ}

@[simp] theorem length_window (slots : ℤ → α) (lo : ℤ) (n : ℕ) : (window slots lo n).length = n := by
  simp [window]

theorem getElem_window (slots : ℤ → α) (lo : ℤ) (h : k < (window slots lo n).length) :
    (window slots lo n)[k] = slots (lo + k) := by
  simp [window]

theorem window_zero (slots : ℤ → α) (lo : ℤ) : window slots lo 0 = [] := rfl

theorem window_cons (slots : ℤ → α) (lo : ℤ) (n : ℕ) :
    window slots lo (n + 1) = slots lo :: window slots (lo + 1) n := by
  unfold window
  rw [List.range_succ_eq_map, List.map_cons, List.map_map]
  congr 1
  · simp
  · refine List.map_congr_left fun i _ => ?_
    show slots (lo + ((i + 1 : ℕ) : ℤ)) = slots (lo + 1 + i)
    congr 1
    push_cast
    omega

/-- Two windows with the same slots. -/
theorem window_congr {lo' : ℤ} (h : ∀ k : ℕ, k < n → slots (lo + k) = slots' (lo' + k)) :
    window slots lo n = window slots' lo' n :=
  List.map_congr_left fun k hk => h k (List.mem_range.mp hk)

/-- A window in two parts. -/
theorem window_append (slots : ℤ → α) (lo : ℤ) (k m : ℕ) :
    window slots lo (k + m) = window slots lo k ++ window slots (lo + k) m := by
  induction k generalizing lo with
  | zero => simp [window_zero]
  | succ k ih =>
      rw [show k + 1 + m = (k + m) + 1 by omega, window_cons, ih, window_cons, List.cons_append]
      congr 3
      push_cast
      omega

theorem take_window (slots : ℤ → α) (lo : ℤ) (h : k ≤ n) :
    (window slots lo n).take k = window slots lo k := by
  obtain ⟨m, rfl⟩ := Nat.exists_eq_add_of_le h
  rw [window_append, List.take_left' (length_window ..)]

theorem drop_window (slots : ℤ → α) (lo : ℤ) (h : k ≤ n) :
    (window slots lo n).drop k = window slots (lo + k) (n - k) := by
  obtain ⟨m, rfl⟩ := Nat.exists_eq_add_of_le h
  rw [window_append, List.drop_left' (length_window ..), Nat.add_sub_cancel_left]

/-! ## The three moves -/

theorem memmove_inside (h : dst ≤ i ∧ i < dst + n) :
    memmove dst src n slots i = slots (src + (i - dst)) := if_pos h

theorem memmove_outside (h : ¬ (dst ≤ i ∧ i < dst + n)) : memmove dst src n slots i = slots i := if_neg h

theorem memmove_zero (dst src : ℤ) (slots : ℤ → α) : memmove dst src 0 slots = slots :=
  funext fun i => memmove_outside (by omega)

/-- One slot to the front, and a write in the gap. -/
theorem window_insert (slots : ℤ → α) (lo : ℤ) (h : k ≤ n) (x : α) :
    window (update (memmove (lo - 1) lo k slots) (lo + k - 1) x) (lo - 1) (n + 1) =
      (window slots lo n).take k ++ x :: (window slots lo n).drop k := by
  have hsplit : n + 1 = k + (n - k + 1) := by omega
  rw [hsplit, window_append, window_cons, take_window _ _ h, drop_window _ _ h]
  congr 1
  · refine window_congr fun i hi => ?_
    rw [update_of_ne (by omega), memmove_inside (by omega)]
    congr 1
    omega
  · congr 1
    · rw [show lo - 1 + (k : ℤ) = lo + k - 1 by omega, update_self]
    · refine window_congr fun i hi => ?_
      rw [update_of_ne (by omega), memmove_outside (by omega)]
      congr 1
      omega

/-- One slot to the back, over the slot that is erased. -/
theorem window_erase (slots : ℤ → α) (lo : ℤ) (h : k < n) :
    window (memmove (lo + 1) lo k slots) (lo + 1) (n - 1) =
      (window slots lo n).take k ++ (window slots lo n).drop (k + 1) := by
  have hsplit : n - 1 = k + (n - (k + 1)) := by omega
  rw [take_window _ _ (by omega), drop_window _ _ (by omega), hsplit, window_append]
  congr 1
  · refine window_congr fun i hi => ?_
    rw [memmove_inside (by omega)]
    congr 1
    omega
  · refine window_congr fun i hi => ?_
    rw [memmove_outside (by omega)]
    congr 1
    push_cast
    omega

/-- A write. -/
theorem window_write (slots : ℤ → α) (lo : ℤ) (h : k < n) (x : α) :
    window (update slots (lo + k) x) lo n =
      (window slots lo n).take k ++ x :: (window slots lo n).drop (k + 1) := by
  have hsplit : n = k + (n - (k + 1) + 1) := by omega
  rw [take_window _ _ (by omega), drop_window _ _ (by omega)]
  conv_lhs => rw [hsplit]
  rw [window_append, window_cons, update_self]
  congr 1
  · refine window_congr fun i hi => ?_
    rw [update_of_ne (by omega)]
  · congr 1
    refine window_congr fun i hi => ?_
    rw [update_of_ne (by omega)]
    congr 1
    push_cast
    omega

/-! ## The two searches -/

variable [LinearOrder κ] {key : α → κ}

/-- How many records come before the place of a key. -/
def rank (key : α → κ) (k : κ) (l : List α) : ℕ := (l.takeWhile fun a => decide (k < key a)).length

/-- The record at the place of a key, if it has the key. -/
def hit (key : α → κ) (k : κ) (l : List α) : Bool := ((l[rank key k l]?).map key) = some k

theorem rank_nil (k : κ) : rank key k ([] : List α) = 0 := rfl

theorem rank_cons (k : κ) (a : α) (l : List α) :
    rank key k (a :: l) = if k < key a then rank key k l + 1 else 0 := by
  unfold rank
  rw [List.takeWhile_cons]
  by_cases h : k < key a <;> simp [h]

theorem rank_le (k : κ) (l : List α) : rank key k l ≤ l.length :=
  (List.takeWhile_prefix _).length_le

theorem hit_cons (k : κ) (a : α) (l : List α) :
    hit key k (a :: l) = if k < key a then hit key k l else decide (key a = k) := by
  unfold hit
  rw [rank_cons]
  by_cases h : k < key a <;> simp [h]

theorem rank_lt_of_hit {k : κ} {l : List α} (h : hit key k l = true) : rank key k l < l.length := by
  by_contra hge
  unfold hit at h
  rw [List.getElem?_eq_none (by omega)] at h
  simp at h

/-- The insertion scan by the place it stops at. -/
theorem place_eq (x : α) (overwrite : Bool) (l : List α) :
    place key x overwrite l =
      if hit key (key x) l then
        if overwrite then
          (.replaced, l.take (rank key (key x) l) ++ x :: l.drop (rank key (key x) l + 1))
        else (.refused, l)
      else (.inserted, l.take (rank key (key x) l) ++ x :: l.drop (rank key (key x) l)) := by
  induction l with
  | nil => rfl
  | cons a l ih =>
      rw [place, hit_cons, rank_cons]
      by_cases hgt : key x < key a
      · rw [if_neg hgt.not_gt, if_neg hgt.ne', ih]
        simp only [hgt, if_true]
        by_cases hhit : hit key (key x) l
        · cases overwrite <;> simp [hhit]
        · simp [hhit]
      · simp only [hgt, if_false]
        by_cases heq : key a = key x
        · cases overwrite <;> simp [heq]
        · have hlt : key a < key x := lt_of_le_of_ne (not_lt.mp hgt) heq
          simp [heq, hlt]

/-- The removal by the place of the key. -/
theorem removeKey_eq (k : κ) (l : List α) :
    removeKey key k l =
      if hit key k l then (true, l.take (rank key k l) ++ l.drop (rank key k l + 1))
      else (false, l) := by
  induction l with
  | nil => rfl
  | cons a l ih =>
      rw [removeKey, hit_cons, rank_cons]
      by_cases hgt : k < key a
      · simp only [hgt, if_true, ih]
        by_cases hhit : hit key k l <;> simp [hhit]
      · simp only [hgt, if_false]
        by_cases heq : key a = k <;> simp [heq]

/-- In a descending list the binary search stops at the place of the key. -/
theorem bisect_eq_rank {k : κ} {l : List α} (hl : Descending key l) :
    bisect (fun a => decide (k < key a)) l = rank key k l := by
  have hparted : Parted (fun a => decide (k < key a)) l :=
    hl.imp fun hab hb => by simpa using (of_decide_eq_true hb).trans hab
  generalize hless : (fun a => decide (k < key a)) = less at hparted
  have hlen : bisect less l ≤ l.length := (bisect_edge less l).le
  have hdrop : (l.drop (bisect less l)).takeWhile less = [] := by
    cases hd : l.drop (bisect less l) with
    | nil => rfl
    | cons a rest =>
        have ha := bisect_drop hparted (x := a) (by rw [hd]; exact List.mem_cons_self)
        rw [List.takeWhile_cons, ha]
        rfl
  have hwhole : l.takeWhile less = l.take (bisect less l) := by
    conv_lhs => rw [← List.take_append_drop (bisect less l) l]
    rw [List.takeWhile_append_of_pos fun x hx => bisect_take hparted hx, hdrop, List.append_nil]
  unfold rank
  rw [hless, hwhole, List.length_take]
  omega

end Oce.Base
