import Mathlib.Data.List.Basic
import Mathlib.Data.List.Nodup
import Mathlib.Data.List.Pairwise
import Mathlib.Order.Lattice
import Mathlib.Tactic.TypeStar

/-!
# Bisection

Where a vector is cut in two by asking about the element in the middle of what is left. On every
vector the search stops between an element that is less, or the front, and one that is not, or the
back (`bisect_edge`). When what is less comes first it stops behind the last of it
(`bisect_take`, `bisect_drop`). The converse holds too: a vector without duplicates in which the
search finds every element is ascending (`ascending_of_found`).
-/

set_option autoImplicit false

namespace Oce.Base

variable {α : Type*} {less : α → Bool} {l : List α}

/-- The search in the `len` elements from `first` on; `fuel` is at least `len`. -/
def bisectFrom (less : α → Bool) (l : List α) : ℕ → ℕ → ℕ → ℕ
  | 0, first, _ => first
  | fuel + 1, first, len =>
    if len = 0 then first
    else
      match l[first + len / 2]? with
      | none => first
      | some x =>
        if less x then bisectFrom less l fuel (first + len / 2 + 1) (len - len / 2 - 1)
        else bisectFrom less l fuel first (len / 2)

/-- The first place that is not less, as far as the search can tell. -/
def bisect (less : α → Bool) (l : List α) : ℕ := bisectFrom less l l.length 0 l.length

/-- An edge of the less elements: what is before it is less, what is behind it is not. -/
structure Edge (less : α → Bool) (l : List α) (i : ℕ) : Prop where
  le : i ≤ l.length
  before : ∀ j, j + 1 = i → ∀ x, l[j]? = some x → less x = true
  behind : ∀ x, l[i]? = some x → less x = false

/-- The bisection ends at an edge. -/
theorem bisectFrom_edge (fuel first len : ℕ) (hfuel : len ≤ fuel) (hlen : first + len ≤ l.length)
    (hbefore : ∀ j, j + 1 = first → ∀ x, l[j]? = some x → less x = true)
    (hbehind : ∀ x, l[first + len]? = some x → less x = false) :
    Edge less l (bisectFrom less l fuel first len) := by
  induction fuel generalizing first len with
  | zero =>
      obtain rfl : len = 0 := by omega
      exact ⟨hlen, hbefore, hbehind⟩
  | succ fuel ih =>
      unfold bisectFrom
      by_cases hzero : len = 0
      · subst hzero
        rw [if_pos rfl]
        exact ⟨hlen, hbefore, hbehind⟩
      · rw [if_neg hzero]
        have hlt : first + len / 2 < l.length := by omega
        rw [List.getElem?_eq_getElem hlt]
        dsimp only
        by_cases hless : less l[first + len / 2] = true
        · rw [if_pos hless]
          have hrest : first + len / 2 + 1 + (len - len / 2 - 1) = first + len := by omega
          refine ih _ _ (by omega) (by omega) ?_ (by rwa [hrest])
          intro j hj x hx
          obtain rfl : j = first + len / 2 := by omega
          rw [List.getElem?_eq_getElem hlt] at hx
          cases hx
          exact hless
        · rw [if_neg hless]
          refine ih _ _ (by omega) (by omega) hbefore ?_
          intro x hx
          rw [List.getElem?_eq_getElem hlt] at hx
          cases hx
          simpa using hless

theorem bisect_edge (less : α → Bool) (l : List α) : Edge less l (bisect less l) := by
  refine bisectFrom_edge _ _ _ (Nat.le_refl _) (by omega) (fun j hj => by omega) fun x hx => ?_
  rw [List.getElem?_eq_none (by omega)] at hx
  cases hx

/-- What is less comes before what is not. -/
def Parted (less : α → Bool) (l : List α) : Prop := l.Pairwise fun x y => less y = true → less x = true

theorem bisect_take (h : Parted less l) {x : α} (hx : x ∈ l.take (bisect less l)) : less x = true := by
  obtain ⟨hle, hbefore, -⟩ := bisect_edge less l
  obtain ⟨j, hj, rfl⟩ := List.mem_iff_getElem.mp hx
  rw [List.length_take] at hj
  rw [List.getElem_take]
  have hlast : bisect less l - 1 < l.length := by omega
  have hless := hbefore (bisect less l - 1) (by omega) _ (List.getElem?_eq_getElem hlast)
  by_cases heq : j = bisect less l - 1
  · subst heq
    exact hless
  · exact List.pairwise_iff_getElem.mp h j (bisect less l - 1) (by omega) hlast (by omega) hless

theorem bisect_drop (h : Parted less l) {x : α} (hx : x ∈ l.drop (bisect less l)) : less x = false := by
  obtain ⟨-, -, hbehind⟩ := bisect_edge less l
  obtain ⟨j, hj, rfl⟩ := List.mem_iff_getElem.mp hx
  rw [List.length_drop] at hj
  rw [List.getElem_drop]
  have hlt : bisect less l < l.length := by omega
  have hnot := hbehind _ (List.getElem?_eq_getElem hlt)
  by_cases hzero : j = 0
  · subst hzero
    exact hnot
  · have hpair := List.pairwise_iff_getElem.mp h (bisect less l) (bisect less l + j) hlt (by omega)
      (by omega)
    by_contra hless
    rw [hpair (by simpa using hless)] at hnot
    cases hnot

/-- Where what is less comes first, the search cuts it off. -/
theorem drop_bisect (h : Parted less l) : l.drop (bisect less l) = l.dropWhile less := by
  conv_rhs => rw [← List.take_append_drop (bisect less l) l]
  rw [List.dropWhile_append_of_pos fun x hx => bisect_take h hx]
  cases hdrop : l.drop (bisect less l) with
  | nil => rfl
  | cons x rest =>
      have hx := bisect_drop h (hdrop ▸ List.mem_cons_self)
      rw [List.dropWhile_cons_of_neg (by simp [hx])]

theorem take_bisect (h : Parted less l) : l.take (bisect less l) = l.takeWhile less := by
  have hsplit : l.take (bisect less l) ++ l.dropWhile less = l.takeWhile less ++ l.dropWhile less := by
    rw [← drop_bisect h, List.take_append_drop, drop_bisect h, List.takeWhile_append_dropWhile]
  exact List.append_cancel_right hsplit

/-- The search stays in its range. -/
theorem bisectFrom_bounds (fuel first len : ℕ) :
    first ≤ bisectFrom less l fuel first len ∧ bisectFrom less l fuel first len ≤ first + len := by
  induction fuel generalizing first len with
  | zero => exact ⟨Nat.le_refl _, Nat.le_add_right _ _⟩
  | succ fuel ih =>
      unfold bisectFrom
      by_cases hzero : len = 0
      · rw [if_pos hzero]
        exact ⟨Nat.le_refl _, Nat.le_add_right _ _⟩
      · rw [if_neg hzero]
        cases l[first + len / 2]? with
        | none => exact ⟨Nat.le_refl _, Nat.le_add_right _ _⟩
        | some x =>
            dsimp only
            by_cases hless : less x = true
            · rw [if_pos hless]
              obtain ⟨hlo, hhi⟩ := ih (first + len / 2 + 1) (len - len / 2 - 1)
              exact ⟨by omega, by omega⟩
            · rw [if_neg hless]
              obtain ⟨hlo, hhi⟩ := ih first (len / 2)
              exact ⟨by omega, by omega⟩

section Order

variable {β : Type*} [LinearOrder β] {m : List β}

theorem parted_lt (h : m.Pairwise (· < ·)) (x : β) : Parted (fun y => decide (y < x)) m := by
  refine h.imp fun hyz hz => ?_
  rw [decide_eq_true_eq] at hz ⊢
  exact lt_trans hyz hz

/-- A range in which the search finds every element is ascending: its middle parts it. -/
theorem ascending_of_bisectFrom (hnodup : m.Nodup) (fuel first len : ℕ) (hfuel : len ≤ fuel)
    (hlen : first + len ≤ m.length)
    (hfound : ∀ i (hi : i < m.length), first ≤ i → i < first + len →
      bisectFrom (fun y => decide (y < m[i])) m fuel first len = i) (i j : ℕ) (hi : i < m.length)
    (hj : j < m.length) (hfirst : first ≤ i) (hij : i < j) (hlast : j < first + len) : m[i] < m[j] := by
  induction fuel generalizing first len i j with
  | zero => omega
  | succ fuel ih =>
      have hmid : first + len / 2 < m.length := by omega
      have hstep : ∀ k (hk : k < m.length), first ≤ k → k < first + len →
          if m[first + len / 2] < m[k] then
            bisectFrom (fun y => decide (y < m[k])) m fuel (first + len / 2 + 1) (len - len / 2 - 1) = k
          else bisectFrom (fun y => decide (y < m[k])) m fuel first (len / 2) = k := by
        intro k hk hlo hhi
        have hat := hfound k hk hlo hhi
        unfold bisectFrom at hat
        rw [if_neg (by omega), List.getElem?_eq_getElem hmid] at hat
        dsimp only at hat
        by_cases hless : m[first + len / 2] < m[k]
        · rw [if_pos hless]
          rwa [if_pos (decide_eq_true hless)] at hat
        · rw [if_neg hless]
          rwa [if_neg (by simpa using hless)] at hat
      have hside : ∀ k (hk : k < m.length), first ≤ k → k < first + len →
          (m[first + len / 2] < m[k] ↔ first + len / 2 < k) := by
        intro k hk hlo hhi
        have hat := hstep k hk hlo hhi
        by_cases hless : m[first + len / 2] < m[k]
        · rw [if_pos hless] at hat
          have hbounds := @bisectFrom_bounds β (fun y => decide (y < m[k])) m fuel
            (first + len / 2 + 1) (len - len / 2 - 1)
          exact ⟨fun _ => by omega, fun _ => hless⟩
        · rw [if_neg hless] at hat
          have hbounds := @bisectFrom_bounds β (fun y => decide (y < m[k])) m fuel first
            (len / 2)
          exact ⟨fun h => absurd h hless, fun _ => by omega⟩
      by_cases hright : first + len / 2 < i
      · refine ih (first + len / 2 + 1) (len - len / 2 - 1) (by omega) (by omega) ?_ i j hi hj (by omega)
          hij (by omega)
        intro k hk hlo hhi
        have hat := hstep k hk (by omega) (by omega)
        rwa [if_pos ((hside k hk (by omega) (by omega)).mpr (by omega))] at hat
      by_cases hleft : j < first + len / 2
      · refine ih first (len / 2) (by omega) (by omega) ?_ i j hi hj hfirst hij (by omega)
        intro k hk hlo hhi
        have hat := hstep k hk (by omega) (by omega)
        have hnot : ¬m[first + len / 2] < m[k] := by
          rw [hside k hk (by omega) (by omega)]
          omega
        rwa [if_neg hnot] at hat
      · have hbefore : m[i] ≤ m[first + len / 2] := by
          apply le_of_not_gt
          rw [hside i hi hfirst (by omega)]
          exact hright
        have hbehind : m[first + len / 2] ≤ m[j] := by
          by_cases heq : j = first + len / 2
          · subst heq
            exact le_refl _
          · exact le_of_lt ((hside j hj (by omega) hlast).mpr (by omega))
        apply lt_of_le_of_ne (le_trans hbefore hbehind)
        intro heq
        exact absurd (hnodup.getElem_inj_iff.mp heq) (by omega)

/-- **A vector without duplicates in which the search finds every element is ascending.** -/
theorem ascending_of_found (hnodup : m.Nodup)
    (hfound : ∀ x ∈ m, (m.drop (bisect (fun y => decide (y < x)) m)).head? = some x) :
    m.Pairwise (· < ·) := by
  rw [List.pairwise_iff_getElem]
  intro i j hi hj hij
  refine ascending_of_bisectFrom hnodup m.length 0 m.length (Nat.le_refl _) (by omega) ?_ i j hi hj
    (Nat.zero_le _) hij (by omega)
  intro k hk _ _
  have hat := hfound m[k] (List.getElem_mem hk)
  rw [List.head?_drop] at hat
  obtain ⟨hlt, heq⟩ := List.getElem?_eq_some_iff.mp hat
  exact hnodup.getElem_inj_iff.mp heq

end Order

end Oce.Base
