import Mathlib.Data.List.Basic
import Mathlib.Data.List.Pairwise
import Mathlib.Order.Lattice
import Mathlib.Tactic.TypeStar

/-!
# Sorted vectors

A vector that is kept in strictly ascending order and searched with `lower_bound`, the
order carried as a field. `insert`, `eraseAll` and `count` are the usual loops from the
lower bound on; what they do to membership is all the rest of a development needs
(`mem_insert`, `mem_eraseAll`, `count_eq`).
-/

set_option autoImplicit false

namespace Oce.Base

variable {α : Type*} [LinearOrder α]

/-- A vector in strictly ascending order. -/
structure AscSeq (α : Type*) [LinearOrder α] where
  vals : List α
  sorted : vals.Pairwise (· < ·)
  deriving DecidableEq

/-- The part of a vector before the lower bound of `x`. -/
def before (x : α) (l : List α) : List α := l.takeWhile (· < x)

/-- The part of a vector from the lower bound of `x` on. -/
def lowerBound (x : α) (l : List α) : List α := l.dropWhile (· < x)

/-- The erasing loop: it goes on past `x` and stops at the first larger value. -/
def eraseRun (x : α) : List α → List α
  | [] => []
  | y :: l => if y = x then eraseRun x l else if x < y then y :: l else y :: eraseRun x l

/-- The counting loop, which stops at the first larger value. -/
def countRun (x : α) : List α → ℕ
  | [] => 0
  | y :: l => if y = x then 1 + countRun x l else if x < y then 0 else countRun x l

theorem before_append_lowerBound (x : α) (l : List α) : before x l ++ lowerBound x l = l :=
  List.takeWhile_append_dropWhile

theorem mem_before {x y : α} {l : List α} (hl : l.Pairwise (· < ·)) :
    y ∈ before x l ↔ y ∈ l ∧ y < x := by
  induction l with
  | nil => simp [before]
  | cons a l ih =>
      obtain ⟨ha, hl'⟩ := List.pairwise_cons.mp hl
      have hih := ih hl'
      unfold before at hih ⊢
      by_cases hax : a < x
      · rw [List.takeWhile_cons_of_pos (by simpa using hax), List.mem_cons, hih, List.mem_cons]
        constructor
        · rintro (rfl | ⟨hy, hlt⟩)
          · exact ⟨Or.inl rfl, hax⟩
          · exact ⟨Or.inr hy, hlt⟩
        · rintro ⟨rfl | hy, hlt⟩
          · exact Or.inl rfl
          · exact Or.inr ⟨hy, hlt⟩
      · rw [List.takeWhile_cons_of_neg (by simpa using hax), List.mem_cons]
        constructor
        · intro h
          cases h
        · rintro ⟨rfl | hy, hlt⟩
          · exact absurd hlt hax
          · exact absurd ((ha y hy).trans hlt) hax

theorem mem_lowerBound {x y : α} {l : List α} (hl : l.Pairwise (· < ·)) :
    y ∈ lowerBound x l ↔ y ∈ l ∧ x ≤ y := by
  have happ := before_append_lowerBound x l
  have hdis : ∀ z ∈ lowerBound x l, x ≤ z := by
    intro z hz
    have hsplit : (before x l ++ lowerBound x l).Pairwise (· < ·) := by rw [happ]; exact hl
    by_contra hzx
    have hmem : z ∈ before x l :=
      (mem_before hl).mpr ⟨happ ▸ List.mem_append_right _ hz, not_le.mp hzx⟩
    exact lt_irrefl z ((List.pairwise_append.mp hsplit).2.2 z hmem z hz)
  constructor
  · intro hy
    exact ⟨happ ▸ List.mem_append_right _ hy, hdis y hy⟩
  · rintro ⟨hy, hxy⟩
    rw [← happ, List.mem_append] at hy
    rcases hy with hy | hy
    · exact absurd ((mem_before hl).mp hy).2 (not_lt.mpr hxy)
    · exact hy

theorem eraseRun_sublist (x : α) (l : List α) : (eraseRun x l).Sublist l := by
  induction l with
  | nil => exact List.Sublist.refl _
  | cons y l ih =>
      unfold eraseRun
      split
      · exact ih.cons y
      · split
        · exact List.Sublist.refl _
        · exact ih.cons_cons y

/-- The run of an element is taken out. -/
theorem mem_eraseRun {x y : α} {l : List α} (hl : l.Pairwise (· < ·)) :
    y ∈ eraseRun x l ↔ y ∈ l ∧ y ≠ x := by
  induction l with
  | nil => simp [eraseRun]
  | cons a l ih =>
      obtain ⟨ha, hl'⟩ := List.pairwise_cons.mp hl
      have hih := ih hl'
      unfold eraseRun
      split
      · rename_i hax
        subst hax
        rw [hih, List.mem_cons]
        constructor
        · rintro ⟨hy, hne⟩
          exact ⟨Or.inr hy, hne⟩
        · rintro ⟨rfl | hy, hne⟩
          · exact absurd rfl hne
          · exact ⟨hy, hne⟩
      · rename_i hax
        split
        · rename_i hlt
          constructor
          · intro hy
            refine ⟨hy, ?_⟩
            rcases List.mem_cons.mp hy with rfl | hy
            · exact hax
            · exact (hlt.trans (ha y hy)).ne'
          · exact fun h => h.1
        · rw [List.mem_cons, hih, List.mem_cons]
          constructor
          · rintro (rfl | ⟨hy, hne⟩)
            · exact ⟨Or.inl rfl, hax⟩
            · exact ⟨Or.inr hy, hne⟩
          · rintro ⟨rfl | hy, hne⟩
            · exact Or.inl rfl
            · exact Or.inr ⟨hy, hne⟩

theorem countRun_of_lt {x : α} {l : List α} (h : ∀ y ∈ l, x < y) : countRun x l = 0 := by
  cases l with
  | nil => rfl
  | cons a l =>
      have ha := h a (by simp)
      unfold countRun
      rw [if_neg ha.ne', if_pos ha]

theorem countRun_eq {x : α} {l : List α} (hl : l.Pairwise (· < ·)) :
    countRun x l = if x ∈ l then 1 else 0 := by
  induction l with
  | nil => simp [countRun]
  | cons a l ih =>
      obtain ⟨ha, hl'⟩ := List.pairwise_cons.mp hl
      have hih := ih hl'
      unfold countRun
      split
      · rename_i hax
        subst hax
        rw [countRun_of_lt ha, if_pos (by simp)]
      · rename_i hax
        split
        · rename_i hlt
          rw [if_neg]
          intro hmem
          rcases List.mem_cons.mp hmem with rfl | hmem
          · exact hax rfl
          · exact lt_asymm hlt (ha x hmem)
        · rw [hih]
          simp [Ne.symm hax]

namespace AscSeq

instance : Membership α (AscSeq α) := ⟨fun s x => x ∈ s.vals⟩

instance (x : α) (s : AscSeq α) : Decidable (x ∈ s) := inferInstanceAs (Decidable (x ∈ s.vals))

theorem mem_def {x : α} {s : AscSeq α} : x ∈ s ↔ x ∈ s.vals := Iff.rfl

/-- The empty vector. -/
def empty : AscSeq α := ⟨[], List.Pairwise.nil⟩

@[simp] theorem not_mem_empty (x : α) : x ∉ (empty : AscSeq α) := List.not_mem_nil

theorem sorted_insert {x : α} {l : List α} (hl : l.Pairwise (· < ·)) (hx : x ∉ l) :
    (before x l ++ x :: lowerBound x l).Pairwise (· < ·) := by
  have hsplit : (before x l ++ lowerBound x l).Pairwise (· < ·) := by
    rw [before_append_lowerBound]; exact hl
  obtain ⟨hb, hf, hbf⟩ := List.pairwise_append.mp hsplit
  have hxf : ∀ y ∈ lowerBound x l, x < y := by
    intro y hy
    obtain ⟨hyl, hle⟩ := (mem_lowerBound hl).mp hy
    exact lt_of_le_of_ne hle fun he => hx (he ▸ hyl)
  refine List.pairwise_append.mpr ⟨hb, List.pairwise_cons.mpr ⟨hxf, hf⟩, ?_⟩
  intro y hy z hz
  rcases List.mem_cons.mp hz with rfl | hz
  · exact ((mem_before hl).mp hy).2
  · exact hbf y hy z hz

theorem head?_lowerBound {x : α} {l : List α} (hl : l.Pairwise (· < ·)) :
    (lowerBound x l).head? = some x ↔ x ∈ l := by
  constructor
  · intro h
    exact ((mem_lowerBound hl).mp (List.mem_of_mem_head? h)).1
  · intro hx
    have hmem : x ∈ lowerBound x l := (mem_lowerBound hl).mpr ⟨hx, le_refl x⟩
    have hsorted : (lowerBound x l).Pairwise (· < ·) := hl.sublist (List.dropWhile_sublist _)
    cases hb : lowerBound x l with
    | nil => rw [hb] at hmem; cases hmem
    | cons y m =>
        have hy := ((mem_lowerBound (x := x) (y := y) hl).mp (by rw [hb]; simp)).2
        rw [hb] at hmem hsorted
        rcases List.mem_cons.mp hmem with rfl | hmem
        · rfl
        · exact absurd ((List.pairwise_cons.mp hsorted).1 x hmem) (not_lt.mpr hy)

/-- Insertion at the lower bound, unless the value stands there already. -/
def insert (x : α) (s : AscSeq α) : AscSeq α :=
  if h : (lowerBound x s.vals).head? = some x then s
  else ⟨before x s.vals ++ x :: lowerBound x s.vals,
    sorted_insert s.sorted fun hx => h ((head?_lowerBound s.sorted).mpr hx)⟩

/-- Removal from the lower bound on. -/
def eraseAll (x : α) (s : AscSeq α) : AscSeq α :=
  ⟨before x s.vals ++ eraseRun x (lowerBound x s.vals), by
    have hsub := List.Sublist.append (List.Sublist.refl (before x s.vals))
      (eraseRun_sublist x (lowerBound x s.vals))
    rw [before_append_lowerBound] at hsub
    exact s.sorted.sublist hsub⟩

/-- How often a value occurs, counted from its lower bound on if it stands there. -/
def count (x : α) (s : AscSeq α) : ℕ :=
  if (lowerBound x s.vals).head? = some x then countRun x (lowerBound x s.vals) else 0

@[simp] theorem mem_insert {x y : α} {s : AscSeq α} : y ∈ s.insert x ↔ y = x ∨ y ∈ s := by
  unfold insert
  split
  · rename_i h
    have hx := (head?_lowerBound s.sorted).mp h
    constructor
    · exact Or.inr
    · rintro (rfl | hy)
      · exact hx
      · exact hy
  · show y ∈ before x s.vals ++ x :: lowerBound x s.vals ↔ _
    rw [List.mem_append, List.mem_cons, or_left_comm, ← List.mem_append,
      before_append_lowerBound, mem_def]

@[simp] theorem mem_eraseAll {x y : α} {s : AscSeq α} : y ∈ s.eraseAll x ↔ y ∈ s ∧ y ≠ x := by
  have hsorted : (lowerBound x s.vals).Pairwise (· < ·) :=
    s.sorted.sublist (List.dropWhile_sublist _)
  show y ∈ before x s.vals ++ eraseRun x (lowerBound x s.vals) ↔ _
  rw [List.mem_append, mem_eraseRun hsorted, mem_before s.sorted, mem_lowerBound s.sorted, mem_def]
  constructor
  · rintro (⟨hy, hlt⟩ | ⟨⟨hy, _⟩, hne⟩)
    · exact ⟨hy, hlt.ne⟩
    · exact ⟨hy, hne⟩
  · rintro ⟨hy, hne⟩
    rcases lt_or_ge y x with hlt | hge
    · exact Or.inl ⟨hy, hlt⟩
    · exact Or.inr ⟨⟨hy, hge⟩, hne⟩

theorem count_eq (x : α) (s : AscSeq α) : s.count x = if x ∈ s then 1 else 0 := by
  have hsorted : (lowerBound x s.vals).Pairwise (· < ·) :=
    s.sorted.sublist (List.dropWhile_sublist _)
  unfold count
  by_cases hx : x ∈ s
  · rw [if_pos ((head?_lowerBound s.sorted).mpr hx), countRun_eq hsorted, if_pos hx,
      if_pos ((mem_lowerBound s.sorted).mpr ⟨hx, le_refl x⟩)]
  · rw [if_neg fun h => hx ((head?_lowerBound s.sorted).mp h), if_neg hx]

/-- **A sorted vector is determined by its members.** -/
theorem ext_mem {s t : AscSeq α} (h : ∀ x, x ∈ s ↔ x ∈ t) : s = t := by
  obtain ⟨l, hl⟩ := s
  obtain ⟨m, hm⟩ := t
  have hperm : l.Perm m := (List.perm_ext_iff_of_nodup
    (hl.imp fun hab he => absurd (he ▸ hab) (lt_irrefl _))
    (hm.imp fun hab he => absurd (he ▸ hab) (lt_irrefl _))).mpr h
  have heq : l = m :=
    hperm.eq_of_pairwise (fun a b _ _ hab hba => absurd (hab.trans hba) (lt_irrefl _)) hl hm
  subst heq
  rfl

end AscSeq

end Oce.Base
