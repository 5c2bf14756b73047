import Mathlib.Data.List.Infix
import Mathlib.Tactic.TypeStar
import Mathlib.Tactic.Tauto

/-!
# Patterns with a wildcard

A pattern is a list in which one symbol, the wildcard, stands for a run of at least one symbol of a
kind. While a string is read against a pattern, what has been read stands for the front of the
pattern, and the last wildcard of it may still be open for more of its run. `Rest` says that of a
pattern, and what it comes to with one more symbol is told here for both cases.
-/

set_option autoImplicit false

namespace Oce.Base

variable {α : Type*} {wild : α} {run : α → Bool} {c : α} {p q s u v : List α} {opened : Bool}

/-- The whole string is of the form of the pattern. -/
inductive Matches (wild : α) (run : α → Bool) : List α → List α → Prop
  | nil : Matches wild run [] []
  | lit {c : α} {p s : List α} (hc : c ≠ wild) (h : Matches wild run p s) : Matches wild run (c :: p) (c :: s)
  | last {d : α} {p s : List α} (hd : run d = true) (h : Matches wild run p s) :
      Matches wild run (wild :: p) (d :: s)
  | more {d : α} {p s : List α} (hd : run d = true) (h : Matches wild run (wild :: p) s) :
      Matches wild run (wild :: p) (d :: s)

theorem matches_nil_iff : Matches wild run p [] ↔ p = [] := by
  constructor
  · intro h
    cases h
    rfl
  · rintro rfl
    exact .nil

/-- The first symbol is the pattern's, or of the run of a wildcard that stands first. -/
theorem matches_cons_iff : Matches wild run p (c :: s) ↔
    (∃ q, p = c :: q ∧ c ≠ wild ∧ Matches wild run q s) ∨
      ∃ q, p = wild :: q ∧ run c = true ∧ (Matches wild run q s ∨ Matches wild run (wild :: q) s) := by
  constructor
  · intro h
    cases h with
    | lit hc h => exact .inl ⟨_, rfl, hc, h⟩
    | last hd h => exact .inr ⟨_, rfl, hd, .inl h⟩
    | more hd h => exact .inr ⟨_, rfl, hd, .inr h⟩
  · rintro (⟨q, rfl, hc, h⟩ | ⟨q, rfl, hd, h | h⟩)
    · exact .lit hc h
    · exact .last hd h
    · exact .more hd h

/-- A string that holds the wildcard itself matches nothing. -/
theorem Matches.not_mem (hwild : run wild = false) (h : Matches wild run p s) : wild ∉ s := by
  have hne : ∀ {d : α}, run d = true → wild ≠ d := by
    rintro d hd rfl
    rw [hwild] at hd
    cases hd
  induction h with
  | nil => exact List.not_mem_nil
  | lit hc _ ih => exact List.not_mem_cons_of_ne_of_not_mem hc.symm ih
  | last hd _ ih => exact List.not_mem_cons_of_ne_of_not_mem (hne hd) ih
  | more hd _ ih => exact List.not_mem_cons_of_ne_of_not_mem (hne hd) ih

/-- A pattern without a wildcard is matched by itself. -/
theorem matches_self (h : wild ∉ p) : Matches wild run p p := by
  induction p with
  | nil => exact .nil
  | cons c p ih =>
      exact .lit (List.ne_of_not_mem_cons h).symm (ih (List.not_mem_of_not_mem_cons h))

/-! ## What is left to match -/

/-- The pattern begins with `u`, and `s` is of the form of what follows; or with `u` and a wildcard
that is still open, and `s` is of the form of what follows behind some more of its run. -/
def Rest (wild : α) (run : α → Bool) (u : List α) (opened : Bool) (p s : List α) : Prop :=
  if opened then ∃ q, p = u ++ wild :: q ∧ (Matches wild run q s ∨ Matches wild run (wild :: q) s)
  else ∃ q, p = u ++ q ∧ Matches wild run q s

theorem rest_start : Rest wild run [] false p s ↔ Matches wild run p s := by
  unfold Rest
  simp

theorem Rest.prefix_closed (h : Rest wild run u false p s) : u <+: p := by
  obtain ⟨q, rfl, -⟩ := h
  exact List.prefix_append u q

theorem Rest.prefix_open (h : Rest wild run u true p s) : u ++ [wild] <+: p := by
  obtain ⟨q, rfl, -⟩ := h
  exact ⟨q, by rw [List.append_assoc, List.singleton_append]⟩

theorem rest_nil_closed : Rest wild run u false p [] ↔ p = u := by
  unfold Rest
  simp [matches_nil_iff]

theorem rest_nil_open : Rest wild run u true p [] ↔ p = u ++ [wild] := by
  unfold Rest
  simp [matches_nil_iff]

/-- One more symbol, with no wildcard open. -/
theorem rest_cons_closed : Rest wild run u false p (c :: s) ↔
    c ≠ wild ∧ Rest wild run (u ++ [c]) false p s ∨ run c = true ∧ Rest wild run u true p s := by
  constructor
  · rintro ⟨q, rfl, h⟩
    obtain ⟨q, rfl, hc, hq⟩ | ⟨q, rfl, hd, hq⟩ := matches_cons_iff.mp h
    · exact .inl ⟨hc, q, by rw [List.append_assoc, List.singleton_append], hq⟩
    · exact .inr ⟨hd, q, rfl, hq⟩
  · rintro (⟨hc, q, rfl, hq⟩ | ⟨hd, q, rfl, hq⟩)
    · exact ⟨c :: q, by rw [List.append_assoc, List.singleton_append], .lit hc hq⟩
    · exact ⟨wild :: q, rfl, matches_cons_iff.mpr (.inr ⟨q, rfl, hd, hq⟩)⟩

/-- One more symbol, with the wildcard behind `u` open: it may be over, or go on. -/
theorem rest_cons_open : Rest wild run u true p (c :: s) ↔
    Rest wild run (u ++ [wild]) false p (c :: s) ∨ run c = true ∧ Rest wild run u true p s := by
  constructor
  · rintro ⟨q, rfl, hq | hq⟩
    · exact .inl ⟨q, by rw [List.append_assoc, List.singleton_append], hq⟩
    · obtain ⟨q', hq', hc, -⟩ | ⟨q', hq', hd, hrest⟩ := matches_cons_iff.mp hq
      · exact absurd (List.cons.inj hq').1.symm hc
      · obtain ⟨-, rfl⟩ := List.cons.inj hq'
        exact .inr ⟨hd, q, rfl, hrest⟩
  · rintro (⟨q, rfl, hq⟩ | ⟨hd, q, rfl, hq⟩)
    · exact ⟨q, by rw [List.append_assoc, List.singleton_append], .inl hq⟩
    · exact ⟨q, rfl, .inr (matches_cons_iff.mpr (.inr ⟨q, rfl, hd, hq⟩))⟩

end Oce.Base
