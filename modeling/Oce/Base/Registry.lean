import Mathlib.Data.List.Basic
import Mathlib.Logic.Function.Basic
import Mathlib.Tactic.TypeStar

/-!
# Registries

A registry makes an object for a key and remembers which object the key leads to. Objects are never
forgotten by those who hold them: an object whose key leads elsewhere by now is still there, under its
number. In a `Unique` registry that has not happened (`Unique.eq`), and it stays so as long as an
object is made only for a key that leads nowhere (`Unique.create`).
-/

set_option autoImplicit false

namespace Oce.Base

open Function

variable {κ ω : Type*}

/-- The objects that were made, each with its key, and the object that each key leads to. -/
structure Registry (κ ω : Type*) where
  objects : List (κ × ω)
  current : κ → Option ℕ

namespace Registry

def empty : Registry κ ω := ⟨[], fun _ => none⟩

/-- A new object, to which its key leads from now on. -/
def create [DecidableEq κ] (r : Registry κ ω) (key : κ) (o : ω) : Registry κ ω where
  objects := r.objects ++ [(key, o)]
  current := update r.current key (some r.objects.length)

/-- One object is changed. -/
def modify (r : Registry κ ω) (i : ℕ) (f : ω → ω) : Registry κ ω :=
  { r with objects := r.objects.modify i fun p => (p.1, f p.2) }

/-- Every object is the one that its key leads to. -/
structure Unique (r : Registry κ ω) : Prop where
  leads : ∀ (i : ℕ) (p : κ × ω), r.objects[i]? = some p → r.current p.1 = some i
  made : ∀ (key : κ) (i : ℕ), r.current key = some i → ∃ o, r.objects[i]? = some (key, o)

variable {r : Registry κ ω}

@[simp] theorem modify_current (i : ℕ) (f : ω → ω) : (r.modify i f).current = r.current := rfl

/-- What is under a number after a change. -/
theorem modify_objects (i : ℕ) (f : ω → ω) (j : ℕ) :
    (r.modify i f).objects[j]? =
      (r.objects[j]?).map fun p => if i = j then (p.1, f p.2) else p := by
  unfold modify
  simp only [List.getElem?_modify]
  split
  · rfl
  · simp

/-- What is under a number after an object was made. -/
theorem create_objects [DecidableEq κ] {key : κ} {o : ω} {i : ℕ} {p : κ × ω}
    (h : (r.create key o).objects[i]? = some p) :
    r.objects[i]? = some p ∨ i = r.objects.length ∧ p = (key, o) := by
  rcases Nat.lt_or_ge i r.objects.length with hlt | hge
  · left
    rwa [create, List.getElem?_append_left hlt] at h
  · right
    rw [create, List.getElem?_append_right hge] at h
    cases hi : i - r.objects.length with
    | zero =>
        rw [hi] at h
        exact ⟨by omega, by simpa using h.symm⟩
    | succ n => simp [hi] at h

theorem unique_empty : (empty : Registry κ ω).Unique :=
  ⟨fun _ _ h => (nomatch h), fun _ _ h => (nomatch h)⟩

namespace Unique

/-- In a registry where every object is the one its key leads to, a key has one object. -/
theorem eq (h : r.Unique) {i j : ℕ} {p q : κ × ω} (hi : r.objects[i]? = some p)
    (hj : r.objects[j]? = some q) (hpq : p.1 = q.1) : i = j := by
  have hlead := h.leads i p hi
  rw [hpq, h.leads j q hj] at hlead
  exact (Option.some.inj hlead).symm

/-- A number that a key leads to is that of an object. -/
theorem lt_length (h : r.Unique) {key : κ} {i : ℕ} (hi : r.current key = some i) :
    i < r.objects.length := by
  obtain ⟨o, ho⟩ := h.made key i hi
  exact (List.getElem?_eq_some_iff.mp ho).1

theorem modify (h : r.Unique) (i : ℕ) (f : ω → ω) : (r.modify i f).Unique where
  leads j p hp := by
    rw [modify_objects, Option.map_eq_some_iff] at hp
    obtain ⟨q, hq, rfl⟩ := hp
    have hkey : (if i = j then (q.1, f q.2) else q).1 = q.1 := by split <;> rfl
    rw [hkey]
    exact h.leads j q hq
  made key j hj := by
    obtain ⟨o, ho⟩ := h.made key j hj
    refine ⟨if i = j then f o else o, ?_⟩
    rw [modify_objects, ho]
    simp only [Option.map_some]
    split <;> rfl

/-- An object that is made for a key which leads nowhere. -/
theorem create [DecidableEq κ] (h : r.Unique) {key : κ} (hkey : r.current key = none) (o : ω) :
    (r.create key o).Unique where
  leads i p hp := by
    rcases create_objects hp with hold | ⟨rfl, rfl⟩
    · have hne : p.1 ≠ key := by
        rintro rfl
        rw [h.leads i p hold] at hkey
        cases hkey
      simp only [Registry.create, update_of_ne hne]
      exact h.leads i p hold
    · simp [Registry.create]
  made k i hi := by
    by_cases hk : k = key
    · subst hk
      simp only [Registry.create, update_self, Option.some.injEq] at hi
      subst hi
      exact ⟨o, by simp [Registry.create]⟩
    · simp only [Registry.create, update_of_ne hk] at hi
      obtain ⟨x, hx⟩ := h.made k i hi
      refine ⟨x, ?_⟩
      rw [Registry.create, List.getElem?_append_left (h.lt_length hi)]
      exact hx

end Unique

/-- A key that leads somewhere leads there still when another key gets an object. -/
theorem current_create [DecidableEq κ] {key k : κ} {o : ω} {i : ℕ} (hkey : r.current key = none)
    (hk : r.current k = some i) : (r.create key o).current k = some i := by
  have hne : k ≠ key := by
    rintro rfl
    rw [hkey] at hk
    cases hk
  simp only [create, update_of_ne hne]
  exact hk

end Registry

end Oce.Base
