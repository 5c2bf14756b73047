import Mathlib.Data.List.Basic
import Mathlib.Data.Option.Basic
import Mathlib.Logic.Function.Basic
import Mathlib.Tactic.TypeStar

/-!
# Lists that may be replayed again

A list of records is replayed by a step function. If a second replay of the whole list changes
nothing (`Again`), neither does any number of them (`Again.replicate`).

Two ways to get there. A component that each record sets to a value of its own or leaves alone
(`Setter`) has the value of the last record that sets it. And a state that the first record
which concerns it has to load is as good as a loaded one (`again_of_loaded`).
-/

set_option autoImplicit false

namespace Oce.Base

section Replays

variable {σ β : Type*} {step : σ → β → σ} {l : List β}

/-! ## Replaying again -/

/-- A second replay of the list changes nothing. -/
def Again (step : σ → β → σ) (l : List β) : Prop :=
  ∀ s, l.foldl step (l.foldl step s) = l.foldl step s

/-- **Replays after the first change nothing.** -/
theorem Again.replicate (h : Again step l) (k : ℕ) (s : σ) :
    (List.replicate (k + 1) l).flatten.foldl step s = l.foldl step s := by
  induction k generalizing s with
  | zero => simp
  | succ k ih =>
      rw [List.replicate_succ, List.flatten_cons, List.foldl_append, ih, h]

/-! ## States that are loaded when they are needed -/

section Loaded

variable {Loaded : σ → Prop}

/-- The record concerns no state, or treats every state as a loaded one. -/
def Loads (Loaded : σ → Prop) (f : σ → σ) : Prop :=
  (∀ s, f s = s) ∨ ∀ s, ∃ s', Loaded s' ∧ f s = f s'

theorem Loads.foldl (h : ∀ r ∈ l, Loads Loaded fun s => step s r) :
    Loads Loaded fun s => l.foldl step s := by
  induction l with
  | nil => exact Or.inl fun s => rfl
  | cons r l ih =>
      have hrest := ih fun r' hr' => h r' (List.mem_cons_of_mem r hr')
      rcases h r List.mem_cons_self with hsame | hload
      · simp only [List.foldl_cons, hsame]
        exact hrest
      · refine Or.inr fun s => ?_
        obtain ⟨s', hs', he⟩ := hload s
        exact ⟨s', hs', congrArg (fun t => l.foldl step t) he⟩

/-- Only loaded states have to be looked at. -/
theorem again_of_loaded (h : ∀ r ∈ l, Loads Loaded fun s => step s r)
    (hloaded : ∀ s, Loaded s → l.foldl step (l.foldl step s) = l.foldl step s) : Again step l := by
  intro s
  rcases Loads.foldl h with hsame | hload
  · exact congrArg (fun t => l.foldl step t) (hsame s)
  · obtain ⟨s', hs', he⟩ := hload s
    have hfold : l.foldl step s = l.foldl step s' := he
    rw [hfold]
    exact hloaded s' hs'

end Loaded

/-! ## Setters -/

/-- The function leaves every value alone, or sets it to a value of its own. -/
def Setter (f : σ → σ) : Prop := (∀ s, f s = s) ∨ ∃ c, ∀ s, f s = c

theorem Setter.ite (p : Prop) [Decidable p] (c : σ) {f : σ → σ} (hf : Setter f) :
    Setter fun s => if p then c else f s := by
  by_cases hp : p
  · exact Or.inr ⟨c, fun s => if_pos hp⟩
  · simp only [if_neg hp]
    exact hf

theorem Setter.foldl (h : ∀ r, Setter fun s => step s r) (l : List β) :
    Setter fun s => l.foldl step s := by
  induction l with
  | nil => exact Or.inl fun s => rfl
  | cons r l ih =>
      rcases ih with hsame | ⟨c, hc⟩
      · simp only [List.foldl_cons, hsame]
        exact h r
      · exact Or.inr ⟨c, fun s => hc (step s r)⟩

theorem Setter.idem {f : σ → σ} (hf : Setter f) (s : σ) : f (f s) = f s := by
  rcases hf with hsame | ⟨c, hc⟩
  · rw [hsame]
  · rw [hc, hc]

end Replays

/-!
## Functions on a slot

A slot holds a value or nothing. Of the functions on it, three kinds are closed under
composition and idempotent: the identity, the constants, and those that fill an empty slot
with a fixed value and leave a full one alone. A log of "put unless present" and "clear"
records acts on a slot by such a function, so applying it again to what it left changes
nothing.
-/

variable {α β : Type*}

/-- The identity, a constant, or the function that fills an empty slot. -/
inductive SlotFn (f : Option α → Option α) : Prop
  | same (h : ∀ s, f s = s)
  | const (c : Option α) (h : ∀ s, f s = c)
  | fill (x : α) (h : ∀ s, f s = s.or (some x))

theorem SlotFn.comp {f g : Option α → Option α} (hf : SlotFn f) (hg : SlotFn g) :
    SlotFn fun s => g (f s) := by
  cases hg with
  | same h =>
      have he : (fun s => g (f s)) = f := funext fun s => h (f s)
      rwa [he]
  | const c h => exact .const c fun s => h (f s)
  | fill x hg =>
      cases hf with
      | same hf => exact .fill x fun s => by rw [hf, hg]
      | const c hf => exact .const (c.or (some x)) fun s => by rw [hf, hg]
      | fill y hf =>
          refine .fill y fun s => ?_
          rw [hf, hg]
          cases s <;> rfl

/-- **Such a function is idempotent.** -/
theorem SlotFn.idem {f : Option α → Option α} (hf : SlotFn f) (s : Option α) : f (f s) = f s := by
  cases hf with
  | same h => rw [h]
  | const c h => rw [h, h]
  | fill x h =>
      rw [h, h]
      cases s <;> rfl

/-- A log whose records act by such functions acts by one. -/
theorem SlotFn.foldl {step : Option α → β → Option α} (h : ∀ a, SlotFn fun s => step s a)
    (l : List β) : SlotFn fun s => l.foldl step s := by
  induction l with
  | nil => exact .same fun s => rfl
  | cons a l ih => exact (h a).comp ih

end Oce.Base
