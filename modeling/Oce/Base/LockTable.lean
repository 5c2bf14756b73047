import Mathlib.Data.List.Basic
import Mathlib.Logic.Function.Basic
import Mathlib.Tactic.TypeStar

/-!
# Locks by name

What is to be expected of a lock for every name: it is taken when nobody has it, it is refused when
somebody does, and it is given back by the one who has it. `run` follows a list of such events from
the owners there are, and fails at the first one that should not have happened. A list that can be
followed is one in which nobody comes between a taker and his giving back (`released_between`).
-/

set_option autoImplicit false

namespace Oce.Base.LockTable

open Function

variable {τ κ : Type*}

inductive Event (τ κ : Type*)
  | acquired (t : τ) (k : κ)
  | refused (t : τ) (k : κ)
  | released (t : τ) (k : κ)
  deriving DecidableEq

/-- Who has the lock of a name. -/
abbrev Owners (τ κ : Type*) := κ → Option τ

variable [DecidableEq τ] [DecidableEq κ]

def next (o : Owners τ κ) : Event τ κ → Option (Owners τ κ)
  | .acquired t k => if o k = none then some (update o k (some t)) else none
  | .refused _ k => if o k = none then none else some o
  | .released t k => if o k = some t then some (update o k none) else none

def run : Owners τ κ → List (Event τ κ) → Option (Owners τ κ)
  | o, [] => some o
  | o, e :: es => (next o e).bind fun o => run o es

variable {o o' : Owners τ κ} {es es' es'' : List (Event τ κ)} {t t' : τ} {k : κ}

@[simp] theorem run_nil (o : Owners τ κ) : run o [] = some o := rfl

@[simp] theorem run_cons (o : Owners τ κ) (e : Event τ κ) (es : List (Event τ κ)) :
    run o (e :: es) = (next o e).bind fun o => run o es := rfl

theorem run_append (o : Owners τ κ) (es es' : List (Event τ κ)) :
    run o (es ++ es') = (run o es).bind fun o => run o es' := by
  induction es generalizing o with
  | nil => rfl
  | cons e es ih =>
      rw [List.cons_append, run_cons, run_cons, Option.bind_assoc]
      congr 1
      funext o'
      exact ih o'

/-- An owner stays until he gives the lock back. -/
theorem owner_of_run (h : run o es = some o') (hk : o k = some t) (hmem : .released t k ∉ es) :
    o' k = some t := by
  induction es generalizing o with
  | nil =>
      obtain rfl := Option.some.inj h
      exact hk
  | cons e es ih =>
      rw [run_cons, Option.bind_eq_some_iff] at h
      obtain ⟨o₁, hnext, hrest⟩ := h
      refine ih hrest ?_ fun hin => hmem (List.mem_cons_of_mem _ hin)
      cases e with
      | acquired t' k' =>
          simp only [next, Option.ite_none_right_eq_some, Option.some.injEq] at hnext
          obtain ⟨hfree, rfl⟩ := hnext
          have hne : k ≠ k' := by
            rintro rfl
            rw [hk] at hfree
            cases hfree
          rwa [update_of_ne hne]
      | refused t' k' =>
          simp only [next, Option.ite_none_left_eq_some, Option.some.injEq] at hnext
          exact hnext.2 ▸ hk
      | released t' k' =>
          simp only [next, Option.ite_none_right_eq_some, Option.some.injEq] at hnext
          obtain ⟨howner, rfl⟩ := hnext
          by_cases hk' : k = k'
          · subst hk'
            obtain rfl : t = t' := Option.some.inj (hk.symm.trans howner)
            exact absurd List.mem_cons_self hmem
          · rwa [update_of_ne hk']

/-- **Nobody comes between**: where a lock is taken twice, the first taker has given it back before the
second took it. -/
theorem released_between (h : (run o (es ++ .acquired t k :: es' ++ .acquired t' k :: es'')).isSome) :
    .released t k ∈ es' := by
  obtain ⟨o', hrun⟩ := Option.isSome_iff_exists.mp h
  rw [List.append_assoc, List.cons_append, run_append, Option.bind_eq_some_iff] at hrun
  obtain ⟨o₁, -, hrun⟩ := hrun
  rw [run_cons, Option.bind_eq_some_iff] at hrun
  obtain ⟨o₂, htaken, hrun⟩ := hrun
  rw [run_append, Option.bind_eq_some_iff] at hrun
  obtain ⟨o₃, hbetween, hlast⟩ := hrun
  simp only [next, Option.ite_none_right_eq_some, Option.some.injEq] at htaken
  obtain ⟨-, rfl⟩ := htaken
  by_contra hmem
  have howner := owner_of_run hbetween (update_self k (some t) o₁) hmem
  rw [run_cons, next, howner] at hlast
  cases hlast

end Oce.Base.LockTable
