import Mathlib.Data.List.Basic
import Mathlib.Tactic.TypeStar

/-!
# Runs of a step function

A component is a state type, a type of operations and a step function; a run is the
list of operations it is given. `runOps` is the state a run ends in, and
`StepsMeet C` says that every operation of the run meets `C` in the state it finds.

`run_invariant` is the one induction the invariant proofs of this development use: what
holds at the start and is kept by every step that meets `C` holds at the end of every
run whose steps meet `C`. `run_invariant_take` is the same for every state on the way.

Where the code's behaviour may be undefined a step gives an `Option`; `partialStep` makes a run of
such steps, and `partial_run_invariant` is the rule that gives a result besides the invariant.

A loop of the source that may run on is run for a number of rounds (`whileLoop`). It `Returns`
what it gives from some number on; `whileLoop_total` is the rule that it does, from an invariant
and a measure that gets smaller.
-/

set_option autoImplicit false

namespace Oce.Base

variable {σ α : Type*}

/-- The state a run ends in. -/
def runOps (step : σ → α → σ) (s : σ) (ops : List α) : σ := ops.foldl step s

/-- Every operation of the run meets `C` in the state it is applied to. -/
def StepsMeet (step : σ → α → σ) (C : σ → α → Prop) : σ → List α → Prop
  | _, [] => True
  | s, a :: ops => C s a ∧ StepsMeet step C (step s a) ops

variable {step : σ → α → σ} {C : σ → α → Prop} {Inv : σ → Prop}

instance decidableStepsMeet [∀ s a, Decidable (C s a)] :
    ∀ (s : σ) (ops : List α), Decidable (StepsMeet step C s ops)
  | _, [] => .isTrue trivial
  | s, a :: ops =>
    have := decidableStepsMeet (step s a) ops
    inferInstanceAs (Decidable (C s a ∧ StepsMeet step C (step s a) ops))

@[simp] theorem runOps_nil (s : σ) : runOps step s [] = s := rfl

@[simp] theorem runOps_cons (s : σ) (a : α) (ops : List α) :
    runOps step s (a :: ops) = runOps step (step s a) ops := rfl

theorem runOps_append (s : σ) (ops ops' : List α) :
    runOps step s (ops ++ ops') = runOps step (runOps step s ops) ops' := by
  simp [runOps, List.foldl_append]

@[simp] theorem stepsMeet_nil (s : σ) : StepsMeet step C s [] := trivial

@[simp] theorem stepsMeet_cons (s : σ) (a : α) (ops : List α) :
    StepsMeet step C s (a :: ops) ↔ C s a ∧ StepsMeet step C (step s a) ops := Iff.rfl

/-- A run meets `C` exactly when its two parts do. -/
theorem stepsMeet_append (s : σ) (ops ops' : List α) :
    StepsMeet step C s (ops ++ ops') ↔
      StepsMeet step C s ops ∧ StepsMeet step C (runOps step s ops) ops' := by
  induction ops generalizing s with
  | nil => simp
  | cons a ops ih => simp [ih, and_assoc]

/-- A condition that does not look at the state is met when every operation meets it. -/
theorem stepsMeet_of_forall {P : α → Prop} (s : σ) {ops : List α} (h : ∀ a ∈ ops, P a) :
    StepsMeet step (fun _ a => P a) s ops := by
  induction ops generalizing s with
  | nil => trivial
  | cons a ops ih =>
      exact ⟨h a (by simp), ih _ fun b hb => h b (List.mem_cons_of_mem _ hb)⟩

/-- A run that meets `C` meets everything `C` implies. -/
theorem StepsMeet.mono {C' : σ → α → Prop} (h : ∀ s a, C s a → C' s a) {s : σ}
    {ops : List α} (hops : StepsMeet step C s ops) : StepsMeet step C' s ops := by
  induction ops generalizing s with
  | nil => trivial
  | cons a ops ih => exact ⟨h _ _ hops.1, ih hops.2⟩

/-- A run that meets two conditions meets both at every step. -/
theorem StepsMeet.and {C' : σ → α → Prop} {s : σ} {ops : List α} (h : StepsMeet step C s ops)
    (h' : StepsMeet step C' s ops) : StepsMeet step (fun s a => C s a ∧ C' s a) s ops := by
  induction ops generalizing s with
  | nil => trivial
  | cons a ops ih => exact ⟨⟨h.1, h'.1⟩, ih h.2 h'.2⟩

/-- **The invariant rule.** -/
theorem run_invariant (hstep : ∀ s a, Inv s → C s a → Inv (step s a)) {s : σ} (hs : Inv s)
    {ops : List α} (hops : StepsMeet step C s ops) : Inv (runOps step s ops) := by
  induction ops generalizing s with
  | nil => exact hs
  | cons a ops ih => exact ih (hstep s a hs hops.1) hops.2

/-- The invariant rule for every state the run reaches on its way. -/
theorem run_invariant_take (hstep : ∀ s a, Inv s → C s a → Inv (step s a)) {s : σ} (hs : Inv s)
    {ops : List α} (hops : StepsMeet step C s ops) (k : ℕ) :
    Inv (runOps step s (ops.take k)) := by
  have h := (stepsMeet_append s (ops.take k) (ops.drop k)).mp
    (by rw [List.take_append_drop]; exact hops)
  exact run_invariant hstep hs h.1

/-- The condition of a step, in the state that the run has reached by then. -/
theorem StepsMeet.at_step {s : σ} {ops : List α} (h : StepsMeet step C s ops) {k : ℕ} {a : α}
    (hk : ops[k]? = some a) : C (runOps step s (ops.take k)) a := by
  induction ops generalizing s k with
  | nil => cases hk
  | cons b ops ih =>
      cases k with
      | zero =>
          cases hk
          exact h.1
      | succ k => exact ih h.2 hk

/-- A run meets what each of its operations meets in the state it finds. -/
theorem stepsMeet_of_at_step {s : σ} {ops : List α}
    (h : ∀ k a, ops[k]? = some a → C (runOps step s (ops.take k)) a) : StepsMeet step C s ops := by
  induction ops generalizing s with
  | nil => trivial
  | cons a ops ih => exact ⟨h 0 a rfl, ih fun k b hb => h (k + 1) b hb⟩

/-- Where each step that meets `C` keeps the invariant, the invariant gives `P`, and a step after
which `P` holds has met `C`: `P` holds in every state of a run exactly when its steps meet `C`. What
all operations of the run meet, `D`, may be used for each of its steps. -/
theorem forall_take_iff_stepsMeet_of {P : σ → Prop} {D : α → Prop} (hP : ∀ s, Inv s → P s)
    (hstep : ∀ s a, D a → Inv s → C s a → Inv (step s a))
    (hback : ∀ s a, D a → Inv s → P (step s a) → C s a) {s : σ} (hs : Inv s) {ops : List α}
    (hops : ∀ a ∈ ops, D a) :
    (∀ k, P (runOps step s (ops.take k))) ↔ StepsMeet step C s ops := by
  constructor
  · intro h
    induction ops generalizing s with
    | nil => trivial
    | cons a ops ih =>
        have hD : D a := hops a (by simp)
        have ha : C s a := hback s a hD hs (by simpa using h 1)
        exact ⟨ha, ih (hstep s a hD hs ha) (fun b hb => hops b (List.mem_cons_of_mem _ hb))
          fun k => by simpa using h (k + 1)⟩
  · intro h k
    have hboth := (@stepsMeet_of_forall _ _ step D s ops hops).and h
    exact hP _ (run_invariant_take (fun s a hs ha => hstep s a ha.1 hs ha.2) hs hboth k)

/-- The same for a run of any operations. -/
theorem forall_take_iff_stepsMeet {P : σ → Prop} (hP : ∀ s, Inv s → P s)
    (hstep : ∀ s a, Inv s → C s a → Inv (step s a)) (hback : ∀ s a, Inv s → P (step s a) → C s a)
    {s : σ} (hs : Inv s) (ops : List α) :
    (∀ k, P (runOps step s (ops.take k))) ↔ StepsMeet step C s ops :=
  forall_take_iff_stepsMeet_of (D := fun _ => True) hP (fun s a _ => hstep s a)
    (fun s a _ => hback s a) hs fun _ _ => trivial

/-- The invariant rule for a step that needs no condition. -/
theorem run_invariant_all (hstep : ∀ s a, Inv s → Inv (step s a)) {s : σ} (hs : Inv s)
    (ops : List α) : Inv (runOps step s ops) :=
  run_invariant (C := fun _ _ => True) (fun s a h _ => hstep s a h) hs
    (stepsMeet_of_forall s fun _ _ => trivial)

/-! ## Steps that may have no result -/

section Partial

variable {f : σ → α → Option σ}

/-- A step that may have no result, in a state that may be gone. -/
def partialStep (f : σ → α → Option σ) (o : Option σ) (a : α) : Option σ := o.bind fun s => f s a

/-- A condition on the state that a step finds, if there is one. -/
def WhenLive (C : σ → α → Prop) (o : Option σ) (a : α) : Prop := ∀ s ∈ o, C s a

instance [∀ s a, Decidable (C s a)] (o : Option σ) (a : α) : Decidable (WhenLive C o a) :=
  Option.decidableForallMem _

@[simp] theorem partialStep_some (s : σ) (a : α) : partialStep f (some s) a = f s a := rfl

@[simp] theorem whenLive_some (s : σ) (a : α) : WhenLive C (some s) a ↔ C s a := by
  simp [WhenLive]

/-- **The invariant rule for partial steps.** Where every step that meets `C` has a result and keeps
the invariant, a run whose steps meet `C` has a result, with the invariant. -/
theorem partial_run_invariant (hstep : ∀ s a, Inv s → C s a → ∃ t ∈ f s a, Inv t) {s : σ}
    (hs : Inv s) {ops : List α} (hops : StepsMeet (partialStep f) (WhenLive C) (some s) ops) :
    ∃ t ∈ runOps (partialStep f) (some s) ops, Inv t := by
  have hlive : ∀ (o : Option σ) (a : α), (∃ t ∈ o, Inv t) → WhenLive C o a →
      ∃ t ∈ partialStep f o a, Inv t := by
    rintro _ a ⟨t, rfl, ht⟩ ha
    exact hstep t a ht (ha t rfl)
  exact run_invariant hlive ⟨s, rfl, hs⟩ hops

end Partial

/-! ## Loops that may run on -/

/-- `while (cond) body`; nothing if it has not ended after `fuel` rounds. -/
def whileLoop (cond : σ → Bool) (body : σ → σ) : ℕ → σ → Option σ
  | 0, s => if cond s then none else some s
  | fuel + 1, s => if cond s then whileLoop cond body fuel (body s) else some s

section Loops

variable {β : Type*} {a : α} {b : β} {cond : σ → Bool} {body : σ → σ}

/-- The result is `a` with any number of rounds that is large enough. -/
def Returns (f : ℕ → Option α) (a : α) : Prop := ∃ n, ∀ fuel, n ≤ fuel → f fuel = some a

theorem Returns.unique {f : ℕ → Option α} {a' : α} (h : Returns f a) (h' : Returns f a') :
    a = a' := by
  obtain ⟨n, hn⟩ := h
  obtain ⟨n', hn'⟩ := h'
  have hsame := (hn (n + n') (by omega)).symm.trans (hn' (n + n') (by omega))
  exact Option.some.inj hsame

theorem Returns.bind {f : ℕ → Option α} {g : ℕ → α → Option β} (hf : Returns f a)
    (hg : Returns (fun fuel => g fuel a) b) : Returns (fun fuel => (f fuel).bind (g fuel)) b := by
  obtain ⟨n, hn⟩ := hf
  obtain ⟨m, hm⟩ := hg
  refine ⟨n + m, fun fuel hfuel => ?_⟩
  dsimp only
  rw [hn fuel (by omega), Option.bind_some]
  exact hm fuel (by omega)

theorem Returns.map {f : ℕ → Option α} (hf : Returns f a) (g : α → β) :
    Returns (fun fuel => (f fuel).map g) (g a) := by
  obtain ⟨n, hn⟩ := hf
  refine ⟨n, fun fuel hfuel => ?_⟩
  dsimp only
  rw [hn fuel hfuel, Option.map_some]

open Classical in
/-- What is returned in the end, if anything is. -/
noncomputable def result (f : ℕ → Option α) : Option α :=
  if h : ∃ a, Returns f a then some h.choose else none

theorem Returns.result_eq {f : ℕ → Option α} (h : Returns f a) : result f = some a := by
  have hex : ∃ a, Returns f a := ⟨a, h⟩
  rw [result, dif_pos hex, hex.choose_spec.unique h]

/-- Results that are related with every number of rounds are related. -/
theorem Returns.rel {R : α → β → Prop} {f : ℕ → Option α} {g : ℕ → Option β} (hf : Returns f a)
    (hg : Returns g b) (h : ∀ fuel, Option.Rel R (f fuel) (g fuel)) : R a b := by
  obtain ⟨n, hn⟩ := hf
  obtain ⟨m, hm⟩ := hg
  have hboth := h (n + m)
  rw [hn (n + m) (by omega), hm (n + m) (by omega)] at hboth
  exact Option.rel_some_some.mp hboth

theorem returns_const (a : α) : Returns (fun _ => some a) a := ⟨0, fun _ _ => rfl⟩

theorem whileLoop_of_not {s : σ} (h : cond s = false) (fuel : ℕ) :
    whileLoop cond body fuel s = some s := by
  cases fuel <;> simp [whileLoop, h]

/-- What is returned after one more round. -/
theorem Returns.round {s : σ} {t : σ} (hcond : cond s = true)
    (h : Returns (fun fuel => whileLoop cond body fuel (body s)) t) :
    Returns (fun fuel => whileLoop cond body fuel s) t := by
  obtain ⟨n, hn⟩ := h
  refine ⟨n + 1, fun fuel hfuel => ?_⟩
  obtain ⟨fuel, rfl⟩ : ∃ k, fuel = k + 1 := ⟨fuel - 1, by omega⟩
  dsimp only [whileLoop]
  rw [if_pos hcond]
  exact hn fuel (by omega)

/-- **A loop that runs on.** What every round keeps, and what does not end the loop. -/
theorem whileLoop_none {P : σ → Prop} (hround : ∀ s, P s → cond s = true ∧ P (body s)) {s : σ} (hs : P s)
    (fuel : ℕ) : whileLoop cond body fuel s = none := by
  induction fuel generalizing s with
  | zero => simp [whileLoop, (hround s hs).1]
  | succ fuel ih => simp [whileLoop, (hround s hs).1, ih (hround s hs).2]

/-- **The loop rule.** A loop that keeps `Inv` and makes `measure` smaller in every round ends, in
a state where `Inv` holds and `cond` does not. -/
theorem whileLoop_total (cond : σ → Bool) (body : σ → σ) (Inv : σ → Prop) (measure : σ → ℕ)
    (hround : ∀ s, Inv s → cond s = true → Inv (body s) ∧ measure (body s) < measure s) {s : σ}
    (hs : Inv s) :
    ∃ t, Returns (fun fuel => whileLoop cond body fuel s) t ∧ Inv t ∧ cond t = false := by
  induction hm : measure s using Nat.strongRecOn generalizing s with
  | _ m ih =>
      cases hcond : cond s with
      | false => exact ⟨s, ⟨0, fun fuel _ => whileLoop_of_not hcond fuel⟩, hs, hcond⟩
      | true =>
          obtain ⟨hbody, hless⟩ := hround s hs hcond
          obtain ⟨t, hreturns, ht⟩ := ih _ (hm ▸ hless) hbody rfl
          exact ⟨t, hreturns.round hcond, ht⟩

/-- **Two loops side by side.** Loops that keep a relation between their states, and go on together,
end together, in states that are related. -/
theorem whileLoop_rel {τ : Type*} (cond : σ → Bool) (body : σ → σ) (cond' : τ → Bool)
    (body' : τ → τ) (R : σ → τ → Prop) (hcond : ∀ s t, R s t → cond s = cond' t)
    (hbody : ∀ s t, R s t → cond s = true → R (body s) (body' t)) {s : σ} {t : τ} (h : R s t)
    (fuel : ℕ) : Option.Rel (fun s t => R s t ∧ cond s = false) (whileLoop cond body fuel s)
      (whileLoop cond' body' fuel t) := by
  induction fuel generalizing s t with
  | zero =>
      unfold whileLoop
      rw [← hcond s t h]
      split
      case isTrue => exact .none
      case isFalse hends => exact .some ⟨h, by simpa using hends⟩
  | succ fuel ih =>
      unfold whileLoop
      rw [← hcond s t h]
      split
      case isTrue hgoes => exact ih (hbody s t h hgoes)
      case isFalse hends => exact .some ⟨h, by simpa using hends⟩

end Loops

end Oce.Base
