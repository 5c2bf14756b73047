import Mathlib.Data.List.Nodup

/-!
# Doubly linked chains

Cells with a pointer to the cell before them in time and one to the cell after them.
`Chain pre next after before l` says that the cells `l`, newest first, are linked to each
other both ways, the newest one to `after` and the oldest one to `before`. A cell is pushed
at the new end (`Chain.push`) or taken out of the middle (`Chain.unlink`) by changing the
pointers of its neighbours; both rules ask for the new pointers of the cells of the chain
only, so a heap may do what it likes to other cells.
-/

set_option autoImplicit false

namespace Oce.Base

variable {κ : Type*} {pre next pre' next' : κ → Option κ} {after before after' before' : Option κ}

/-- The cells `l`, newest first, are linked both ways between `after` and `before`. -/
def Chain (pre next : κ → Option κ) (after before : Option κ) : List κ → Prop
  | [] => True
  | a :: l => next a = after ∧ pre a = l.head?.or before ∧ Chain pre next (some a) before l

theorem chain_nil : Chain pre next after before [] := trivial

theorem chain_cons {a : κ} {l : List κ} :
    Chain pre next after before (a :: l) ↔
      next a = after ∧ pre a = l.head?.or before ∧ Chain pre next (some a) before l := Iff.rfl

/-- Two chains in a row. -/
theorem chain_append {xs ys : List κ} :
    Chain pre next after before (xs ++ ys) ↔
      Chain pre next after (ys.head?.or before) xs ∧
        Chain pre next (xs.getLast?.or after) before ys := by
  induction xs generalizing after with
  | nil =>
      simp only [List.nil_append, List.getLast?_nil, Option.none_or]
      exact ⟨fun h => ⟨chain_nil, h⟩, fun h => h.2⟩
  | cons a xs ih =>
      have hhead : (xs ++ ys).head?.or before = xs.head?.or (ys.head?.or before) := by
        rw [List.head?_append, Option.or_assoc]
      have hlast : (a :: xs).getLast?.or after = xs.getLast?.or (some a) := by
        rw [List.getLast?_cons]
        cases xs.getLast? <;> rfl
      rw [List.cons_append, chain_cons, chain_cons, ih, hhead, hlast]
      tauto

/-- What the cell in the middle of a chain points to. -/
theorem Chain.links {xs ys : List κ} {a : κ} (h : Chain pre next after before (xs ++ a :: ys)) :
    pre a = ys.head?.or before ∧ next a = xs.getLast?.or after := by
  obtain ⟨-, hnext, hpre, -⟩ := chain_append.mp h
  exact ⟨hpre, hnext⟩

/-- A chain whose cells keep their pointers. -/
theorem Chain.congr {l : List κ} (h : Chain pre next after before l)
    (hl : ∀ a ∈ l, pre' a = pre a ∧ next' a = next a) : Chain pre' next' after before l := by
  induction l generalizing after with
  | nil => exact chain_nil
  | cons a l ih =>
      obtain ⟨hn, hp, hrest⟩ := h
      obtain ⟨h1, h2⟩ := hl a List.mem_cons_self
      exact ⟨by rw [h2, hn], by rw [h1, hp],
        ih hrest fun c hc => hl c (List.mem_cons_of_mem a hc)⟩

/-- The new end of a chain is linked to another cell. -/
theorem Chain.setAfter {l : List κ} (h : Chain pre next after before l) (hnodup : l.Nodup)
    (hpre : ∀ a ∈ l, pre' a = pre a)
    (hhead : ∀ a ∈ l.head?, next' a = after')
    (hnext : ∀ a ∈ l, l.head? ≠ some a → next' a = next a) :
    Chain pre' next' after' before l := by
  cases l with
  | nil => exact chain_nil
  | cons a l =>
      obtain ⟨-, hpa, hl⟩ := h
      obtain ⟨hal, -⟩ := List.nodup_cons.mp hnodup
      refine ⟨hhead a rfl, by rw [hpre a List.mem_cons_self, hpa], ?_⟩
      have hrest : ∀ c ∈ l, pre' c = pre c ∧ next' c = next c := by
        intro c hc
        refine ⟨hpre c (List.mem_cons_of_mem a hc), hnext c (List.mem_cons_of_mem a hc) ?_⟩
        intro he
        simp only [List.head?_cons, Option.some.injEq] at he
        exact hal (he ▸ hc)
      exact hl.congr hrest

/-- The old end of a chain is linked to another cell. -/
theorem Chain.setBefore {l : List κ} (h : Chain pre next after before l) (hnodup : l.Nodup)
    (hnext : ∀ a ∈ l, next' a = next a)
    (hlast : ∀ a ∈ l.getLast?, pre' a = before')
    (hpre : ∀ a ∈ l, l.getLast? ≠ some a → pre' a = pre a) :
    Chain pre' next' after before' l := by
  induction l generalizing after with
  | nil => exact chain_nil
  | cons a l ih =>
      obtain ⟨hna, hpa, hl⟩ := h
      obtain ⟨hal, hnodup'⟩ := List.nodup_cons.mp hnodup
      refine ⟨by rw [hnext a List.mem_cons_self, hna], ?_, ?_⟩
      · cases l with
        | nil => exact hlast a rfl
        | cons c l =>
            have hne : (a :: c :: l).getLast? ≠ some a := by
              intro he
              rw [List.getLast?_cons_cons] at he
              exact hal (List.mem_of_getLast? he)
            rw [hpre a List.mem_cons_self hne, hpa]
            rfl
      · have hlast' : ∀ c ∈ l, (a :: l).getLast? = l.getLast? := by
          intro c hc
          cases l with
          | nil => cases hc
          | cons d l => exact List.getLast?_cons_cons
        refine ih hl hnodup' (fun c hc => hnext c (List.mem_cons_of_mem a hc)) ?_ ?_
        · intro c hc
          refine hlast c ?_
          rw [hlast' c (List.mem_of_getLast? hc)]
          exact hc
        · intro c hc hne
          refine hpre c (List.mem_cons_of_mem a hc) ?_
          rwa [hlast' c hc]

/-- **A new cell is pushed at the new end.** -/
theorem Chain.push {l : List κ} {b : κ} (h : Chain pre next none before l) (hnodup : l.Nodup)
    (hb : pre' b = l.head?.or before ∧ next' b = none)
    (hpre : ∀ a ∈ l, pre' a = pre a)
    (hhead : ∀ a ∈ l.head?, next' a = some b)
    (hnext : ∀ a ∈ l, l.head? ≠ some a → next' a = next a) :
    Chain pre' next' none before (b :: l) :=
  ⟨hb.2, hb.1, h.setAfter hnodup hpre hhead hnext⟩

/-- **A cell is taken out of a chain when its neighbours are linked to each other.** -/
theorem Chain.unlink {xs ys : List κ} {a : κ} (h : Chain pre next after before (xs ++ a :: ys))
    (hnodup : (xs ++ a :: ys).Nodup)
    (hlast : ∀ c ∈ xs.getLast?, pre' c = ys.head?.or before)
    (hpre : ∀ c ∈ xs ++ ys, xs.getLast? ≠ some c → pre' c = pre c)
    (hhead : ∀ c ∈ ys.head?, next' c = xs.getLast?.or after)
    (hnext : ∀ c ∈ xs ++ ys, ys.head? ≠ some c → next' c = next c) :
    Chain pre' next' after before (xs ++ ys) := by
  obtain ⟨hxs, hrest⟩ := chain_append.mp h
  obtain ⟨-, -, hys⟩ := hrest
  obtain ⟨hnx, hny, hdisj⟩ := List.nodup_append'.mp hnodup
  have hny' := (List.nodup_cons.mp hny).2
  have hxy : ∀ c ∈ xs, c ∉ ys := fun c hc hc' => hdisj hc (List.mem_cons_of_mem a hc')
  refine chain_append.mpr ⟨hxs.setBefore hnx ?_ hlast ?_, hys.setAfter hny' ?_ hhead ?_⟩
  · intro c hc
    refine hnext c (List.mem_append_left ys hc) fun he => ?_
    exact hxy c hc (List.mem_of_head? he)
  · exact fun c hc => hpre c (List.mem_append_left ys hc)
  · intro c hc
    refine hpre c (List.mem_append_right xs hc) fun he => ?_
    exact hxy c (List.mem_of_getLast? he) hc
  · exact fun c hc => hnext c (List.mem_append_right xs hc)

end Oce.Base
