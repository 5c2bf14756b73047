import Oce.MemcProxy.Model.ClientConn

/-!
# The client's writes

What is under way on the client's socket, seen by owner: the writes of one upstream's blocks,
and those of last lines, which no upstream owns. The socket takes bytes of one write, a
handler runs for one that is sent whole, and both leave the writes of the other owners alone.
-/

set_option autoImplicit false

namespace Oce.MemcProxy

open Oce.Base

variable {i : ℕ} {w : ClientWrite} {c : ClientConnection} {full : List Byte}

/-! ## The writes that are under way -/

/-- The writes of an upstream's blocks. -/
def writesOf (i : ℕ) (ws : List ClientWrite) : List ClientWrite := ws.filter fun w => w.memcli = some i

/-- The writes of last lines that are not sent whole yet. -/
def unsentLines (ws : List ClientWrite) : List ClientWrite :=
  ws.filter fun w => w.memcli = none ∧ w.rest ≠ []

theorem mem_writesOf {ws : List ClientWrite} : w ∈ writesOf i ws ↔ w ∈ ws ∧ w.memcli = some i := by
  simp [writesOf]

@[simp] theorem writesOf_append (i : ℕ) (ws ws' : List ClientWrite) :
    writesOf i (ws ++ ws') = writesOf i ws ++ writesOf i ws' := List.filter_append _ _

@[simp] theorem unsentLines_append (ws ws' : List ClientWrite) :
    unsentLines (ws ++ ws') = unsentLines ws ++ unsentLines ws' := List.filter_append _ _

theorem writesOf_cons_self (h : w.memcli = some i) (ws : List ClientWrite) :
    writesOf i (w :: ws) = w :: writesOf i ws := by
  simp [writesOf, h]

theorem writesOf_cons_ne (h : w.memcli ≠ some i) (ws : List ClientWrite) :
    writesOf i (w :: ws) = writesOf i ws := by
  simp [writesOf, h]

theorem unsentLines_cons_pos (h : w.memcli = none) (hrest : w.rest ≠ []) (ws : List ClientWrite) :
    unsentLines (w :: ws) = w :: unsentLines ws := by
  simp [unsentLines, h, hrest]

theorem unsentLines_cons_neg (h : w.memcli ≠ none ∨ w.rest = []) (ws : List ClientWrite) :
    unsentLines (w :: ws) = unsentLines ws := by
  unfold unsentLines
  rw [List.filter_cons_of_neg]
  rcases h with h | h
  · simp [h]
  · simp [h]

/-- The list around one of its places. -/
theorem exists_around {α : Type*} {l : List α} {j : ℕ} {a : α} (h : l[j]? = some a) :
    ∃ l₁ l₂, l = l₁ ++ a :: l₂ ∧ (∀ b, l.set j b = l₁ ++ b :: l₂) ∧ l.eraseIdx j = l₁ ++ l₂ ∧
      ∀ b, b ∈ l₁ ∨ b ∈ l₂ → ∃ j', j' ≠ j ∧ l[j']? = some b := by
  induction l generalizing j with
  | nil => cases h
  | cons c l ih =>
      cases j with
      | zero =>
          cases h
          refine ⟨[], l, rfl, fun b => rfl, rfl, ?_⟩
          intro b hb
          rcases hb with hb | hb
          · cases hb
          · obtain ⟨k, hk⟩ := List.mem_iff_getElem?.mp hb
            exact ⟨k + 1, Nat.succ_ne_zero k, hk⟩
      | succ j =>
          obtain ⟨l₁, l₂, rfl, hset, herase, hother⟩ := ih h
          refine ⟨c :: l₁, l₂, rfl, ?_, ?_, ?_⟩
          · intro b
            rw [List.set_cons_succ, hset, List.cons_append]
          · rw [List.eraseIdx_cons_succ, herase, List.cons_append]
          · intro b hb
            rw [List.mem_cons, or_assoc] at hb
            rcases hb with rfl | hb
            · exact ⟨0, (Nat.succ_ne_zero j).symm, rfl⟩
            · obtain ⟨k, hk, hget⟩ := hother b hb
              exact ⟨k + 1, fun he => hk (Nat.succ.inj he), hget⟩

/-! ## The last line -/

/-- The last line is queued, and `full` is what the client has been sent when it has left. -/
def LineQueued (c : ClientConnection) (full : List Byte) : Prop :=
  unsentLines c.writes = [] ∧ c.stream = full ∨
    ∃ w, unsentLines c.writes = [w] ∧ c.stream ++ w.rest = full

theorem LineQueued.prefix (h : LineQueued c full) : c.stream <+: full := by
  rcases h with ⟨-, h⟩ | ⟨w, -, h⟩
  · exact h ▸ List.prefix_rfl
  · exact ⟨_, h⟩

theorem LineQueued.eq (h : LineQueued c full) (hwrites : c.writes = []) : c.stream = full := by
  rcases h with ⟨-, h⟩ | ⟨w, hw, -⟩
  · exact h
  · rw [hwrites] at hw
    cases hw

theorem append_cons_eq_singleton {α : Type*} {l₁ l₂ : List α} {a b : α} (h : l₁ ++ a :: l₂ = [b]) :
    l₁ = [] ∧ l₂ = [] ∧ a = b := by
  cases l₁ with
  | nil =>
      obtain ⟨rfl, rfl⟩ := List.cons.inj h
      exact ⟨rfl, rfl, rfl⟩
  | cons c l₁ =>
      have := (List.cons.inj h).2
      exact absurd (List.append_eq_nil_iff.mp this).2 (List.cons_ne_nil _ _)

/-- The socket takes some of the last line. -/
theorem LineQueued.taken (h : LineQueued c full) {l₁ l₂ : List ClientWrite}
    (hwrites : c.writes = l₁ ++ w :: l₂) (hnone : w.memcli = none) (hrest : w.rest ≠ []) (n : ℕ) :
    LineQueued { c with
      writes := l₁ ++ { w with rest := w.rest.drop n } :: l₂
      stream := c.stream ++ w.rest.take n } full := by
  have hunsent : unsentLines c.writes = unsentLines l₁ ++ w :: unsentLines l₂ := by
    rw [hwrites, unsentLines_append, unsentLines_cons_pos hnone hrest]
  rcases h with ⟨hnil, -⟩ | ⟨v, hv, hfull⟩
  · rw [hunsent] at hnil
    exact absurd (List.append_eq_nil_iff.mp hnil).2 (List.cons_ne_nil _ _)
  · rw [hunsent] at hv
    obtain ⟨h₁, h₂, rfl⟩ := append_cons_eq_singleton hv
    by_cases hdrop : w.rest.drop n = []
    · refine .inl ⟨?_, ?_⟩
      · show unsentLines (l₁ ++ _) = []
        rw [unsentLines_append, unsentLines_cons_neg (.inr hdrop), h₁, h₂, List.append_nil]
      · show c.stream ++ w.rest.take n = full
        rw [← hfull, ← List.append_nil (w.rest.take n), ← hdrop, List.take_append_drop]
    · refine .inr ⟨{ w with rest := w.rest.drop n }, ?_, ?_⟩
      · show unsentLines (l₁ ++ _) = _
        rw [unsentLines_append, unsentLines_cons_pos (w := { w with rest := w.rest.drop n }) hnone hdrop, h₁, h₂, List.nil_append]
      · show c.stream ++ w.rest.take n ++ w.rest.drop n = full
        rw [List.append_assoc, List.take_append_drop, hfull]

/-- The handler of a write changes nothing of it. -/
theorem LineQueued.congr {c' : ClientConnection} (h : LineQueued c full)
    (hunsent : unsentLines c'.writes = unsentLines c.writes) (hstream : c'.stream = c.stream) :
    LineQueued c' full := by
  unfold LineQueued
  rw [hunsent, hstream]
  exact h

end Oce.MemcProxy
