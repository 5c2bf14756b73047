import Mathlib.Data.Int.Init
import Mathlib.Data.List.Basic
import Mathlib.Tactic.TypeStar

/-!
# Reading a packed buffer

A reader takes values off the front of a buffer and fills an object with them. It counts what is
left, and gives up when the count falls below zero; the object stays as far as it was filled.
`Reads p s v s' bs` says that `p`, on any buffer that begins with `bs` and is counted long enough,
takes off `bs`, returns `v` and fills the object `s` to `s'`. Two readers one after the other read
what they read joined (`Reads.bind`), and a loop reads its items (`Reads.times`).
-/

set_option autoImplicit false

namespace Oce.Base

variable {σ β α γ ι : Type}

/-- What is left of a buffer, and the count of it. -/
structure Cursor (β : Type) where
  rest : List β
  total : ℤ

/-- The object and the cursor, also where a reader gives up. -/
abbrev Reader (σ β : Type) := OptionT (StateM (σ × Cursor β))

namespace Reader

/-- The next `n` elements, which have to be there. -/
def peek (n : ℕ) : Reader σ β (List β) := do
  let s ← get
  if n ≤ s.2.rest.length then pure (s.2.rest.take n) else failure

/-- Past `n` elements. -/
def advance (n : ℕ) : Reader σ β Unit := do
  modify fun s => (s.1, ⟨s.2.rest.drop n, s.2.total - n⟩)
  let s ← get
  if s.2.total < 0 then failure else pure ()

/-- A change of the object. -/
def fill (f : σ → σ) : Reader σ β Unit := modify fun s => (f s.1, s.2)

/-- The next `n` elements, which go into the object before they are counted. -/
def next (n : ℕ) (f : List β → σ → σ) : Reader σ β (List β) := do
  let xs ← peek n
  fill (f xs)
  advance n
  return xs

/-- A counted loop. -/
def times : ℕ → Reader σ β Unit → Reader σ β Unit
  | 0, _ => pure ()
  | n + 1, body => do
    body
    times n body

theorem bind_apply (p : Reader σ β α) (f : α → Reader σ β γ) (s : σ × Cursor β) :
    (p >>= f).run.run s = match p.run.run s with
      | (some v, s') => (f v).run.run s'
      | (none, s') => (none, s') := by
  rw [OptionT.run_bind]
  unfold Option.elimM
  rw [StateT.run_bind]
  obtain ⟨v, s'⟩ := p.run.run s
  cases v with
  | none => rfl
  | some v => rfl

end Reader

/-- The reader takes off `bs` and no more. -/
def Reads (p : Reader σ β α) (s : σ) (v : α) (s' : σ) (bs : List β) : Prop :=
  ∀ rest total, (bs.length : ℤ) ≤ total →
    p.run.run (s, ⟨bs ++ rest, total⟩) = (some v, (s', ⟨rest, total - bs.length⟩))

namespace Reads

variable {p : Reader σ β α} {f : α → Reader σ β γ} {s s' s'' : σ} {v : α} {w : γ} {bs cs : List β}

theorem pure (s : σ) (v : α) : Reads (pure v : Reader σ β α) s v s [] := by
  intro rest total htotal
  change (some v, s, Cursor.mk ([] ++ rest) total) = _
  simp

theorem fill (g : σ → σ) (s : σ) : Reads (Reader.fill g : Reader σ β Unit) s () (g s) [] := by
  intro rest total htotal
  change (some (), g s, Cursor.mk ([] ++ rest) total) = _
  simp

theorem bind (hp : Reads p s v s' bs) (hf : Reads (f v) s' w s'' cs) :
    Reads (p >>= f) s w s'' (bs ++ cs) := by
  intro rest total htotal
  rw [List.length_append] at htotal
  push_cast at htotal
  rw [Reader.bind_apply, List.append_assoc, hp (cs ++ rest) total (by omega)]
  dsimp only
  rw [hf rest (total - bs.length) (by omega), List.length_append]
  push_cast
  rw [Int.sub_sub]

/-- A reader takes off its own bytes. -/
theorem next (s : σ) (bs : List β) (g : List β → σ → σ) {n : ℕ} (hn : bs.length = n) :
    Reads (Reader.next n g) s bs (g bs s) bs := by
  intro rest total htotal
  have hpeek : (Reader.peek n : Reader σ β (List β)).run.run (s, ⟨bs ++ rest, total⟩) =
      (some bs, s, ⟨bs ++ rest, total⟩) := by
    have htake : (bs ++ rest).take n = bs := by rw [← hn, List.take_left]
    change ((if n ≤ (bs ++ rest).length then Pure.pure ((bs ++ rest).take n) else failure :
      Reader σ β (List β))).run.run (s, ⟨bs ++ rest, total⟩) = _
    rw [if_pos (by simp [hn]), htake]
    rfl
  have hfill : (Reader.fill (g bs) : Reader σ β Unit).run.run (s, ⟨bs ++ rest, total⟩) =
      (some (), g bs s, ⟨bs ++ rest, total⟩) := rfl
  have hadvance : (Reader.advance n : Reader σ β Unit).run.run (g bs s, ⟨bs ++ rest, total⟩) =
      (some (), g bs s, ⟨rest, total - bs.length⟩) := by
    have hdrop : (bs ++ rest).drop n = rest := by rw [← hn, List.drop_left]
    change ((if total - n < 0 then failure else Pure.pure () : Reader σ β Unit)).run.run
      (g bs s, ⟨(bs ++ rest).drop n, total - n⟩) = _
    rw [if_neg (by omega), hdrop, hn]
    rfl
  unfold Reader.next
  rw [Reader.bind_apply, hpeek]
  dsimp only
  rw [Reader.bind_apply, hfill]
  dsimp only
  rw [Reader.bind_apply, hadvance]
  rfl

/-- **A loop reads its items one after the other.** -/
theorem times {body : Reader σ β Unit} {add : σ → List ι → σ} {pack : ι → List β}
    (hnil : ∀ s, add s [] = s) (hcons : ∀ s x xs, add (add s [x]) xs = add s (x :: xs))
    (xs : List ι) (hbody : ∀ x ∈ xs, ∀ s, Reads body s () (add s [x]) (pack x)) (s : σ) :
    Reads (Reader.times xs.length body) s () (add s xs) (xs.flatMap pack) := by
  induction xs generalizing s with
  | nil =>
      rw [hnil]
      exact Reads.pure s ()
  | cons x xs ih =>
      rw [← hcons, List.flatMap_cons]
      apply Reads.bind (hbody x List.mem_cons_self s)
      exact ih (fun y hy => hbody y (List.mem_cons_of_mem x hy)) (add s [x])

end Reads

end Oce.Base
