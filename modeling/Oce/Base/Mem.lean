import Mathlib.Algebra.Order.Ring.Nat
import Mathlib.Data.List.Basic
import Mathlib.Data.List.Count
import Mathlib.Data.List.Defs
import Mathlib.Tactic.Ring
import Mathlib.Tactic.TypeStar

/-!
# Bytes by address

A memory is a byte for each address, and what a program does with it is read and write numbers of
a few bytes, the lowest byte first. `Holds m p l` says that the bytes of `l` are in `m` from the
address `p` on; it is kept by every write that does not touch them (`Holds.of_agrees`), and a
number that was written is read back (`Holds.readLe`), also by a read that takes more bytes than
were written (`Holds.readLe_four`).
-/

set_option autoImplicit false

/-!
## Writes to a range of a file

A patch is a range of addresses and what is written there. Writes that are under way at the
same time may finish in any order; where no two of them cover an address, that makes no
difference: an address that one of them covers holds what that one writes
(`writeAll_of_covers`), and every other address is as it was (`writeAll_of_not_covered`).
-/

namespace Oce.Base

variable {α : Type*}

/-- `len` elements that go to the addresses from `lo` on. -/
structure Patch (α : Type*) where
  lo : ℕ
  len : ℕ
  value : ℕ → α

namespace Patch

/-- The patch writes to the address. -/
def covers (p : Patch α) (o : ℕ) : Bool := p.lo ≤ o ∧ o < p.lo + p.len

/-- What a file holds after the write. -/
def write (file : ℕ → α) (p : Patch α) : ℕ → α := fun o =>
  if p.covers o then p.value (o - p.lo) else file o

/-- What a file holds after the writes, one after the other. -/
def writeAll (file : ℕ → α) (ps : List (Patch α)) : ℕ → α := ps.foldl write file

theorem covers_iff (p : Patch α) (o : ℕ) : p.covers o = true ↔ p.lo ≤ o ∧ o < p.lo + p.len := by
  simp [covers]

@[simp] theorem writeAll_nil (file : ℕ → α) : writeAll file [] = file := rfl

@[simp] theorem writeAll_cons (file : ℕ → α) (p : Patch α) (ps : List (Patch α)) :
    writeAll file (p :: ps) = writeAll (write file p) ps := rfl

theorem writeAll_of_not_covered {file : ℕ → α} {ps : List (Patch α)} {o : ℕ}
    (h : ∀ p ∈ ps, p.covers o = false) : writeAll file ps o = file o := by
  induction ps generalizing file with
  | nil => rfl
  | cons p ps ih =>
      rw [writeAll_cons, ih fun q hq => h q (List.mem_cons_of_mem _ hq)]
      unfold write
      rw [h p List.mem_cons_self]
      rfl

/-- **An address that one patch covers holds what that patch writes.** -/
theorem writeAll_of_covers {file : ℕ → α} {ps : List (Patch α)} {o : ℕ}
    (hone : ps.countP (fun p => p.covers o) = 1) {p : Patch α} (hp : p ∈ ps)
    (hcovers : p.covers o = true) : writeAll file ps o = p.value (o - p.lo) := by
  induction ps generalizing file with
  | nil => cases hp
  | cons q ps ih =>
      rw [writeAll_cons]
      by_cases hq : q.covers o = true
      · rw [List.countP_cons, if_pos hq] at hone
        have hrest : ∀ r ∈ ps, r.covers o = false := by
          have hzero : ps.countP (fun r => r.covers o) = 0 := by omega
          intro r hr
          simpa using List.countP_eq_zero.mp hzero r hr
        rw [writeAll_of_not_covered hrest]
        rcases List.mem_cons.mp hp with rfl | hmem
        · unfold write
          rw [if_pos hcovers]
        · rw [hrest p hmem] at hcovers
          cases hcovers
      · rw [List.countP_cons, if_neg hq, Nat.add_zero] at hone
        rcases List.mem_cons.mp hp with rfl | hmem
        · exact absurd hcovers hq
        · exact ih hone hmem

end Patch

end Oce.Base

namespace Oce.Base

/-- A byte for each address. -/
abbrev Mem := ℕ → UInt8

/-- The lowest `n` bytes of a number, the lowest first. -/
def leBytes (v : ℕ) : ℕ → List UInt8
  | 0 => []
  | n + 1 => UInt8.ofNat v :: leBytes (v / 256) n

namespace Mem

/-- The number in the `n` bytes from `p` on. -/
def readLe (m : Mem) (p : ℕ) : ℕ → ℕ
  | 0 => 0
  | n + 1 => (m p).toNat + 256 * readLe m (p + 1) n

/-- The bytes of a list go to the addresses from `p` on. -/
def writeBytes (m : Mem) (p : ℕ) (l : List UInt8) : Mem :=
  Patch.write m ⟨p, l.length, fun i => l.getD i 0⟩

/-- The lowest `n` bytes of `v` go to the addresses from `p` on. -/
def writeLe (m : Mem) (p v n : ℕ) : Mem := m.writeBytes p (leBytes v n)

/-- The memory from an address on. -/
def from' (m : Mem) (base : ℕ) : Mem := fun i => m (base + i)

/-- The memory with another one in place of what was there from an address on. -/
def splice (m : Mem) (base : ℕ) (m' : Mem) : Mem := fun i => if i < base then m i else m' (i - base)

/-- The `n` bytes from `p` on. -/
def bytes (m : Mem) (p : ℕ) : ℕ → List UInt8
  | 0 => []
  | n + 1 => m p :: bytes m (p + 1) n

/-- A memory that begins with the bytes of a list, and goes on with those of `rest`. -/
def ofBytes (l : List UInt8) (rest : Mem) : Mem := fun i => if h : i < l.length then l[i] else rest i

end Mem

@[simp] theorem length_leBytes (v n : ℕ) : (leBytes v n).length = n := by
  induction n generalizing v with
  | zero => rfl
  | succ n ih => simp [leBytes, ih]

/-- The memory has the bytes of the list from `p` on. -/
def Holds (m : Mem) (p : ℕ) : List UInt8 → Prop
  | [] => True
  | b :: l => m p = b ∧ Holds m (p + 1) l

namespace Holds

variable {m m' : Mem} {p : ℕ} {l l' : List UInt8}

@[simp] theorem nil : Holds m p [] := trivial

@[simp] theorem cons_iff {b : UInt8} : Holds m p (b :: l) ↔ m p = b ∧ Holds m (p + 1) l := Iff.rfl

theorem append_iff : Holds m p (l ++ l') ↔ Holds m p l ∧ Holds m (p + l.length) l' := by
  induction l generalizing p with
  | nil => simp
  | cons b l ih =>
      simp only [List.cons_append, cons_iff, ih, List.length_cons, and_assoc]
      rw [show p + 1 + l.length = p + (l.length + 1) by omega]

/-- **Only the bytes of the list matter.** -/
theorem of_agrees (h : Holds m p l) (hm : ∀ i, p ≤ i → i < p + l.length → m' i = m i) :
    Holds m' p l := by
  induction l generalizing p with
  | nil => trivial
  | cons b l ih =>
      simp only [List.length_cons] at hm
      refine ⟨(hm p (le_refl p) (by omega)).trans h.1, ih h.2 fun i hi hlt => hm i (by omega) ?_⟩
      omega

theorem getElem (h : Holds m p l) {i : ℕ} (hi : i < l.length) : m (p + i) = l[i] := by
  induction l generalizing p i with
  | nil => simp at hi
  | cons b l ih =>
      cases i with
      | zero => exact h.1
      | succ i =>
          have := ih h.2 (i := i) (by simpa using hi)
          simpa [show p + (i + 1) = p + 1 + i by omega] using this

theorem of_getElem (h : ∀ i (hi : i < l.length), m (p + i) = l[i]) : Holds m p l := by
  induction l generalizing p with
  | nil => trivial
  | cons b l ih =>
      refine ⟨h 0 (Nat.zero_lt_succ _), ih fun i hi => ?_⟩
      have := h (i + 1) (by simpa using hi)
      simpa [show p + 1 + i = p + (i + 1) by omega] using this

/-- The bytes in a memory are those it holds. -/
theorem bytes_eq (h : Holds m p l) : m.bytes p l.length = l := by
  induction l generalizing p with
  | nil => rfl
  | cons b l ih => simp [Mem.bytes, h.1, ih h.2]

end Holds

namespace Mem

variable (m : Mem) (p : ℕ)

@[simp] theorem length_bytes (n : ℕ) : (m.bytes p n).length = n := by
  induction n generalizing p with
  | zero => rfl
  | succ n ih => simp [bytes, ih]

theorem holds_bytes (n : ℕ) : Holds m p (m.bytes p n) := by
  induction n generalizing p with
  | zero => trivial
  | succ n ih => exact ⟨rfl, ih (p + 1)⟩

theorem holds_ofBytes (l : List UInt8) (rest : Mem) : Holds (ofBytes l rest) 0 l := by
  apply Holds.of_getElem
  intro i hi
  simp [ofBytes, hi]

variable {m p}

theorem holds_splice {m' : Mem} {base : ℕ} {l : List UInt8} (h : Holds m' 0 l) :
    Holds (m.splice base m') base l := by
  apply Holds.of_getElem
  intro i hi
  simp only [splice, Nat.not_lt.mpr (Nat.le_add_right base i), if_false, Nat.add_sub_cancel_left]
  simpa using h.getElem hi

theorem holds_from {base : ℕ} {l : List UInt8} (h : Holds m base l) : Holds (m.from' base) 0 l := by
  apply Holds.of_getElem
  intro i hi
  rw [Nat.zero_add]
  exact h.getElem hi

/-- The bytes of a list are written. -/
theorem holds_writeBytes (l : List UInt8) : Holds (m.writeBytes p l) p l := by
  apply Holds.of_getElem
  intro i hi
  simp [writeBytes, Patch.write, Patch.covers, hi]

/-- **A write leaves the other addresses alone.** -/
theorem writeBytes_of_not {l : List UInt8} {i : ℕ} (h : i < p ∨ p + l.length ≤ i) :
    m.writeBytes p l i = m i := by
  unfold writeBytes Patch.write
  apply if_neg
  rw [Patch.covers_iff]
  dsimp only
  omega

theorem holds_writeLe (v n : ℕ) : Holds (m.writeLe p v n) p (leBytes v n) := holds_writeBytes _

theorem writeLe_of_not {v n i : ℕ} (h : i < p ∨ p + n ≤ i) : m.writeLe p v n i = m i :=
  writeBytes_of_not (by simpa using h)

/-- The first bytes of a longer write. -/
theorem holds_writeLe_of_le {v n k : ℕ} (h : n ≤ k) : Holds (m.writeLe p v k) p (leBytes v n) := by
  have hpre : ∀ v n, leBytes v (n + (k - n)) = leBytes v n ++ leBytes (v / 256 ^ n) (k - n) := by
    intro v n
    generalize k - n = j
    induction n generalizing v with
    | zero => simp [leBytes]
    | succ n ih =>
        rw [show n + 1 + j = (n + j) + 1 by omega, leBytes, leBytes, ih, Nat.div_div_eq_div_mul,
          pow_succ', List.cons_append]
  have hall := holds_writeLe (m := m) (p := p) v k
  rw [show k = n + (k - n) by omega, hpre, Holds.append_iff] at hall
  rw [show k = n + (k - n) by omega]
  exact hall.1

end Mem

/-- **What was written is read back.** -/
theorem Holds.readLe {m : Mem} {p v n : ℕ} (h : Holds m p (leBytes v n)) :
    m.readLe p n = v % 256 ^ n := by
  induction n generalizing p v with
  | zero => simp [Mem.readLe, Nat.mod_one]
  | succ n ih =>
      simp only [leBytes, Holds.cons_iff] at h
      have hbyte : (UInt8.ofNat v).toNat = v % 256 := UInt8.toNat_ofNat'
      rw [Mem.readLe, h.1, ih h.2, hbyte, pow_succ', Nat.mod_mul]

theorem Mem.readLe_add (m : Mem) (p n k : ℕ) :
    m.readLe p (n + k) = m.readLe p n + 256 ^ n * m.readLe (p + n) k := by
  induction n generalizing p with
  | zero => simp [Mem.readLe]
  | succ n ih =>
      rw [show n + 1 + k = (n + k) + 1 by omega, Mem.readLe, Mem.readLe, ih, pow_succ',
        show p + 1 + n = p + (n + 1) by omega]
      ring

/-- A read of four bytes, of which the first `n` are known. -/
theorem Holds.readLe_four {m : Mem} {p v n : ℕ} (h : Holds m p (leBytes v n)) (hn : n ≤ 4)
    (hv : v < 256 ^ n) : ∃ k, m.readLe p 4 = v + 256 ^ n * k := by
  refine ⟨m.readLe (p + n) (4 - n), ?_⟩
  have hsplit := m.readLe_add p n (4 - n)
  rw [show n + (4 - n) = 4 by omega] at hsplit
  rw [hsplit, h.readLe, Nat.mod_eq_of_lt hv]

/-- Equal numbers have equal bytes. -/
theorem Mem.eq_of_readLe {m m' : Mem} {p p' n : ℕ} (h : m.readLe p n = m'.readLe p' n) {j : ℕ}
    (hj : j < n) : m (p + j) = m' (p' + j) := by
  induction n generalizing p p' j with
  | zero => simp at hj
  | succ n ih =>
      have hbyte := (m p).toNat_lt
      have hbyte' := (m' p').toNat_lt
      rw [Mem.readLe, Mem.readLe] at h
      cases j with
      | zero => exact UInt8.toNat_inj.mp (show (m p).toNat = (m' p').toNat by omega)
      | succ j =>
          have := @ih (p + 1) (p' + 1) (by omega) j (by omega)
          simpa [show ∀ q, q + 1 + j = q + (j + 1) by omega] using this

theorem Mem.readLe_congr {m m' : Mem} {p p' n : ℕ} (h : ∀ j < n, m (p + j) = m' (p' + j)) :
    m.readLe p n = m'.readLe p' n := by
  induction n generalizing p p' with
  | zero => rfl
  | succ n ih =>
      have hhead := h 0 (Nat.zero_lt_succ n)
      simp only [Nat.add_zero] at hhead
      rw [Mem.readLe, Mem.readLe, hhead, ih fun j hj => ?_]
      have := h (j + 1) (by omega)
      simpa [show ∀ q, q + 1 + j = q + (j + 1) by omega] using this

theorem Mem.readLe_lt (m : Mem) (p n : ℕ) : m.readLe p n < 256 ^ n := by
  induction n generalizing p with
  | zero => simp [Mem.readLe]
  | succ n ih =>
      have hbyte := (m p).toNat_lt
      have hrest := ih (p + 1)
      rw [Mem.readLe, pow_succ']
      omega

end Oce.Base
