import Mathlib.Algebra.Group.Int.Defs
import Mathlib.Algebra.Group.Nat.Defs
import Mathlib.Data.Int.Basic
import Mathlib.Data.List.SplitOn
import Mathlib.Data.List.TakeWhile
import Mathlib.Order.Defs.LinearOrder
import Oce.Base.Int32

/-!
# Strings of bytes

What a C program does with the bytes of a string: printing and reading numbers, cutting at
separators, searching for a byte. `splitCompress` is `boost::split` with
`token_compress_on`: separators that stand together count as one, and a separator at either
end leaves an empty piece there.
-/

set_option autoImplicit false

namespace Oce.Base

abbrev Byte := UInt8

/-- Bytes in the order of `std::string`. -/
abbrev byteOrder : LinearOrder Byte where
  le_refl := UInt8.le_refl
  le_trans _ _ _ := UInt8.le_trans
  le_antisymm _ _ := UInt8.le_antisymm
  le_total := UInt8.le_total
  lt_iff_le_not_ge a b := by
    rw [UInt8.not_le]
    exact ⟨fun h => ⟨UInt8.le_of_lt h, h⟩, fun h => h.2⟩
  toDecidableLE := inferInstance
  toDecidableLT := inferInstance
  toDecidableEq := inferInstance

/-- The bytes of an ASCII text. -/
def ascii (s : String) : List Byte := s.toList.map fun c => UInt8.ofNat c.toNat

/-- A string as far as its first zero byte. -/
def cString (s : List Byte) : List Byte := s.takeWhile (· ≠ 0)

theorem cString_eq_self {s : List Byte} (h : (0 : Byte) ∉ s) : cString s = s := by
  rw [cString, List.takeWhile_eq_self_iff]
  intro b hb
  simpa using fun he : b = 0 => h (he ▸ hb)

theorem cString_sublist (s : List Byte) : (cString s).Sublist s := List.takeWhile_sublist _

/-! ## Numbers -/

/-- A number in decimal. -/
def natDigits (n : ℕ) : List Byte := (Nat.toDigits 10 n).map fun c => UInt8.ofNat c.toNat

/-- `%d`. -/
def intDigits : ℤ → List Byte
  | .ofNat n => natDigits n
  | .negSucc n => 45 :: natDigits (n + 1)

def isDigit (b : Byte) : Bool := 48 ≤ b && b ≤ 57

def digitsValue (l : List Byte) : ℕ := l.foldl (fun acc b => 10 * acc + (b.toNat - 48)) 0

/-- `strtol` in base ten: blanks, a sign and the digits that follow, kept within a `long`. -/
def strtol (longMax : ℕ) (s : List Byte) : ℤ :=
  match s.dropWhile fun b => b = 32 ∨ 9 ≤ b ∧ b ≤ 13 with
  | 45 :: l => max (-(digitsValue (l.takeWhile isDigit) : ℤ)) (-longMax - 1)
  | 43 :: l => min (digitsValue (l.takeWhile isDigit)) longMax
  | l => min (digitsValue (l.takeWhile isDigit)) longMax

/-- The number a text is, if it is one. -/
def readInt : List Byte → Option ℤ
  | 43 :: l => if l ≠ [] ∧ l.all isDigit then some (digitsValue l) else none
  | 45 :: l => if l ≠ [] ∧ l.all isDigit then some (-(digitsValue l : ℤ)) else none
  | l => if l ≠ [] ∧ l.all isDigit then some (digitsValue l) else none

/-- `boost::lexical_cast<int>`, none if it throws. -/
def lexicalCastInt (s : List Byte) : Option ℤ := (readInt s).filter fun n => IsInt n

theorem digit_of_mem {c : Char} (h : c.isDigit = true) : 48 ≤ c.toNat ∧ c.toNat ≤ 57 := by
  simp only [Char.isDigit, Bool.and_eq_true, decide_eq_true_eq] at h
  have h₁ : (48 : ℕ) ≤ c.val.toNat := h.1
  have h₂ : c.val.toNat ≤ (57 : ℕ) := h.2
  exact ⟨h₁, h₂⟩

theorem isDigit_of_mem_natDigits {n : ℕ} {b : Byte} (h : b ∈ natDigits n) : isDigit b = true := by
  obtain ⟨c, hc, rfl⟩ := List.mem_map.mp h
  obtain ⟨h₁, h₂⟩ := digit_of_mem (Nat.isDigit_of_mem_toDigits (by decide) (by decide) hc)
  have hn : (UInt8.ofNat c.toNat).toNat = c.toNat := by
    rw [UInt8.toNat_ofNat']
    omega
  simp only [isDigit, Bool.and_eq_true, decide_eq_true_eq, UInt8.le_iff_toNat_le, hn]
  exact ⟨h₁, h₂⟩

theorem natDigits_ne_nil (n : ℕ) : natDigits n ≠ [] := by
  unfold natDigits
  rw [ne_eq, List.map_eq_nil_iff]
  exact Nat.toDigits_ne_nil

theorem digitsValue_natDigits (n : ℕ) : digitsValue (natDigits n) = n := by
  have hgen : ∀ (l : List Char) (acc : ℕ), (∀ c ∈ l, c.isDigit = true) →
      (l.map fun c => UInt8.ofNat c.toNat).foldl (fun acc b => 10 * acc + (b.toNat - 48)) acc =
        Nat.ofDigitChars 10 l acc := by
    intro l
    induction l with
    | nil => intro acc _; rfl
    | cons c l ih =>
        intro acc hl
        obtain ⟨h₁, h₂⟩ := digit_of_mem (hl c (by simp))
        have hn : (UInt8.ofNat c.toNat).toNat = c.toNat := by
          rw [UInt8.toNat_ofNat']
          omega
        rw [List.map_cons, List.foldl_cons, ih _ (fun d hd => hl d (by simp [hd])), hn]
        simp [Nat.ofDigitChars]
  unfold digitsValue natDigits
  rw [hgen _ _ fun c hc => Nat.isDigit_of_mem_toDigits (by decide) (by decide) hc]
  exact Nat.ofDigitChars_toDigits (by decide) (by decide)

/-- A printed number begins with a digit. -/
theorem natDigits_ne_cons {n : ℕ} {b : Byte} {l : List Byte} (hb : isDigit b = false) :
    natDigits n ≠ b :: l := by
  intro hl
  rw [isDigit_of_mem_natDigits (hl ▸ List.mem_cons_self : b ∈ natDigits n)] at hb
  cases hb

theorem readInt_natDigits (n : ℕ) : readInt (natDigits n) = some (n : ℤ) := by
  have hall : (natDigits n).all isDigit = true :=
    List.all_eq_true.mpr fun b hb => isDigit_of_mem_natDigits hb
  have hne := natDigits_ne_nil n
  have hvalue := digitsValue_natDigits n
  unfold readInt
  split
  · next l hl => exact absurd hl (natDigits_ne_cons rfl)
  · next l hl => exact absurd hl (natDigits_ne_cons rfl)
  · rw [if_pos ⟨hne, hall⟩, hvalue]

/-- The digits of a number are read back, up to the largest one. -/
theorem strtol_natDigits (longMax n : ℕ) : strtol longMax (natDigits n) = min n longMax := by
  have hblank : ((natDigits n).dropWhile fun b => b = 32 ∨ 9 ≤ b ∧ b ≤ 13) = natDigits n := by
    cases hdigits : natDigits n with
    | nil => rfl
    | cons b l =>
        have hdigit : isDigit b = true := isDigit_of_mem_natDigits (hdigits ▸ List.mem_cons_self)
        apply List.dropWhile_cons_of_neg
        unfold isDigit at hdigit
        rw [Bool.and_eq_true, decide_eq_true_eq, decide_eq_true_eq, UInt8.le_iff_toNat_le] at hdigit
        have hlow : (48 : ℕ) ≤ b.toNat := hdigit.1
        rw [decide_eq_true_eq, UInt8.le_iff_toNat_le, UInt8.le_iff_toNat_le]
        rintro (rfl | ⟨-, hhigh⟩)
        · exact absurd hlow (by decide)
        · have hhigh' : b.toNat ≤ 13 := hhigh
          omega
  have hall : (natDigits n).takeWhile isDigit = natDigits n :=
    List.takeWhile_eq_self_iff.mpr fun b hb => isDigit_of_mem_natDigits hb
  unfold strtol
  rw [hblank]
  split
  · next l hl => exact absurd hl (natDigits_ne_cons rfl)
  · next l hl => exact absurd hl (natDigits_ne_cons rfl)
  · rw [hall, digitsValue_natDigits]
    omega

theorem readInt_intDigits (n : ℤ) : readInt (intDigits n) = some n := by
  cases n with
  | ofNat m => exact readInt_natDigits m
  | negSucc m =>
      have hall : (natDigits (m + 1)).all isDigit = true :=
        List.all_eq_true.mpr fun b hb => isDigit_of_mem_natDigits hb
      have hread : readInt (45 :: natDigits (m + 1)) = some (-(digitsValue (natDigits (m + 1)) : ℤ)) :=
        if_pos ⟨natDigits_ne_nil _, hall⟩
      rw [digitsValue_natDigits] at hread
      exact hread

theorem lexicalCastInt_intDigits {n : ℤ} (h : IsInt n) : lexicalCastInt (intDigits n) = some n := by
  unfold lexicalCastInt
  rw [readInt_intDigits, Option.filter_some, if_pos (decide_eq_true h)]

theorem intDigits_injective : Function.Injective intDigits := by
  intro n m h
  have hread := congrArg readInt h
  rw [readInt_intDigits, readInt_intDigits] at hread
  exact Option.some.inj hread

theorem length_intDigits_le {n : ℤ} {k : ℕ} (hk : 0 < k) (h : n.natAbs < 10 ^ k) :
    (intDigits n).length ≤ k + 1 := by
  have hnat : ∀ m < 10 ^ k, (natDigits m).length ≤ k := by
    intro m hm
    unfold natDigits
    rw [List.length_map]
    exact (Nat.length_toDigits_le_iff (by decide) hk).mpr hm
  cases n with
  | ofNat m => exact Nat.le_succ_of_le (hnat m h)
  | negSucc m => exact Nat.succ_le_succ (hnat (m + 1) h)

/-- A byte that is neither a digit nor a minus is not in a printed number. -/
theorem not_mem_intDigits {b : Byte} (h : isDigit b = false) (hb : b ≠ 45) (n : ℤ) :
    b ∉ intDigits n := by
  have hnat : ∀ m, b ∉ natDigits m := by
    intro m hm
    rw [isDigit_of_mem_natDigits hm] at h
    cases h
  cases n with
  | ofNat m => exact hnat m
  | negSucc m =>
      intro hm
      rcases List.mem_cons.mp hm with rfl | hm
      · exact hb rfl
      · exact hnat _ hm

theorem intDigits_ne_nil (n : ℤ) : intDigits n ≠ [] := by
  cases n with
  | ofNat m => exact natDigits_ne_nil m
  | negSucc m => exact List.cons_ne_nil _ _

/-! ## Cutting at a separator -/

section Split

variable {α : Type*} [DecidableEq α]

/-- The pieces after the first, without the empty ones before the last. -/
def compressTail : List (List α) → List (List α)
  | [] => []
  | [t] => [t]
  | t :: u :: ts => if t = [] then compressTail (u :: ts) else t :: compressTail (u :: ts)

/-- `boost::split` at one separator with `token_compress_on`. -/
def splitCompress (sep : α) (l : List α) : List (List α) :=
  match l.splitOn sep with
  | [] => []
  | t :: ts => t :: compressTail ts

omit [DecidableEq α] in
theorem compressTail_nil_cons (u : List α) (ts : List (List α)) :
    compressTail ([] :: u :: ts) = compressTail (u :: ts) := by
  rw [compressTail, if_pos rfl]

theorem splitCompress_of_splitOn {sep : α} {l t : List α} {ts : List (List α)}
    (h : l.splitOn sep = t :: ts) : splitCompress sep l = t :: compressTail ts := by
  unfold splitCompress
  rw [h]

omit [DecidableEq α] in
theorem compressTail_of_ne_nil {ts : List (List α)} (h : ∀ t ∈ ts, t ≠ []) : compressTail ts = ts := by
  induction ts with
  | nil => rfl
  | cons t ts ih =>
      cases ts with
      | nil => rfl
      | cons t' ts =>
          rw [compressTail, if_neg (h t (by simp)), ih fun u hu => h u (by simp [hu])]

omit [DecidableEq α] in
theorem filter_compressTail (ts : List (List α)) :
    (compressTail ts).filter (· ≠ []) = ts.filter (· ≠ []) := by
  induction ts with
  | nil => rfl
  | cons t ts ih =>
      cases ts with
      | nil => rfl
      | cons t' ts =>
          by_cases ht : t = []
          · rw [compressTail, if_pos ht, ih]
            simp [ht]
          · rw [compressTail, if_neg ht, List.filter_cons_of_pos (by simpa using ht),
              List.filter_cons_of_pos (by simpa using ht), ih]

/-- The pieces that are not empty are those of the plain cut. -/
theorem filter_splitCompress (sep : α) (l : List α) :
    (splitCompress sep l).filter (· ≠ []) = (l.splitOn sep).filter (· ≠ []) := by
  unfold splitCompress
  cases l.splitOn sep with
  | nil => rfl
  | cons t ts =>
      by_cases ht : t = []
      · rw [List.filter_cons_of_neg (by simpa using ht), List.filter_cons_of_neg (by simpa using ht),
          filter_compressTail]
      · rw [List.filter_cons_of_pos (by simpa using ht), List.filter_cons_of_pos (by simpa using ht),
          filter_compressTail]

/-- Pieces without the separator, joined by it, are what a cut gives back. -/
theorem splitOn_join (sep : α) {t : List α} (ht : sep ∉ t) {ts : List (List α)}
    (hts : ∀ u ∈ ts, sep ∉ u) : (t ++ ts.flatMap fun u => sep :: u).splitOn sep = t :: ts := by
  have hone : ∀ {t : List α}, sep ∉ t → ∀ x ∈ t, (x == sep) = false := by
    intro t ht x hx
    exact beq_eq_false_iff_ne.mpr fun he => ht (he ▸ hx)
  induction ts generalizing t with
  | nil =>
      rw [List.flatMap_nil, List.append_nil]
      exact List.splitOnP_eq_singleton (hone ht)
  | cons u ts ih =>
      rw [List.flatMap_cons, List.cons_append]
      have hrest := ih (hts u (by simp)) fun v hv => hts v (by simp [hv])
      rw [← hrest]
      exact List.splitOnP_append_cons_of_forall_mem (hone ht) sep (by simp) _

end Split

end Oce.Base
