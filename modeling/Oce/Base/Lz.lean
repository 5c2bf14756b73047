import Mathlib.Algebra.Order.Ring.Nat
import Mathlib.Data.List.Basic
import Mathlib.Data.Nat.Bitwise
import Mathlib.Tactic.Ring
import Oce.Base.Mem

/-!
# Literals and copies

A text as a list of tokens, each of which is the next byte or a copy of bytes that were there
before. `Token.Tells` says that a token is true of the bytes of `m` from `p` on, and `Along` that
something holds of every token at its place; a copy may reach into the bytes it makes itself.
Whoever follows the tokens one after the other gets the bytes back: after each token what is written
so far agrees with `m` (`Agrees.lit`, `Agrees.copy`), which is all a decoder has to keep.
-/

set_option autoImplicit false

namespace Oce.Base

section Tokens

/-- A byte, or `len` bytes from `offset` bytes before. -/
inductive Token
  | lit (b : UInt8)
  | copy (offset len : ℕ)
  deriving DecidableEq

namespace Token

def isCopy : Token → Bool
  | lit _ => false
  | copy _ _ => true

/-- The bytes a token stands for. -/
def size : Token → ℕ
  | lit _ => 1
  | copy _ len => len

@[simp] theorem isCopy_lit (b : UInt8) : (lit b).isCopy = false := rfl
@[simp] theorem isCopy_copy (o n : ℕ) : (copy o n).isCopy = true := rfl
@[simp] theorem size_lit (b : UInt8) : (lit b).size = 1 := rfl
@[simp] theorem size_copy (o n : ℕ) : (copy o n).size = n := rfl

end Token

/-- The bytes a list of tokens stands for. -/
def span (ts : List Token) : ℕ := (ts.map Token.size).sum

@[simp] theorem span_nil : span [] = 0 := rfl

@[simp] theorem span_cons (t : Token) (ts : List Token) : span (t :: ts) = t.size + span ts := by
  simp [span]

@[simp] theorem span_append (ts ts' : List Token) : span (ts ++ ts') = span ts + span ts' := by
  simp [span]

/-- The token is true of the bytes of `m` from `p` on. -/
def Token.Tells (m : Mem) (p : ℕ) : Token → Prop
  | .lit b => m p = b
  | .copy offset len => 0 < offset ∧ offset ≤ p ∧ ∀ j < len, m (p + j) = m (p + j - offset)

/-- `P` holds of each token at its place, the first one being at `p`. -/
def Along (P : ℕ → Token → Prop) (p : ℕ) : List Token → Prop
  | [] => True
  | t :: ts => P p t ∧ Along P (p + t.size) ts

variable {P : ℕ → Token → Prop} {m m' : Mem} {p q : ℕ} {t : Token} {ts ts' : List Token}

@[simp] theorem along_nil : Along P p [] := trivial

@[simp] theorem along_cons : Along P p (t :: ts) ↔ P p t ∧ Along P (p + t.size) ts := Iff.rfl

theorem along_append : Along P p (ts ++ ts') ↔ Along P p ts ∧ Along P (p + span ts) ts' := by
  induction ts generalizing p with
  | nil => simp
  | cons t ts ih => simp [ih, and_assoc, Nat.add_assoc]

theorem span_eq_length (h : ∀ t ∈ ts, t.isCopy = false) : span ts = ts.length := by
  induction ts with
  | nil => rfl
  | cons t ts ih =>
      have ht : t.size = 1 := by
        cases t with
        | lit b => rfl
        | copy o n => simpa using h (.copy o n) (by simp)
      rw [span_cons, ht, ih fun t ht => h t (List.mem_cons_of_mem _ ht), List.length_cons, Nat.add_comm]

/-! ## Following the tokens -/

/-- The memories have the same bytes below `q`. -/
def Agrees (m m' : Mem) (q : ℕ) : Prop := ∀ i < q, m' i = m i

namespace Agrees

theorem mono {q' : ℕ} (h : Agrees m m' q) (hle : q' ≤ q) : Agrees m m' q' :=
  fun i hi => h i (by omega)

/-- A write that starts at `q` or later leaves what is below alone. -/
theorem of_eq {m'' : Mem} (h : Agrees m m' q) (heq : ∀ i < q, m'' i = m' i) : Agrees m m'' q :=
  fun i hi => (heq i hi).trans (h i hi)

/-- **A byte is put down.** -/
theorem lit {b : UInt8} (h : Agrees m m' q) (ht : (Token.lit b).Tells m q) (hb : m' q = b) :
    Agrees m m' (q + 1) := by
  intro i hi
  obtain hlt | rfl := Nat.lt_succ_iff_lt_or_eq.mp hi
  · exact h i hlt
  · exact hb.trans ht.symm

/-- **Bytes are copied** one by one, so that a copy may read what it has written. -/
theorem copy {o n : ℕ} (h : Agrees m m' q) (ht : (Token.copy o n).Tells m q)
    (hcopy : ∀ j < n, m' (q + j) = m' (q + j - o)) : Agrees m m' (q + n) := by
  obtain ⟨hpos, hle, htells⟩ := ht
  have hall : ∀ j ≤ n, Agrees m m' (q + j) := by
    intro j
    induction j with
    | zero => exact fun _ => h
    | succ j ih =>
        intro hj i hi
        have hbefore := ih (by omega)
        obtain hlt | rfl := Nat.lt_succ_iff_lt_or_eq.mp (show i < q + j + 1 by omega)
        · exact hbefore i hlt
        · rw [hcopy j (by omega), htells j (by omega)]
          exact hbefore _ (by omega)
  exact hall n (le_refl n)

end Agrees

end Tokens

/-!
## Flags in a word with a marker

A stream of items carries one flag an item, 31 flags and a marker to a word of 32 bits. The writer
begins with the marker at the top and moves it down by one with each flag that comes in above it
(`openWord`); when the marker is at the bottom the word is full. What it writes has the flags at
the bottom, the first one lowest, and the marker at the top again (`flagWord`). The reader takes
flags from the bottom and is through with the word when only the marker is left, which comes
sooner by as many places as the word has flags, and later by the places that were left empty.
-/

/-- The number the flags are, the first one being the lowest bit. -/
def flagBits : List Bool → ℕ
  | [] => 0
  | f :: fs => f.toNat + 2 * flagBits fs

/-- The flags that are left in a word that is read, `k` empty places and the marker. -/
def flagWord : List Bool → ℕ → ℕ
  | [], k => 2 ^ k
  | f :: fs, k => f.toNat + 2 * flagWord fs k

/-- A word of `n + 1` bits while its flags come in. -/
def openWord (n : ℕ) (fs : List Bool) : ℕ := 2 ^ (n - fs.length) * (1 + 2 * flagBits fs)

variable {fs : List Bool} {f : Bool} {k n : ℕ}

theorem flagBits_lt (fs : List Bool) : flagBits fs < 2 ^ fs.length := by
  induction fs with
  | nil => simp [flagBits]
  | cons f fs ih =>
      have hf : f.toNat ≤ 1 := Bool.toNat_le f
      simp only [flagBits, List.length_cons, pow_succ']
      omega

theorem flagBits_concat (fs : List Bool) (f : Bool) :
    flagBits (fs ++ [f]) = flagBits fs + 2 ^ fs.length * f.toNat := by
  induction fs with
  | nil => simp [flagBits]
  | cons g fs ih =>
      simp only [List.cons_append, flagBits, ih, List.length_cons, pow_succ']
      ring

theorem flagWord_eq (fs : List Bool) (k : ℕ) : flagWord fs k = flagBits fs + 2 ^ (fs.length + k) := by
  induction fs with
  | nil => simp [flagWord, flagBits]
  | cons f fs ih =>
      rw [flagWord, ih, flagBits, List.length_cons, show fs.length + 1 + k = fs.length + k + 1 by omega,
        pow_succ']
      ring

theorem flagWord_pos (fs : List Bool) (k : ℕ) : 0 < flagWord fs k := by
  rw [flagWord_eq]
  have := Nat.two_pow_pos (fs.length + k)
  omega

/-! ## The reader -/

@[simp] theorem flagWord_cons_mod : flagWord (f :: fs) k % 2 = f.toNat := by
  have hf : f.toNat ≤ 1 := Bool.toNat_le f
  rw [flagWord]
  omega

@[simp] theorem flagWord_cons_div : flagWord (f :: fs) k / 2 = flagWord fs k := by
  have hf : f.toNat ≤ 1 := Bool.toNat_le f
  rw [flagWord]
  omega

/-- **A word is used up when its flags and its empty places are.** -/
theorem flagWord_eq_one_iff : flagWord fs k = 1 ↔ fs = [] ∧ k = 0 := by
  cases fs with
  | nil => simp [flagWord]
  | cons f fs =>
      have := flagWord_pos fs k
      simp only [flagWord, reduceCtorEq, false_and, iff_false]
      omega

/-- Flags that are not set are passed over. -/
theorem flagWord_replicate (j : ℕ) :
    flagWord (List.replicate j false ++ fs) k = 2 ^ j * flagWord fs k := by
  induction j with
  | zero => simp
  | succ j ih =>
      rw [List.replicate_succ, List.cons_append, flagWord, ih, pow_succ', Bool.toNat_false]
      ring

theorem flagWord_drop (j : ℕ) (h : fs.take j = List.replicate j false) :
    flagWord fs k / 2 ^ j = flagWord (fs.drop j) k := by
  have hsplit := @flagWord_replicate (fs.drop j) k j
  rw [← h, List.take_append_drop] at hsplit
  rw [hsplit, Nat.mul_div_cancel_left _ (Nat.two_pow_pos j)]

/-- Zeros at the bottom are flags that are not set, or empty places after all the flags. -/
theorem take_of_flagWord_mod {j : ℕ} (h : flagWord fs k % 2 ^ j = 0) :
    j ≤ fs.length + k ∧ fs.take j = List.replicate (min j fs.length) false := by
  induction j generalizing fs with
  | zero => simp
  | succ j ih =>
      cases fs with
      | nil =>
          have hdvd : 2 ^ (j + 1) ∣ 2 ^ k := Nat.dvd_of_mod_eq_zero h
          rw [Nat.pow_dvd_pow_iff_le_right (by omega)] at hdvd
          simpa using hdvd
      | cons f fs =>
          rw [flagWord, pow_succ', Nat.mod_mul] at h
          cases f with
          | true =>
              simp only [Bool.toNat_true] at h
              omega
          | false =>
              simp only [Bool.toNat_false, Nat.zero_add, Nat.mul_mod_right, Nat.mul_div_cancel_left,
                Nat.zero_lt_succ] at h
              obtain ⟨hle, htake⟩ := @ih fs (by omega)
              refine ⟨by simp only [List.length_cons]; omega, ?_⟩
              rw [List.take_succ_cons, htake, List.length_cons, Nat.succ_min_succ, List.replicate_succ]

/-! ## The writer -/

@[simp] theorem openWord_nil (n : ℕ) : openWord n [] = 2 ^ n := by simp [openWord, flagBits]

theorem openWord_lt (h : fs.length ≤ n) : openWord n fs < 2 ^ (n + 1) := by
  have hbits := flagBits_lt fs
  have hpow : 2 ^ (n + 1) = 2 ^ (n - fs.length) * (2 * 2 ^ fs.length) := by
    rw [← pow_succ', ← pow_add]
    congr 1
    omega
  rw [openWord, hpow]
  exact Nat.mul_lt_mul_of_pos_left (by omega) (Nat.two_pow_pos _)

/-- **The marker is at the bottom when the word is full.** -/
theorem openWord_mod (h : fs.length ≤ n) : openWord n fs % 2 = 1 ↔ fs.length = n := by
  rw [openWord]
  constructor
  · intro hodd
    by_contra hne
    obtain ⟨j, hj⟩ : ∃ j, n - fs.length = j + 1 := ⟨n - fs.length - 1, by omega⟩
    rw [hj, pow_succ', mul_assoc] at hodd
    omega
  · intro heq
    rw [heq, Nat.sub_self]
    omega

/-- A flag comes in at the top. -/
theorem openWord_concat (h : fs.length < n) :
    openWord n fs / 2 + 2 ^ n * f.toNat = openWord n (fs ++ [f]) := by
  obtain ⟨j, rfl⟩ : ∃ j, n = fs.length + (j + 1) := ⟨n - fs.length - 1, by omega⟩
  have hdiv : openWord (fs.length + (j + 1)) fs / 2 = 2 ^ j * (1 + 2 * flagBits fs) := by
    rw [openWord, Nat.add_sub_cancel_left, pow_succ', mul_assoc, Nat.mul_div_cancel_left _ two_pos]
  rw [hdiv, openWord, flagBits_concat, List.length_append, List.length_singleton,
    show fs.length + (j + 1) - (fs.length + 1) = j by omega, pow_add, pow_succ']
  ring

/-- The word is moved down until the marker is at the bottom. -/
theorem openWord_shift {i : ℕ} (h : i + fs.length ≤ n) :
    openWord n fs / 2 ^ i = openWord (n - i) fs := by
  have hpow : 2 ^ (n - fs.length) = 2 ^ i * 2 ^ (n - i - fs.length) := by
    rw [← pow_add]
    congr 1
    omega
  rw [openWord, openWord, hpow, mul_assoc, Nat.mul_div_cancel_left _ (Nat.two_pow_pos i)]

/-- What is written of a word whose marker is at the bottom. -/
theorem flagWord_of_full (h : fs.length ≤ n) :
    openWord fs.length fs / 2 + 2 ^ n = flagWord fs (n - fs.length) := by
  have hbits : openWord fs.length fs / 2 = flagBits fs := by
    rw [openWord, Nat.sub_self, pow_zero, one_mul]
    omega
  rw [hbits, flagWord_eq, Nat.add_sub_cancel' h]

end Oce.Base
