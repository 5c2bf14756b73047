import Mathlib.Tactic.NormNum
import Oce.Base.Lz
import Oce.UtilCxx.Model.QuickLz

/-!
# What a compressed text is made of

A compressed text is a list of groups of 31 tokens, and a last one of at most 31. A group is a
control word, whose bits say which of the tokens are copies, and the bytes of the tokens
(`groupBytes`). A copy takes one of five forms, which `readMatch` tells apart by the lowest bits of
the first byte, whatever comes after it (`readMatch_matchWord`).
-/

set_option autoImplicit false

namespace Oce.UtilCxx.QuickLz

open Oce.Base

/-! ## Bits -/

theorem shiftLeft_or {a b i : ℕ} (h : b < 2 ^ i) : a <<< i ||| b = 2 ^ i * a + b := by
  rw [← Nat.shiftLeft_add_eq_or_of_lt h, Nat.shiftLeft_eq, Nat.mul_comm]

theorem and_mask (x i : ℕ) : x &&& (2 ^ i - 1) = x % 2 ^ i := Nat.and_two_pow_sub_one_eq_mod x i

theorem and_one (x : ℕ) : x &&& 1 = x % 2 := Nat.and_one_is_mod x

theorem and_two_eq_zero (x : ℕ) : x &&& 2 = 0 ↔ x / 2 % 2 = 0 := by
  have hbit := Nat.and_two_pow x 1
  rw [Nat.testBit_eq_decide_div_mod_eq, pow_one] at hbit
  rw [hbit]
  obtain h | h := Nat.mod_two_eq_zero_or_one (x / 2) <;> simp [h]

theorem shiftRight (x i : ℕ) : x >>> i = x / 2 ^ i := Nat.shiftRight_eq_div_pow x i

/-- A marker comes in at the top of a word. -/
theorem mark {w : ℕ} (h : w < 2 ^ 32) : w >>> 1 ||| 1 <<< 31 = w / 2 + 2 ^ 31 := by
  have hlt : w / 2 < 2 ^ 31 := by omega
  rw [shiftRight, pow_one, Nat.or_comm, shiftLeft_or hlt, Nat.mul_one, Nat.add_comm]

/-! ## Copies -/

/-- What a copy is sent as: a word and how many of its bytes. -/
def matchWord (offset matchlen : ℕ) : ℕ × ℕ :=
  if matchlen = 3 ∧ offset ≤ 63 then (offset <<< 2, 1)
  else if matchlen = 3 ∧ offset ≤ 16383 then (offset <<< 2 ||| 1, 2)
  else if matchlen ≤ 18 ∧ offset ≤ 1023 then ((matchlen - 3) <<< 2 ||| offset <<< 6 ||| 2, 2)
  else if matchlen ≤ 33 then ((matchlen - 2) <<< 2 ||| offset <<< 7 ||| 3, 3)
  else ((matchlen - 3) <<< 7 ||| offset <<< 15 ||| 3, 4)

theorem putMatch_eq (x86 : Bool) (s : Compressor) (offset matchlen : ℕ) :
    s.putMatch x86 offset matchlen =
      s.put x86 (matchWord offset matchlen).1 (matchWord offset matchlen).2 := by
  unfold Compressor.putMatch matchWord
  repeat' split
  all_goals rfl

/-- A copy that the formats have room for. -/
def Sendable (offset matchlen : ℕ) : Prop :=
  3 ≤ offset ∧ offset < 131071 ∧ 3 ≤ matchlen ∧ matchlen ≤ 255

variable {offset matchlen : ℕ}

/-- Three numbers one above the other in a word. -/
theorem fields {a b c i j : ℕ} (hc : c < 2 ^ i) (hb : 2 ^ i * b + c < 2 ^ j) :
    b <<< i ||| a <<< j ||| c = 2 ^ j * a + (2 ^ i * b + c) := by
  have hlow : b <<< i ||| a <<< j ||| c = a <<< j ||| (b <<< i ||| c) := by
    rw [Nat.or_comm (b <<< i), Nat.or_assoc]
  rw [hlow, shiftLeft_or hc, shiftLeft_or hb]

/-- **The five forms**, as numbers. -/
theorem matchWord_cases (h : Sendable offset matchlen) :
    (matchlen = 3 ∧ offset ≤ 63 ∧ matchWord offset matchlen = (4 * offset, 1)) ∨
    (matchlen = 3 ∧ offset ≤ 16383 ∧ matchWord offset matchlen = (4 * offset + 1, 2)) ∨
    (matchlen ≤ 18 ∧ offset ≤ 1023 ∧
      matchWord offset matchlen = (64 * offset + (4 * (matchlen - 3) + 2), 2)) ∨
    (matchlen ≤ 33 ∧ matchWord offset matchlen = (128 * offset + (4 * (matchlen - 2) + 3), 3)) ∨
    (33 < matchlen ∧ matchWord offset matchlen = (32768 * offset + (128 * (matchlen - 3) + 3), 4)) := by
  obtain ⟨ho, ho', hm, hm'⟩ := h
  unfold matchWord
  split
  · exact .inl ⟨by omega, by omega, by rw [Nat.shiftLeft_eq, Nat.mul_comm]⟩
  split
  · refine .inr (.inl ⟨by omega, by omega, ?_⟩)
    rw [shiftLeft_or (by norm_num)]
    norm_num
  split
  · refine .inr (.inr (.inl ⟨by omega, by omega, ?_⟩))
    rw [fields (by norm_num) (by omega)]
    norm_num
  split
  · refine .inr (.inr (.inr (.inl ⟨by omega, ?_⟩)))
    rw [fields (by norm_num) (by omega)]
    norm_num
  · refine .inr (.inr (.inr (.inr ⟨by omega, ?_⟩)))
    rw [fields (by norm_num) (by omega)]
    norm_num

theorem matchWord_lt (h : Sendable offset matchlen) :
    (matchWord offset matchlen).1 < 256 ^ (matchWord offset matchlen).2 := by
  have hcases := matchWord_cases h
  obtain ⟨ho, ho', hm, hm'⟩ := h
  obtain ⟨_, _, he⟩ | ⟨_, _, he⟩ | ⟨_, _, he⟩ | ⟨_, he⟩ | ⟨_, he⟩ := hcases <;>
    · rw [he]
      norm_num
      omega

/-- A copy takes at most four bytes, and no more than it stands for. -/
theorem matchWord_bytes (h : Sendable offset matchlen) :
    1 ≤ (matchWord offset matchlen).2 ∧ (matchWord offset matchlen).2 ≤ 4 ∧
      (matchWord offset matchlen).2 ≤ matchlen := by
  have hcases := matchWord_cases h
  obtain ⟨ho, ho', hm, hm'⟩ := h
  obtain ⟨_, _, he⟩ | ⟨_, _, he⟩ | ⟨_, _, he⟩ | ⟨_, he⟩ | ⟨_, he⟩ := hcases <;>
    · rw [he]
      dsimp only
      omega

/-- The forms are told apart by the two lowest bits, and the last two by the seven lowest. -/
theorem readMatch_eq (fetch : ℕ) :
    readMatch fetch =
      if fetch % 4 = 0 then (fetch % 256 / 4, 3, 1)
      else if fetch / 2 % 2 = 0 then (fetch % 65536 / 4, 3, 2)
      else if fetch % 2 = 0 then (fetch % 65536 / 64, fetch / 4 % 16 + 3, 2)
      else if fetch % 128 ≠ 3 then (fetch / 128 % 131072, fetch / 4 % 32 + 2, 3)
      else (fetch / 32768, fetch / 128 % 256 + 3, 4) := by
  unfold readMatch
  simp only [and_two_eq_zero, and_one, shiftRight, show (3 : ℕ) = 2 ^ 2 - 1 from rfl,
    show (0xffff : ℕ) = 2 ^ 16 - 1 from rfl,
    show (15 : ℕ) = 2 ^ 4 - 1 from rfl, show (127 : ℕ) = 2 ^ 7 - 1 from rfl,
    show (0x1ffff : ℕ) = 2 ^ 17 - 1 from rfl, show (0x1f : ℕ) = 2 ^ 5 - 1 from rfl,
    show (255 : ℕ) = 2 ^ 8 - 1 from rfl, and_mask]
  norm_num

/-- **A copy is read as it was sent**, whatever the bytes after it are. -/
theorem readMatch_matchWord (h : Sendable offset matchlen) (k : ℕ)
    (hk : (matchWord offset matchlen).1 + 256 ^ (matchWord offset matchlen).2 * k < 256 ^ 4) :
    readMatch ((matchWord offset matchlen).1 + 256 ^ (matchWord offset matchlen).2 * k) =
      (offset, matchlen, (matchWord offset matchlen).2) := by
  have hcases := matchWord_cases h
  obtain ⟨ho, ho', hm, hm'⟩ := h
  rw [readMatch_eq]
  obtain ⟨_, _, he⟩ | ⟨_, _, he⟩ | ⟨_, _, he⟩ | ⟨_, he⟩ | ⟨_, he⟩ := hcases
  · rw [he]
    rw [if_pos (by norm_num; omega)]
    ext <;> norm_num <;> omega
  · rw [he]
    rw [if_neg (by norm_num; omega), if_pos (by norm_num; omega)]
    ext <;> norm_num <;> omega
  · rw [he]
    rw [if_neg (by norm_num; omega), if_neg (by norm_num; omega), if_pos (by norm_num; omega)]
    ext <;> norm_num <;> omega
  · rw [he]
    rw [if_neg (by norm_num; omega), if_neg (by norm_num; omega), if_neg (by norm_num; omega),
      if_pos (by norm_num; omega)]
    ext <;> norm_num <;> omega
  · rw [he] at hk ⊢
    norm_num at hk
    rw [if_neg (by norm_num; omega), if_neg (by norm_num; omega), if_neg (by norm_num; omega),
      if_neg (by norm_num; omega)]
    ext <;> norm_num <;> omega

/-! ## Tokens and groups -/

/-- The bytes a token is sent as. -/
def tokenBytes : Token → List UInt8
  | .lit b => [b]
  | .copy offset matchlen => leBytes (matchWord offset matchlen).1 (matchWord offset matchlen).2

/-- The bytes of some tokens, one after the other. -/
def tokensBytes (ts : List Token) : List UInt8 := ts.flatMap tokenBytes

/-- The flags of a group. -/
def flags (g : List Token) : List Bool := g.map Token.isCopy

/-- A group of tokens, after its control word. -/
def groupBytes (g : List Token) : List UInt8 :=
  leBytes (flagWord (flags g) (31 - g.length)) 4 ++ tokensBytes g

/-- A compressed text without its header. -/
def streamBytes (gs : List (List Token)) : List UInt8 := gs.flatMap groupBytes

/-- Groups of 31, the last of which may be shorter. -/
def Grouped : List (List Token) → Prop
  | [] => True
  | g :: gs => g.length ≤ 31 ∧ (gs ≠ [] → g.length = 31) ∧ Grouped gs

/-- The token may stand at `p` in a text for `size` bytes: a copy begins early enough and ends
before the last four bytes. -/
def Fits (size p : ℕ) : Token → Prop
  | .lit _ => p < size
  | .copy offset matchlen => Sendable offset matchlen ∧ p + 11 ≤ size ∧ p + matchlen + 4 ≤ size

/-- The token is true of the source, and may stand where it does. -/
def Sound (source : Mem) (size p : ℕ) (t : Token) : Prop := t.Tells source p ∧ Fits size p t

@[simp] theorem tokensBytes_nil : tokensBytes [] = [] := rfl

@[simp] theorem tokensBytes_cons (t : Token) (ts : List Token) :
    tokensBytes (t :: ts) = tokenBytes t ++ tokensBytes ts := rfl

@[simp] theorem tokensBytes_append (ts ts' : List Token) :
    tokensBytes (ts ++ ts') = tokensBytes ts ++ tokensBytes ts' := by
  simp [tokensBytes]

@[simp] theorem streamBytes_nil : streamBytes [] = [] := rfl

@[simp] theorem streamBytes_cons (g : List Token) (gs : List (List Token)) :
    streamBytes (g :: gs) = groupBytes g ++ streamBytes gs := rfl

@[simp] theorem streamBytes_append (gs gs' : List (List Token)) :
    streamBytes (gs ++ gs') = streamBytes gs ++ streamBytes gs' := by
  simp [streamBytes]

@[simp] theorem length_flags (g : List Token) : (flags g).length = g.length := by simp [flags]

@[simp] theorem length_groupBytes (g : List Token) :
    (groupBytes g).length = 4 + (tokensBytes g).length := by
  simp [groupBytes]

theorem grouped_concat {gs : List (List Token)} {g : List Token} (h : ∀ g ∈ gs, g.length = 31)
    (hg : g.length ≤ 31) : Grouped (gs ++ [g]) := by
  induction gs with
  | nil => exact ⟨hg, fun h => absurd rfl h, trivial⟩
  | cons g' gs ih =>
      have hlen : g'.length = 31 := h g' (by simp)
      exact ⟨by omega, fun _ => hlen, ih fun g hg => h g (List.mem_cons_of_mem _ hg)⟩

variable {source : Mem} {size p : ℕ} {t : Token} {ts : List Token}

theorem Fits.length_tokenBytes (h : Fits size p t) :
    1 ≤ (tokenBytes t).length ∧ (tokenBytes t).length ≤ 4 ∧ (tokenBytes t).length ≤ t.size := by
  cases t with
  | lit b => simp [tokenBytes]
  | copy offset matchlen =>
      simp only [tokenBytes, length_leBytes, Token.size_copy]
      exact matchWord_bytes h.1

theorem Fits.size_pos (h : Fits size p t) : 0 < t.size := by
  have := h.length_tokenBytes
  omega

/-- Tokens take no more bytes than they stand for. -/
theorem length_tokensBytes_le (h : Along (Sound source size) p ts) :
    (tokensBytes ts).length ≤ span ts := by
  induction ts generalizing p with
  | nil => simp
  | cons t ts ih =>
      have hhead := h.1.2.length_tokenBytes
      have htail := ih h.2
      simp only [tokensBytes_cons, List.length_append, span_cons]
      omega

/-- And each at least one. -/
theorem length_le_tokensBytes (h : Along (Sound source size) p ts) :
    ts.length ≤ (tokensBytes ts).length := by
  induction ts generalizing p with
  | nil => simp
  | cons t ts ih =>
      have hhead := h.1.2.length_tokenBytes
      have htail := ih h.2
      simp only [tokensBytes_cons, List.length_append, List.length_cons]
      omega

/-- And each at most four. -/
theorem length_tokensBytes_le_four (h : Along (Sound source size) p ts) :
    (tokensBytes ts).length ≤ 4 * ts.length := by
  induction ts generalizing p with
  | nil => simp
  | cons t ts ih =>
      have hhead := h.1.2.length_tokenBytes
      have htail := ih h.2
      simp only [tokensBytes_cons, List.length_append, List.length_cons]
      omega

/-- Every token stands for a byte at least. -/
theorem length_le_span (h : Along (Sound source size) p ts) : ts.length ≤ span ts := by
  induction ts generalizing p with
  | nil => simp
  | cons t ts ih =>
      have hhead := h.1.2.size_pos
      have htail := ih h.2
      simp only [List.length_cons, span_cons]
      omega

end Oce.UtilCxx.QuickLz
