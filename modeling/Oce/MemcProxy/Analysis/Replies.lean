import Oce.MemcProxy.Model.Upstream
import Oce.MemcProxy.Analysis.Requests

/-!
# What an upstream's parser makes of an answer

An answer to a get is a list of blocks and the line `END`. The parser is given the memory
from some place on and the number of bytes that have arrived there, so its lemmas speak of
any memory whose first bytes are those of the answer. The loop over a buffer finds the
blocks that are whole, and what is left over is less than the next block or line.
-/

set_option autoImplicit false

namespace Oce.MemcProxy

open Oce.Base

variable {buf buf' x part : List Byte} {n k : ℕ}

/-- A `VALUE` block. -/
structure Block where
  key : List Byte
  flags : ℕ
  data : List Byte
  plain : key ≠ [] ∧ space ∉ key ∧ cr ∉ key

namespace Block

def bytes (b : Block) : List Byte :=
  dataRequest (ascii "VALUE") [b.key, natDigits b.flags, natDigits b.data.length] b.data

/-- The length of the block's first line. -/
def lineLength (b : Block) : ℕ :=
  (ascii "VALUE" ++ [b.key, natDigits b.flags, natDigits b.data.length].flatMap (space :: ·)).length

theorem words (b : Block) :
    Words (ascii "VALUE") b.key [natDigits b.flags, natDigits b.data.length] := by
  have hdigits : ∀ n : ℕ, space ∉ natDigits n ∧ cr ∉ natDigits n ∧ natDigits n ≠ [] :=
    fun n => digits_words n
  refine ⟨by decide, b.plain.2, ?_⟩
  intro u hu
  simp only [List.mem_cons, List.not_mem_nil, or_false] at hu
  rcases hu with rfl | rfl
  · exact hdigits _
  · exact hdigits _

theorem length_bytes (b : Block) : b.bytes.length = b.lineLength + 2 + b.data.length + 2 := by
  simp only [bytes, dataRequest, lineLength, crlf, List.length_append, List.length_cons,
    List.length_nil]
  omega

theorem five_le_lineLength (b : Block) : 5 ≤ b.lineLength := by
  have hword : (ascii "VALUE").length = 5 := rfl
  rw [lineLength, List.length_append, hword]
  omega

theorem bytes_ne_nil (b : Block) : b.bytes ≠ [] := by
  apply List.ne_nil_of_length_pos
  rw [length_bytes]
  omega

/-- The length of the block fits the `int` that it is kept in. -/
def Fits (b : Block) : Prop := b.bytes.length < 2 ^ 31

instance (b : Block) : Decidable b.Fits := inferInstanceAs (Decidable (_ < _))

end Block

/-! ## The parser -/

/-- The type of a command is in its first five bytes. -/
theorem getCmdType_congr (h : buf.take 5 = buf'.take 5) : getCmdType buf = getCmdType buf' := by
  have hthree : buf.take 3 = buf'.take 3 := by
    have := congrArg (List.take 3) h
    simpa [List.take_take] using this
  unfold getCmdType
  rw [h, hthree]

theorem memchr_congr (h : buf.take n = buf'.take n) (c : Byte) :
    memchr buf c n = memchr buf' c n := by
  unfold memchr
  rw [h]

theorem take_eq_of_take_eq (h : buf.take n = buf'.take n) (hk : k ≤ n) : buf.take k = buf'.take k := by
  have := congrArg (List.take k) h
  simpa [List.take_take, Nat.min_eq_left hk] using this

theorem castInt_of_lt {n : ℤ} (h0 : 0 ≤ n) (h : n < 2 ^ 31) : castInt n = n :=
  Int.bmod_eq_of_le (by omega) (by omega)

theorem lexicalCast_natDigits (h : n < 2 ^ 64) : lexicalCast (natDigits n) = some (n : ℤ) := by
  unfold lexicalCast
  rw [readInt_natDigits, Option.filter_some, if_pos (by simp only [decide_eq_true_eq]; omega)]

/-- Without the end of the line there is nothing to parse yet. -/
theorem parserHead_more (h : memchr buf cr n = none) : (parserHead buf n).succ = .more := by
  unfold parserHead
  simp only [h]
  split <;> rfl

variable {buf : List Byte} {n : ℕ}

/-- Where the line of a block ends, and its words. -/
theorem block_line (b : Block) (h : buf.take n = (b.bytes ++ x).take n) (hn : b.lineLength < n) :
    memchr buf cr n = some b.lineLength ∧ splitCompress space (buf.take b.lineLength) =
      [ascii "VALUE", b.key, natDigits b.flags, natDigits b.data.length] := by
  have hp : memchr buf cr n = some b.lineLength := by
    rw [memchr_congr h]
    have hsplit : b.bytes ++ x = (ascii "VALUE" ++
        [b.key, natDigits b.flags, natDigits b.data.length].flatMap (space :: ·)) ++
          cr :: (10 :: (b.data ++ crlf) ++ x) := by
      simp [Block.bytes, dataRequest, crlf, cr]
    rw [hsplit]
    exact memchr_append (cr_not_mem_line b.words) hn
  have hle : b.lineLength ≤ b.bytes.length := by
    rw [b.length_bytes]
    omega
  refine ⟨hp, ?_⟩
  rw [take_eq_of_take_eq h (by omega), List.take_append_of_le_length hle]
  have := words_dataRequest b.data b.words (List.cons_ne_nil _ _)
  rw [if_neg b.plain.1] at this
  exact this

/-- Once the line of a block is there, so is its length, if that fits. -/
theorem parserHead_line (b : Block) (hfits : b.Fits) (h : buf.take n = (b.bytes ++ x).take n)
    (hn : b.lineLength < n) :
    (parserHead buf n).succ = (if (b.bytes.length : ℤ) > n then .more else .suc) ∧
      (parserHead buf n).type = .value ∧ (parserHead buf n).dataLen = b.bytes.length := by
  have hfive := b.five_le_lineLength
  have htype : getCmdType buf = .value := by
    rw [getCmdType_congr (take_eq_of_take_eq h (by omega))]
    rfl
  obtain ⟨hp, hwords⟩ := block_line b h hn
  have hlast : ([ascii "VALUE", b.key, natDigits b.flags, natDigits b.data.length]).getLastD [] =
      natDigits b.data.length := rfl
  have hlength := b.length_bytes
  unfold Block.Fits at hfits
  have hlen : (b.lineLength : ℤ) + 2 + b.data.length + 2 = b.bytes.length := by omega
  have hread : lexicalCast (natDigits b.data.length) = some (b.data.length : ℤ) :=
    lexicalCast_natDigits (by omega)
  have hbody : castInt b.data.length = b.data.length := castInt_of_lt (by omega) (by omega)
  have hwhole : castInt b.bytes.length = b.bytes.length := castInt_of_lt (by omega) (by omega)
  unfold parserHead
  simp only [htype, hp, parserData, keyAndWords, hwords, hlast, hread, Option.getD_some, hbody, hlen,
    hwhole]
  rw [if_neg (by decide)]
  simp only [List.length_cons, List.length_nil]
  rw [if_neg (by decide)]
  exact ⟨rfl, rfl, rfl⟩

theorem cr_not_mem_block_line (b : Block) (hk : k ≤ b.lineLength) (x : List Byte) :
    cr ∉ (b.bytes ++ x).take k := by
  have hle : b.lineLength ≤ b.bytes.length := by
    rw [b.length_bytes]
    omega
  rw [List.take_append_of_le_length (by omega)]
  intro hm
  have hline : b.bytes.take b.lineLength = ascii "VALUE" ++
      [b.key, natDigits b.flags, natDigits b.data.length].flatMap (space :: ·) := List.take_left
  have hsub : cr ∈ b.bytes.take b.lineLength := (List.take_sublist_take_left hk).subset hm
  rw [hline] at hsub
  exact cr_not_mem_line b.words hsub

/-- A whole block. -/
theorem parserHead_block (b : Block) (hfits : b.Fits) (h : buf.take n = (b.bytes ++ x).take n)
    (hn : b.bytes.length ≤ n) :
    (parserHead buf n).succ = .suc ∧ (parserHead buf n).type = .value ∧
      (parserHead buf n).dataLen = b.bytes.length := by
  have hline : b.lineLength < n := by
    rw [b.length_bytes] at hn
    omega
  obtain ⟨hsucc, htype, hlen⟩ := parserHead_line b hfits h hline
  rw [if_neg (by omega)] at hsucc
  exact ⟨hsucc, htype, hlen⟩

/-- Less than a block. -/
theorem parserHead_partBlock (b : Block) (hfits : b.Fits) (h : buf.take n = (b.bytes ++ x).take n)
    (hn : n < b.bytes.length) : (parserHead buf n).succ = .more := by
  by_cases hline : b.lineLength < n
  · have hsucc := (parserHead_line b hfits h hline).1
    rw [if_pos (by omega)] at hsucc
    exact hsucc
  · apply parserHead_more
    have hcr := cr_not_mem_block_line b (Nat.le_of_not_lt hline) x
    rw [← h] at hcr
    exact List.idxOf?_eq_none_iff.mpr hcr

theorem parserHead_end (h : buf.take n = endBuf.take n) (hn : n = endBuf.length) :
    (parserHead buf n).succ = .suc ∧ (parserHead buf n).type = .end := by
  have hfive : n = 5 := hn
  subst hfive
  have htype : getCmdType buf = .end := by
    rw [getCmdType_congr h]
    decide
  have hp : memchr buf cr 5 = some 3 := by
    rw [memchr_congr h]
    decide
  unfold parserHead
  simp only [htype, hp]
  exact ⟨rfl, rfl⟩

/-- A part of the `END` line asks for more. -/
theorem parserHead_partEnd (h : buf.take n = endBuf.take n) (hn : n < endBuf.length) :
    (parserHead buf n).succ = .more := by
  have hfive : n < 5 := hn
  by_cases hthree : n ≤ 3
  · apply parserHead_more
    rw [memchr_congr h]
    have hnone : ∀ k ≤ 3, memchr endBuf cr k = none := by decide
    exact hnone n hthree
  · have hfour : n = 4 := by omega
    subst hfour
    have htake : buf.take 3 = ascii "END" := take_eq_of_take_eq h (by omega)
    have hp : memchr buf cr 4 = some 3 := by
      rw [memchr_congr h]
      decide
    have htype : getCmdType buf = .end := by
      have hv : buf.take 5 ≠ ascii "VALUE" := by
        intro hv
        have hfive : buf.take 5 = (ascii "VALUE").take 5 := by
          rw [hv]
          rfl
        have hvend : ascii "VAL" = ascii "END" := by
          rw [← htake, take_eq_of_take_eq hfive (by omega)]
          rfl
        exact absurd hvend (by decide)
      unfold getCmdType
      rw [htake, if_neg hv, if_neg (by decide), if_neg (by decide), if_neg (by decide),
        if_neg (by decide), if_pos rfl]
    unfold parserHead
    simp only [htype, hp]
    rfl

/-! ## Answers -/

def blocksBytes (blocks : List Block) : List Byte := blocks.flatMap Block.bytes

@[simp] theorem blocksBytes_nil : blocksBytes [] = [] := rfl

@[simp] theorem blocksBytes_cons (b : Block) (l : List Block) :
    blocksBytes (b :: l) = b.bytes ++ blocksBytes l := rfl

@[simp] theorem blocksBytes_append (l l' : List Block) :
    blocksBytes (l ++ l') = blocksBytes l ++ blocksBytes l' := List.flatMap_append

/-- The answer to a get that still holds these blocks. -/
def answer (blocks : List Block) : List Byte := blocksBytes blocks ++ endBuf

theorem answer_append (l l' : List Block) : answer (l ++ l') = blocksBytes l ++ answer l' := by
  simp [answer]

/-- What the parser finds next in an answer: its first block, or the last line. -/
def nextItem : List Block → List Byte
  | [] => endBuf
  | b :: _ => b.bytes

theorem nextItem_ne_nil (left : List Block) : nextItem left ≠ [] := by
  cases left with
  | nil => exact List.cons_ne_nil _ _
  | cons b l => exact b.bytes_ne_nil

theorem parserHead_part {left : List Block} (hfits : ∀ b ∈ left, b.Fits)
    (h : buf.take n = (answer left).take n)
    (hn : n < (nextItem left).length) : (parserHead buf n).succ = .more := by
  cases left with
  | nil => exact parserHead_partEnd h hn
  | cons b l =>
      apply parserHead_partBlock b (hfits b List.mem_cons_self) (x := answer l) _ hn
      rw [h]
      simp [answer]

/-! ## The loop over a buffer -/

/-- What is left over when no more can be parsed: less than the next block or line. -/
def Unparsed (rem : List Byte) (left : List Block) : Prop :=
  rem.length < (nextItem left).length ∧ rem <+: answer left

/-- Received bytes of an answer, cut into its whole blocks and what is left over. -/
structure Cut (received : List Byte) (left group left' : List Block) (rem : List Byte)
    (getEnd : Bool) : Prop where
  blocks : left = group ++ left'
  bytes : received = blocksBytes group ++ rem
  rest : if getEnd then left' = [] ∧ rem = endBuf else Unparsed rem left'

theorem Cut.cons {received : List Byte} {b : Block} {left group left' : List Block}
    {rem : List Byte} {getEnd : Bool} (h : Cut received left group left' rem getEnd) :
    Cut (b.bytes ++ received) (b :: left) (b :: group) left' rem getEnd := by
  refine ⟨by rw [h.blocks, List.cons_append], ?_, h.rest⟩
  rw [h.bytes, blocksBytes_cons, List.append_assoc]

open UpstreamClient

section Loop

variable {recvBuf : List Byte} {cur : ℕ}

/-- What the parser sees at a place of the buffer. -/
theorem take_at (total : ℕ) (hcur : cur ≤ recvBuf.length) {left : List Block}
    (h : (recvBuf.take cur).drop total <+: answer left) :
    (recvBuf.drop total).take (cur - total) = (answer left).take (cur - total) := by
  have hlen : ((recvBuf.take cur).drop total).length = cur - total := by
    rw [List.length_drop, List.length_take, Nat.min_eq_left hcur]
  rw [← List.drop_take, ← hlen]
  exact List.prefix_iff_eq_take.mp h

/-- The loop stops where the next block or line is not whole. -/
theorem parseLoop_part (rounds total : ℕ) (hcur : cur ≤ recvBuf.length) {left : List Block}
    (hfits : ∀ b ∈ left, b.Fits) (h : (recvBuf.take cur).drop total <+: answer left)
    (hpart : cur - total < (nextItem left).length) :
    parseLoop recvBuf cur (rounds + 1) total = .upTo total false ∧
      Cut ((recvBuf.take cur).drop total) left [] left ((recvBuf.take cur).drop total) false := by
  have hlen : ((recvBuf.take cur).drop total).length = cur - total := by
    rw [List.length_drop, List.length_take, Nat.min_eq_left hcur]
  refine ⟨?_, rfl, rfl, ?_, h⟩
  · unfold parseLoop
    split
    · rfl
    · simp only [parserHead_part hfits (take_at total hcur h) hpart]
  · rw [hlen]
    exact hpart

/-- **The loop.** It finds the whole blocks, and the end if that has arrived too. -/
theorem parseLoop_eq (hcur : cur ≤ recvBuf.length) {left : List Block}
    (hfits : ∀ b ∈ left, b.Fits) (rounds total : ℕ)
    (hrounds : cur - total < rounds) (h : (recvBuf.take cur).drop total <+: answer left) :
    ∃ group left' rem getEnd, Cut ((recvBuf.take cur).drop total) left group left' rem getEnd ∧
      parseLoop recvBuf cur rounds total = .upTo (total + (blocksBytes group).length) getEnd := by
  induction left generalizing rounds total with
  | nil =>
      obtain ⟨rounds, rfl⟩ : ∃ r, rounds = r + 1 := ⟨rounds - 1, by omega⟩
      by_cases hpart : cur - total < (nextItem []).length
      · obtain ⟨hloop, hcut⟩ := parseLoop_part rounds total hcur hfits h hpart
        exact ⟨_, _, _, _, hcut, hloop⟩
      · have hrec : (recvBuf.take cur).drop total = endBuf := by
          apply h.eq_of_length_le
          rw [List.length_drop, List.length_take, Nat.min_eq_left hcur]
          exact Nat.le_of_not_lt hpart
        have hn : cur - total = endBuf.length := by
          rw [← hrec, List.length_drop, List.length_take, Nat.min_eq_left hcur]
        obtain ⟨hsucc, htype⟩ := parserHead_end (take_at total hcur h) hn
        refine ⟨[], [], endBuf, true, ⟨rfl, hrec, rfl, rfl⟩, ?_⟩
        have hpos : endBuf.length = 5 := rfl
        unfold parseLoop
        rw [if_neg (by omega)]
        simp only [hsucc, htype]
        rfl
  | cons b left ih =>
      obtain ⟨rounds, rfl⟩ : ∃ r, rounds = r + 1 := ⟨rounds - 1, by omega⟩
      by_cases hpart : cur - total < (nextItem (b :: left)).length
      · obtain ⟨hloop, hcut⟩ := parseLoop_part rounds total hcur hfits h hpart
        exact ⟨_, _, _, _, hcut, hloop⟩
      · have hle : b.bytes.length ≤ cur - total := Nat.le_of_not_lt hpart
        have hpos := List.length_pos_iff.mpr b.bytes_ne_nil
        have hanswer : answer (b :: left) = b.bytes ++ answer left := by
          simp [answer]
        have hat := take_at total hcur h
        rw [hanswer] at hat
        obtain ⟨hsucc, htype, hdata⟩ := parserHead_block b (hfits b List.mem_cons_self) hat hle
        have hrec : (recvBuf.take cur).drop total =
            b.bytes ++ (recvBuf.take cur).drop (total + b.bytes.length) := by
          have hpre : b.bytes <+: (recvBuf.take cur).drop total := by
            apply List.prefix_of_prefix_length_le (hanswer ▸ List.prefix_append _ _) h
            rwa [List.length_drop, List.length_take, Nat.min_eq_left hcur]
          obtain ⟨t, ht⟩ := hpre
          rw [← List.drop_drop, ← ht, List.drop_left]
        have hrest : (recvBuf.take cur).drop (total + b.bytes.length) <+: answer left := by
          rw [hrec, hanswer] at h
          exact (List.prefix_append_right_inj _).mp h
        obtain ⟨group, left', rem, getEnd, hcut, hloop⟩ := ih (fun b' hb' => hfits b' (List.mem_cons_of_mem _ hb')) rounds _ (by omega) hrest
        refine ⟨b :: group, left', rem, getEnd, ?_, ?_⟩
        · rw [hrec]
          exact hcut.cons
        · have htotal : ((total : ℤ) + (b.bytes.length : ℤ)).toNat = total + b.bytes.length := by omega
          have hinside : ¬(total : ℤ) + (b.bytes.length : ℤ) < 0 := by omega
          unfold parseLoop
          rw [if_neg (by omega)]
          simp only [hsucc, htype, hdata, htotal, if_true, if_neg (by decide : CmdType.value ≠ .end),
            if_neg hinside]
          rw [hloop, blocksBytes_cons, List.length_append, Nat.add_assoc]

end Loop

/-! ## Where a block ends -/

/-- The line of a block tells where the block ends, so no block begins like another one. -/
theorem Block.bytes_eq_of_append {b b' : Block} {y : List Byte} (h : b.bytes ++ x = b'.bytes ++ y) :
    b.bytes = b'.bytes ∧ x = y := by
  have hlt : ∀ (c : Block) (z : List Byte), c.lineLength < (c.bytes ++ z).length := by
    intro c z
    rw [List.length_append, c.length_bytes]
    omega
  obtain ⟨hcr, hwords⟩ := block_line b (rfl : (b.bytes ++ x).take _ = _) (hlt b x)
  have hlt' : b'.lineLength < (b.bytes ++ x).length := h ▸ hlt b' y
  obtain ⟨hcr', hwords'⟩ := block_line b' (congrArg (List.take (b.bytes ++ x).length) h) hlt'
  have hline : b.lineLength = b'.lineLength := Option.some.inj (hcr.symm.trans hcr')
  rw [← hline, hwords] at hwords'
  have hdata : b.data.length = b'.data.length := by
    simp only [List.cons.injEq, and_true, true_and] at hwords'
    obtain ⟨-, -, hdigits⟩ := hwords'
    have hread := congrArg readInt hdigits
    rw [readInt_natDigits, readInt_natDigits] at hread
    exact_mod_cast Option.some.inj hread
  apply List.append_inj h
  rw [b.length_bytes, b'.length_bytes, hline, hdata]

/-- What is still to come of the last of some blocks. -/
def PartOf (part : List Byte) (blocks : List Block) : Prop :=
  part = [] ∨ ∃ pre b, blocks = pre ++ [b] ∧ part.length < b.bytes.length

/-- Blocks less a part of the last one are whole blocks only if the part is nothing. -/
theorem PartOf.eq_nil {blocks whole : List Block} (h : PartOf part blocks)
    (hwhole : blocksBytes blocks = blocksBytes whole ++ part) : part = [] := by
  rcases h with h | ⟨pre, b, rfl, hlt⟩
  · exact h
  induction whole generalizing pre with
  | nil =>
      have hlen := congrArg List.length hwhole
      simp only [blocksBytes_append, blocksBytes_cons, blocksBytes_nil, List.length_append,
        List.append_nil, List.nil_append] at hlen
      omega
  | cons v whole ih =>
      cases pre with
      | nil =>
          have heq : b.bytes ++ [] = v.bytes ++ (blocksBytes whole ++ part) := by
            simpa using hwhole
          have hnil := (Block.bytes_eq_of_append heq).2
          exact (List.append_eq_nil_iff.mp hnil.symm).2
      | cons a pre =>
          have heq : a.bytes ++ blocksBytes (pre ++ [b]) = v.bytes ++ (blocksBytes whole ++ part) := by
            simpa using hwhole
          exact ih pre (Block.bytes_eq_of_append heq).2

/-- Any number of bytes off the front of some blocks leaves a part of the last block that it has
touched, and the blocks behind. -/
theorem drop_blocksBytes (blocks : List Block) (n : ℕ) :
    ∃ begun todo part, blocks = begun ++ todo ∧ (blocksBytes blocks).drop n = part ++ blocksBytes todo ∧
      (blocksBytes blocks).take n ++ part = blocksBytes begun ∧ PartOf part begun := by
  induction blocks generalizing n with
  | nil => exact ⟨[], [], [], rfl, by simp, by simp, .inl rfl⟩
  | cons b blocks ih =>
      rcases Nat.eq_zero_or_pos n with rfl | hpos
      · exact ⟨[], b :: blocks, [], rfl, by simp, by simp, .inl rfl⟩
      · by_cases hn : n < b.bytes.length
        · refine ⟨[b], blocks, b.bytes.drop n, rfl, ?_, ?_, .inr ⟨[], b, rfl, ?_⟩⟩
          · rw [blocksBytes_cons, List.drop_append_of_le_length (by omega)]
          · rw [blocksBytes_cons, List.take_append_of_le_length (by omega), List.take_append_drop]
            simp
          · rw [List.length_drop]
            omega
        · obtain ⟨begun, todo, part, hblocks, hdrop, htake, hpart⟩ := ih (n - b.bytes.length)
          refine ⟨b :: begun, todo, part, by rw [hblocks]; rfl, ?_, ?_, ?_⟩
          · rw [blocksBytes_cons, List.drop_append, List.drop_eq_nil_of_le (by omega), List.nil_append,
              hdrop]
          · rw [blocksBytes_cons, List.take_append, List.take_of_length_le (by omega),
              List.append_assoc, htake, blocksBytes_cons]
          · rcases hpart with h | ⟨pre, c, rfl, hlt⟩
            · exact .inl h
            · exact .inr ⟨b :: pre, c, rfl, hlt⟩

/-- The same from the middle of a block on. -/
theorem drop_part {sent : List Block} (hpart : PartOf part sent) (todo : List Block) (n : ℕ) :
    ∃ begun todo' part', todo = begun ++ todo' ∧
      (part ++ blocksBytes todo).drop n = part' ++ blocksBytes todo' ∧
      (part ++ blocksBytes todo).take n ++ part' = part ++ blocksBytes begun ∧
      PartOf part' (sent ++ begun) := by
  by_cases hn : n ≤ part.length
  · refine ⟨[], todo, part.drop n, rfl, List.drop_append_of_le_length hn, ?_, ?_⟩
    · rw [List.take_append_of_le_length hn, List.take_append_drop]
      simp
    · rw [List.append_nil]
      rcases hpart with rfl | ⟨pre, b, rfl, hlt⟩
      · exact .inl List.drop_nil
      · refine .inr ⟨pre, b, rfl, ?_⟩
        rw [List.length_drop]
        omega
  · obtain ⟨begun, todo', part', htodo, hdrop, htake, hpart'⟩ :=
      drop_blocksBytes todo (n - part.length)
    refine ⟨begun, todo', part', htodo, ?_, ?_, ?_⟩
    · rw [List.drop_append, List.drop_eq_nil_of_le (by omega), List.nil_append, hdrop]
    · rw [List.take_append, List.take_of_length_le (by omega), List.append_assoc, htake]
    · rcases hpart' with h | ⟨pre, b, rfl, hlt⟩
      · exact .inl h
      · exact .inr ⟨sent ++ pre, b, (List.append_assoc _ _ _).symm, hlt⟩

end Oce.MemcProxy
