import Oce.FeedDispatcher.Model.ExpressionParser

/-!
# What the parser takes

`Tokenize` takes the texts that are made of operators and of factors, in any order; between the letter
of a factor and its parenthesis there may be anything but a parenthesis (`Scans`). Where the last factor
is not closed the position after its end is the beginning of the text, and the parser never comes to an
end (`RunsOn`). Everything else throws.
-/

set_option autoImplicit false

namespace Oce.FeedDispatcher

open Oce.Base

variable {c : Byte} {op : Op} {text : List Byte}

/-- What is written in a factor. -/
structure Written (junk text : List Byte) (n : ℤ) : Prop where
  noOpen : 40 ∉ junk
  noClose : 41 ∉ junk
  closed : 41 ∉ text
  number : lexicalCastInt text = some n

/-- The texts that are taken, with their factors and their operators. -/
inductive Scans : List Byte → List Factor → List Op → Prop
  | nil : Scans [] [] []
  | op (op : Op) {s : List Byte} {factors : List Factor} {ops : List Op} (h : Scans s factors ops) :
    Scans (op.char :: s) factors (op :: ops)
  | factor (type : FactorType) {junk text s : List Byte} {n : ℤ} {factors : List Factor} {ops : List Op}
    (hw : Written junk text n) (h : Scans s factors ops) :
    Scans (type.char :: (junk ++ 40 :: (text ++ 41 :: s))) (⟨type, n⟩ :: factors) ops

/-- The texts that the parser does not get through. -/
inductive RunsOn : List Byte → Prop
  | op (op : Op) {s : List Byte} (h : RunsOn s) : RunsOn (op.char :: s)
  | factor (type : FactorType) {junk text s : List Byte} {n : ℤ} (hw : Written junk text n) (h : RunsOn s) :
    RunsOn (type.char :: (junk ++ 40 :: (text ++ 41 :: s)))
  | unclosed (type : FactorType) {junk text : List Byte} {n : ℤ} (hw : Written junk text n) :
    RunsOn (type.char :: (junk ++ 40 :: text))

/-! ## Letters -/

@[simp] theorem Op.ofChar_char (op : Op) : Op.ofChar op.char = some op := by
  cases op <;> decide

@[simp] theorem FactorType.ofChar_char (type : FactorType) : FactorType.ofChar type.char = some type := by
  cases type <;> decide

@[simp] theorem Op.ofChar_factor (type : FactorType) : Op.ofChar type.char = none := by
  cases type <;> decide

theorem Op.char_of_ofChar (h : Op.ofChar c = some op) : c = op.char := by
  have := List.find?_some h
  exact (of_decide_eq_true this).symm

theorem FactorType.char_of_ofChar {type : FactorType} (h : FactorType.ofChar c = some type) :
    c = type.char := by
  have := List.find?_some h
  exact (of_decide_eq_true this).symm

theorem FactorType.char_ne_paren (type : FactorType) : 40 ≠ type.char ∧ 41 ≠ type.char := by
  cases type <;> decide

/-- A number is made of digits and signs. -/
theorem readInt_chars {n : ℤ} (h : readInt text = some n) (hc : c ∈ text) :
    isDigit c = true ∨ c = 43 ∨ c = 45 := by
  unfold readInt at h
  split at h
  case h_1 l =>
    simp only [Option.ite_none_right_eq_some] at h
    rcases List.mem_cons.mp hc with rfl | hc
    · exact .inr (.inl rfl)
    · exact .inl (List.all_eq_true.mp h.1.2 c hc)
  case h_2 l =>
    simp only [Option.ite_none_right_eq_some] at h
    rcases List.mem_cons.mp hc with rfl | hc
    · exact .inr (.inr rfl)
    · exact .inl (List.all_eq_true.mp h.1.2 c hc)
  case h_3 =>
    simp only [Option.ite_none_right_eq_some] at h
    exact .inl (List.all_eq_true.mp h.1.2 c hc)

/-- A text with the letter of a factor in it is no number. -/
theorem lexicalCastInt_factor {type : FactorType} (h : type.char ∈ text) :
    lexicalCastInt text = none := by
  cases hn : readInt text with
  | none => simp [lexicalCastInt, hn]
  | some n =>
      have hchars := readInt_chars hn h
      have hnot : ¬(isDigit type.char = true ∨ type.char = 43 ∨ type.char = 45) := by cases type <;> decide
      exact absurd hchars hnot

/-! ## One round -/

section Round

variable {s rest as bs junk text : List Byte} {pos : ℕ} {t : Tokens} {type : FactorType} {n : ℤ} {c : Byte}

theorem findFrom_eq_some (hs : s.drop pos = as ++ c :: bs) (hc : c ∉ as) :
    findFrom s c pos = some (pos + as.length) := by
  have hidx : (as ++ c :: bs).idxOf? c = some as.length := by
    rw [List.idxOf?_eq_some_iff]
    refine ⟨by simp, by simp, fun j hj heq => hc ?_⟩
    rw [List.getElem_append_left hj] at heq
    exact heq ▸ List.getElem_mem hj
  rw [findFrom, hs, hidx]
  rfl

theorem findFrom_eq_none (hc : c ∉ s.drop pos) : findFrom s c pos = none := by
  rw [findFrom, List.idxOf?_eq_none_iff.mpr hc]
  rfl

/-- What is behind what has been found. -/
theorem drop_behind (hs : s.drop pos = as ++ c :: bs) : s.drop (pos + as.length + 1) = bs := by
  rw [Nat.add_assoc, ← List.drop_drop, hs, ← List.drop_drop, List.drop_left]
  rfl

theorem lt_of_drop (hs : s.drop pos = c :: rest) : pos < s.length := by
  have hlen := congrArg List.length hs
  rw [List.length_drop, List.length_cons] at hlen
  omega

theorem getElem?_of_drop (hs : s.drop pos = c :: rest) : s[pos]? = some c := by
  rw [← List.head?_drop, hs]
  rfl

theorem drop_succ (hs : s.drop pos = c :: rest) : s.drop (pos + 1) = rest := by
  rw [← List.drop_drop, hs]
  rfl

theorem scan_op (hs : s.drop t.pos = op.char :: rest) :
    t.scan s = .ok { t with pos := t.pos + 1, ops := t.ops ++ [op] } := by
  simp [Tokens.scan, getElem?_of_drop hs]

theorem scan_type (hs : s.drop t.pos = type.char :: rest) :
    t.scan s = (scanInteger s t.pos).map fun r => ⟨r.2, t.factors ++ [⟨type, r.1⟩], t.ops⟩ := by
  simp [Tokens.scan, getElem?_of_drop hs]

/-- The number between the parentheses. -/
theorem scanInteger_closed (hs : s.drop pos = type.char :: (junk ++ 40 :: (text ++ 41 :: rest)))
    (hopen : 40 ∉ junk) (hclose : 41 ∉ junk) (htext : 41 ∉ text) :
    scanInteger s pos = value text (pos + (junk.length + text.length + 3)) := by
  obtain ⟨hne, hne'⟩ := type.char_ne_paren
  have hi : findFrom s 40 pos = some (pos + (type.char :: junk).length) := by
    apply findFrom_eq_some (by simpa using hs)
    simp [hne, hopen]
  have hj : findFrom s 41 pos = some (pos + (type.char :: (junk ++ 40 :: text)).length) := by
    apply findFrom_eq_some (by simpa using hs)
    simp [hne', hclose, htext]
  have hbehind : s.drop (pos + (type.char :: junk).length + 1) = text ++ 41 :: rest :=
    drop_behind (by simpa using hs)
  have hnot : ¬pos + (type.char :: (junk ++ 40 :: text)).length < pos + (type.char :: junk).length := by
    simp only [List.length_cons, List.length_append]
    omega
  have hlen : pos + (type.char :: (junk ++ 40 :: text)).length - (pos + (type.char :: junk).length) - 1 =
      text.length := by
    simp only [List.length_cons, List.length_append]
    omega
  have hend : pos + (type.char :: (junk ++ 40 :: text)).length + 1 = pos + (junk.length + text.length + 3) := by
    simp only [List.length_cons, List.length_append]
    omega
  unfold scanInteger
  rw [hi, hj]
  dsimp only
  rw [if_neg hnot, hbehind, hlen, hend, List.take_left]

/-- Without a closing parenthesis the scan wraps around. -/
theorem scanInteger_unclosed (hs : s.drop pos = type.char :: (junk ++ 40 :: text)) (hopen : 40 ∉ junk)
    (hclose : 41 ∉ junk) (htext : 41 ∉ text) :
    scanInteger s pos = value text 0 := by
  obtain ⟨hne, hne'⟩ := type.char_ne_paren
  have hi : findFrom s 40 pos = some (pos + (type.char :: junk).length) := by
    apply findFrom_eq_some (by simpa using hs)
    simp [hne, hopen]
  have hj : findFrom s 41 pos = none := by
    apply findFrom_eq_none
    rw [hs]
    simp [hne', hclose, htext]
  have hbehind : s.drop (pos + (type.char :: junk).length + 1) = text := drop_behind (by simpa using hs)
  unfold scanInteger
  rw [hi, hj]
  dsimp only
  rw [hbehind]

theorem scan_factor (hs : s.drop t.pos = type.char :: (junk ++ 40 :: (text ++ 41 :: rest)))
    (hw : Written junk text n) :
    t.scan s = .ok ⟨t.pos + (junk.length + text.length + 3), t.factors ++ [⟨type, n⟩], t.ops⟩ := by
  rw [scan_type hs, scanInteger_closed hs hw.noOpen hw.noClose hw.closed, value, hw.number]
  rfl

/-- Behind a factor that is not closed the text begins again. -/
theorem scan_unclosed (hs : s.drop t.pos = type.char :: (junk ++ 40 :: text)) (hw : Written junk text n) :
    t.scan s = .ok ⟨0, t.factors ++ [⟨type, n⟩], t.ops⟩ := by
  rw [scan_type hs, scanInteger_unclosed hs hw.noOpen hw.noClose hw.closed, value, hw.number]
  rfl

theorem drop_factor (hs : s.drop pos = type.char :: (junk ++ 40 :: (text ++ 41 :: rest))) :
    s.drop (pos + (junk.length + text.length + 3)) = rest := by
  have hbehind : s.drop (pos + (type.char :: (junk ++ 40 :: text)).length + 1) = rest :=
    drop_behind (by simpa using hs)
  rw [← hbehind]
  congr 1
  simp only [List.length_cons, List.length_append]
  omega

/-- What can stand where the parser is. -/
inductive Ahead (s : List Byte) (t : Tokens) : List Byte → Prop
  | op (op : Op) {rest : List Byte} : Ahead s t (op.char :: rest)
  | factor (type : FactorType) {junk text rest : List Byte} {n : ℤ} (hw : Written junk text n) :
    Ahead s t (type.char :: (junk ++ 40 :: (text ++ 41 :: rest)))
  | unclosed (type : FactorType) {junk text : List Byte} {n : ℤ} (hw : Written junk text n) :
    Ahead s t (type.char :: (junk ++ 40 :: text))
  | error {rest : List Byte} (e : ParseError) (h : t.scan s = .error e) : Ahead s t rest

/-- One round of the tokenizer, by the next character. -/
theorem ahead (hs : s.drop t.pos = c :: rest) : Ahead s t (c :: rest) := by
  cases hop : Op.ofChar c with
  | some op =>
      obtain rfl := Op.char_of_ofChar hop
      exact .op op
  | none =>
  cases htype : FactorType.ofChar c with
  | none =>
      apply Ahead.error (.wrongCharactor c t.pos)
      simp [Tokens.scan, getElem?_of_drop hs, hop, htype]
  | some type =>
  obtain rfl := FactorType.char_of_ofChar htype
  obtain ⟨hne, hne'⟩ := type.char_ne_paren
  have hbad : ∀ {e}, scanInteger s t.pos = .error e → Ahead s t (type.char :: rest) := by
    intro e he
    apply Ahead.error e
    rw [scan_type hs, he]
    rfl
  by_cases hopen : 40 ∈ rest
  · obtain ⟨junk, rest₁, rfl, hjunk⟩ := List.eq_append_cons_of_mem hopen
    by_cases hclose : 41 ∈ junk
    · -- the end is found before the start
      obtain ⟨as, bs, rfl, has⟩ := List.eq_append_cons_of_mem hclose
      have hi : findFrom s 40 t.pos = some (t.pos + (type.char :: (as ++ 41 :: bs)).length) := by
        apply findFrom_eq_some (by simpa using hs)
        simpa [hne] using hjunk
      have hj : findFrom s 41 t.pos = some (t.pos + (type.char :: as).length) := by
        apply findFrom_eq_some (by simpa using hs)
        simp [hne', has]
      apply @hbad .startLargerThanEnd
      unfold scanInteger
      rw [hi, hj]
      dsimp only
      rw [if_pos]
      simp only [List.length_cons, List.length_append]
      omega
    · by_cases hend : 41 ∈ rest₁
      · obtain ⟨text, rest₂, rfl, htext⟩ := List.eq_append_cons_of_mem hend
        have hscan := scanInteger_closed hs hjunk hclose htext
        cases hn : lexicalCastInt text with
        | some n => exact .factor type ⟨hjunk, hclose, htext, hn⟩
        | none =>
            rw [value, hn] at hscan
            exact hbad hscan
      · have hscan := scanInteger_unclosed hs hjunk hclose hend
        cases hn : lexicalCastInt rest₁ with
        | some n => exact .unclosed type ⟨hjunk, hclose, hend, hn⟩
        | none =>
            rw [value, hn] at hscan
            exact hbad hscan
  · have hi : findFrom s 40 t.pos = none := by
      apply findFrom_eq_none
      rw [hs]
      simp [hne, hopen]
    cases hj : findFrom s 41 t.pos with
    | some j =>
        apply @hbad .startLargerThanEnd
        unfold scanInteger
        rw [hi, hj]
    | none =>
        have hmem : type.char ∈ s := List.mem_of_mem_drop (i := t.pos) (hs ▸ List.mem_cons_self)
        apply @hbad .badLexicalCast
        unfold scanInteger
        rw [hi, hj]
        dsimp only
        rw [value, lexicalCastInt_factor hmem]

end Round

/-! ## The loop -/

section Loop

variable {s rest : List Byte} {t : Tokens} {factors : List Factor} {ops : List Op}

/-- The loop, from where the parser is. -/
abbrev scanFrom (s : List Byte) (r : Except ParseError Tokens) (fuel : ℕ) : Option (Except ParseError Tokens) :=
  whileLoop (scanning s) (fun r => r.bind (Tokens.scan s)) fuel r

theorem scanning_of_drop (hs : s.drop t.pos = c :: rest) : scanning s (.ok t) = true :=
  decide_eq_true (lt_of_drop hs)

theorem returns_round (hs : s.drop t.pos = c :: rest) {r : Except ParseError Tokens}
    (h : Returns (scanFrom s (t.scan s)) r) : Returns (scanFrom s (.ok t)) r :=
  Returns.round (scanning_of_drop hs) h

theorem returns_error (e : ParseError) : Returns (scanFrom s (.error e)) (.error e) :=
  ⟨0, fun fuel _ => whileLoop_of_not rfl fuel⟩

/-- A text that is taken is gone through. -/
theorem Scans.returns (h : Scans rest factors ops) (hs : s.drop t.pos = rest) (ht : t.pos ≤ s.length) :
    Returns (scanFrom s (.ok t)) (.ok ⟨s.length, t.factors ++ factors, t.ops ++ ops⟩) := by
  induction h generalizing t with
  | nil =>
      have hend : t.pos = s.length := by
        have := List.drop_eq_nil_iff.mp hs
        omega
      refine ⟨0, fun fuel _ => ?_⟩
      rw [List.append_nil, List.append_nil, ← hend]
      apply whileLoop_of_not
      simp [scanning, hend]
  | op op h ih =>
      apply returns_round hs
      rw [scan_op hs]
      have hrest := @ih { t with pos := t.pos + 1, ops := t.ops ++ [op] } (drop_succ hs) (lt_of_drop hs)
      simpa using hrest
  | @factor type junk text rest n factors ops hw h ih =>
      apply returns_round hs
      rw [scan_factor hs hw]
      have hlen := congrArg List.length hs
      simp only [List.length_drop, List.length_cons, List.length_append] at hlen
      have hrest := @ih ⟨t.pos + (junk.length + text.length + 3), t.factors ++ [⟨type, n⟩], t.ops⟩
        (drop_factor hs) (by dsimp only; omega)
      simpa using hrest

/-- A text that the parser does not get through is begun again and again. -/
theorem RunsOn.none (h : RunsOn s) (fuel : ℕ) : tokenize s fuel = none := by
  apply whileLoop_none (P := fun r => ∃ t : Tokens, r = .ok t ∧ RunsOn (s.drop t.pos)) _ ⟨⟨0, [], []⟩, rfl, h⟩
  rintro r ⟨t, rfl, ht⟩
  generalize hs : s.drop t.pos = rest at ht
  cases ht with
  | op op h =>
      refine ⟨scanning_of_drop hs, _, scan_op hs, ?_⟩
      rwa [drop_succ hs]
  | factor type hw h =>
      refine ⟨scanning_of_drop hs, _, scan_factor hs hw, ?_⟩
      rwa [drop_factor hs]
  | unclosed type hw => exact ⟨scanning_of_drop hs, _, scan_unclosed hs hw, h⟩

/-- There is nothing else but to throw. -/
theorem scan_total (hs : s.drop t.pos = rest) :
    (∃ factors ops, Scans rest factors ops) ∨ RunsOn rest ∨ ∃ e, Returns (scanFrom s (.ok t)) (.error e) := by
  induction hlen : rest.length using Nat.strongRecOn generalizing rest t with
  | _ size ih =>
      cases rest with
      | nil => exact .inl ⟨[], [], .nil⟩
      | cons c rest =>
          cases ahead hs with
          | op op =>
              obtain ⟨t', hscan, hdrop⟩ : ∃ t', t.scan s = .ok t' ∧ s.drop t'.pos = rest :=
                ⟨_, scan_op hs, drop_succ hs⟩
              rcases ih rest.length (by simp [← hlen]) hdrop rfl with ⟨factors, ops, h⟩ | h | ⟨e, he⟩
              · exact .inl ⟨factors, op :: ops, .op op h⟩
              · exact .inr (.inl (.op op h))
              · exact .inr (.inr ⟨e, returns_round hs (hscan ▸ he)⟩)
          | @factor type junk text rest n hw =>
              obtain ⟨t', hscan, hdrop⟩ : ∃ t', t.scan s = .ok t' ∧ s.drop t'.pos = rest :=
                ⟨_, scan_factor hs hw, drop_factor hs⟩
              have hless : rest.length < size := by
                rw [← hlen]
                simp only [List.length_cons, List.length_append]
                omega
              rcases ih rest.length hless hdrop rfl with ⟨factors, ops, h⟩ | h | ⟨e, he⟩
              · exact .inl ⟨_, ops, .factor type hw h⟩
              · exact .inr (.inl (.factor type hw h))
              · exact .inr (.inr ⟨e, returns_round hs (hscan ▸ he)⟩)
          | unclosed type hw => exact .inr (.inl (.unclosed type hw))
          | error e he =>
              refine .inr (.inr ⟨e, returns_round hs ?_⟩)
              rw [he]
              exact returns_error e

/-- **What the parser takes.** It gives factors and operators for the texts that are made of them, these
factors and these operators; there are texts that it does not get through, and it throws for all others. -/
theorem tokenize_spec (s : List Byte) :
    (∀ t, Returns (tokenize s) (.ok t) ↔ t.pos = s.length ∧ Scans s t.factors t.ops) ∧
      ((∀ fuel, tokenize s fuel = none) ↔ RunsOn s) ∧
      ((∃ e, Returns (tokenize s) (.error e)) ↔ (¬∃ factors ops, Scans s factors ops) ∧ ¬RunsOn s) := by
  have htaken : ∀ {factors ops}, Scans s factors ops → Returns (tokenize s) (.ok ⟨s.length, factors, ops⟩) :=
    fun h => h.returns rfl (Nat.zero_le _)
  have hnot : ∀ {r}, Returns (tokenize s) r → ¬∀ fuel, tokenize s fuel = none := by
    rintro r ⟨n, hn⟩ hnone
    have := hn n le_rfl
    rw [hnone] at this
    cases this
  have htotal := @scan_total s s ⟨0, [], []⟩ rfl
  refine ⟨fun t => ⟨fun ht => ?_, fun ⟨hpos, h⟩ => ?_⟩, ⟨fun hnone => ?_, RunsOn.none⟩, ⟨?_, ?_⟩⟩
  · rcases htotal with ⟨factors, ops, h⟩ | h | ⟨e, he⟩
    · cases ht.unique (htaken h)
      exact ⟨rfl, h⟩
    · exact absurd h.none (hnot ht)
    · cases ht.unique he
  · obtain ⟨pos, factors, ops⟩ := t
    obtain rfl : pos = s.length := hpos
    exact htaken h
  · rcases htotal with ⟨factors, ops, h⟩ | h | ⟨e, he⟩
    · exact absurd hnone (hnot (htaken h))
    · exact h
    · exact absurd hnone (hnot he)
  · rintro ⟨e, he⟩
    refine ⟨?_, fun h => hnot he h.none⟩
    rintro ⟨factors, ops, h⟩
    cases he.unique (htaken h)
  · rintro ⟨hscans, hruns⟩
    rcases htotal with h | h | h
    · exact absurd h hscans
    · exact absurd h hruns
    · exact h

end Loop

end Oce.FeedDispatcher
