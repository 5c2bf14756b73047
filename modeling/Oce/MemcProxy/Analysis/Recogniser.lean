import Oce.MemcProxy.Analysis.Replies
import Oce.MemcProxy.Model.KeyMapping

/-!
# When the parser recognises a command

What the parser answers is a function of the bytes that have been received and of the type, which
may be read behind them. So the question is settled on the stream itself, kind by kind: a line is
found with its carriage return, a reply only where nothing stands behind it, and data by its
length as an `int`.
-/

set_option autoImplicit false

namespace Oce.MemcProxy

open Oce.Base

/-! ## The type -/

namespace Command

/-- The bytes that the test of the type reads. -/
def start : Command → List Byte
  | get _ _ => ascii "get"
  | delete _ _ => ascii "del"
  | set _ _ _ _ => ascii "set"
  | append _ _ _ _ => ascii "app"
  | value _ _ _ => ascii "VALUE"
  | reply .end => ascii "END"
  | reply .stored => ascii "STORE"
  | reply .notStored => ascii "NOT_S"
  | reply .deleted => ascii "DELET"
  | reply .notFound => ascii "NOT_F"

theorem length_start (c : Command) : c.start.length = c.typeLen := by
  cases c with
  | reply r => cases r <;> rfl
  | _ => rfl

theorem bytes_start (c : Command) : c.bytes.take c.typeLen = c.start := by
  cases c with
  | reply r => cases r <;> rfl
  | _ => rfl

theorem typeLen_le (c : Command) : c.typeLen ≤ c.line.length := by
  have hword : ∀ (w : List Byte) (ws : List (List Byte)), w.length ≤ (w ++ ws.flatMap (space :: ·)).length := by
    intro w ws
    rw [List.length_append]
    exact Nat.le_add_right _ _
  cases c with
  | reply r => cases r <;> decide
  | set key flag exptime body => exact hword (ascii "set") _
  | append key flag exptime body => exact Nat.le_trans (show 3 ≤ 6 by decide) (hword (ascii "append") _)
  | value key flag body => exact hword (ascii "VALUE") _
  | get key more =>
      show _ ≤ (ascii "get" ++ _).length
      rw [List.length_append]
      exact Nat.le_add_right _ _
  | delete key time =>
      show _ ≤ (ascii "delete" ++ _).length
      rw [List.length_append]
      exact Nat.le_trans (show 3 ≤ 6 by decide) (Nat.le_add_right _ _)

end Command

theorem getCmdType_start (c : Command) (t : List Byte) : getCmdType (c.start ++ t) = c.type := by
  cases c with
  | reply r =>
      cases r with
      | «end» =>
          have hne : ¬(ascii "END" ++ t).take 5 = ascii "VALUE" := fun h => by
            have hhead := congrArg (List.take 1) h
            rw [List.take_take] at hhead
            cases hhead
          show getCmdType (ascii "END" ++ t) = .end
          unfold getCmdType
          rw [if_neg hne]
          rfl
      | _ => rfl
  | _ => rfl

/-- Fewer bytes than the test reads, and a zero behind them. -/
theorem getCmdType_short (c : Command) {n : ℕ} (hn : n < c.typeLen) :
    getCmdType (c.start.take n ++ [0]) = .notDef := by
  have hall : ∀ s ∈ [ascii "get", ascii "del", ascii "set", ascii "app", ascii "VALUE", ascii "END",
      ascii "STORE", ascii "NOT_S", ascii "DELET", ascii "NOT_F"], ∀ n < s.length,
      getCmdType (s.take n ++ [0]) = .notDef := by decide
  cases c with
  | get key more => exact hall (ascii "get") (by decide) n hn
  | delete key time => exact hall (ascii "del") (by decide) n hn
  | set key flag exptime body => exact hall (ascii "set") (by decide) n hn
  | append key flag exptime body => exact hall (ascii "app") (by decide) n hn
  | value key flag body => exact hall (ascii "VALUE") (by decide) n hn
  | reply r =>
      cases r with
      | «end» => exact hall (ascii "END") (by decide) n hn
      | stored => exact hall (ascii "STORE") (by decide) n hn
      | notStored => exact hall (ascii "NOT_S") (by decide) n hn
      | deleted => exact hall (ascii "DELET") (by decide) n hn
      | notFound => exact hall (ascii "NOT_F") (by decide) n hn

theorem type_ne_notDef (c : Command) : c.type ≠ .notDef := by
  cases c with
  | reply r => cases r <;> exact nofun
  | _ => exact nofun

/-! ## What the answer depends on -/

theorem parserHead_type (buf : List Byte) (n : ℕ) : (parserHead buf n).type = getCmdType buf := by
  have hdata : ∀ head p, (parserData head buf n p).type = head.type := by
    intro head p
    unfold parserData
    dsimp only
    split
    · rfl
    · split
      · rfl
      · rfl
  unfold parserHead
  dsimp only
  split
  · rfl
  · split
    · rfl
    · split
      all_goals first | exact hdata _ _ | rfl | skip
      split
      · rfl
      · rfl

/-- The answer is a function of the received bytes and of the type. -/
theorem parserHead_congr {buf buf' : List Byte} {n : ℕ} (h : buf.take n = buf'.take n)
    (htype : getCmdType buf = getCmdType buf') : parserHead buf n = parserHead buf' n := by
  have hdata : ∀ head p, p < n → parserData head buf n p = parserData head buf' n p := by
    intro head p hp
    have hkey : ∀ key, cmdKeySize (buf.drop key) (n - key) = cmdKeySize (buf'.drop key) (n - key) := by
      intro key
      unfold cmdKeySize
      rw [memchr_congr]
      rw [← List.drop_take, ← List.drop_take, h]
    unfold parserData
    simp only [take_eq_of_take_eq h (Nat.le_of_lt hp), hkey]
  unfold parserHead
  rw [htype, memchr_congr h]
  cases hp : memchr buf' cr n with
  | none => rfl
  | some p =>
      have hlt : p < n := by
        unfold memchr at hp
        have := (List.idxOf?_eq_some_iff.mp hp).1
        rw [List.length_take] at this
        omega
      dsimp only
      simp only [hdata _ p hlt]

/-! ## The claim on the stream -/

/-- The parser recognises the first command of the stream `c.bytes ++ rest` when `n` bytes of it have
been received, whatever stands behind them. -/
def Recognises (c : Command) (rest : List Byte) (n : ℕ) : Prop :=
  ∀ buf : List Byte, buf.take n = (c.bytes ++ rest).take n →
    ((parserHead buf n).succ = .suc ↔ c.bytes.length ≤ n) ∧
    ((parserHead buf n).succ = .suc → c.Fields (buf.take n) (parserHead buf n)) ∧
    ∀ buf' : List Byte, buf'.take n = buf.take n → parserHead buf' n = parserHead buf n

/-- The answer on the stream is right. -/
def Right (c : Command) (rest : List Byte) (n : ℕ) : Prop :=
  ((parserHead (c.bytes ++ rest) n).succ = .suc ↔ c.bytes.length ≤ n) ∧
  ((parserHead (c.bytes ++ rest) n).succ = .suc →
    c.Fields ((c.bytes ++ rest).take n) (parserHead (c.bytes ++ rest) n))

section Stream

variable (c : Command) (rest : List Byte) {n : ℕ}

theorem getCmdType_take {buf : List Byte} (hn : c.typeLen ≤ n)
    (h : buf.take n = (c.bytes ++ rest).take n) : getCmdType buf = c.type := by
  have hle : c.typeLen ≤ c.bytes.length := by
    unfold Command.bytes
    rw [List.length_append]
    exact Nat.le_trans c.typeLen_le (Nat.le_add_right _ _)
  have hstart : buf.take c.typeLen = c.start := by
    rw [take_eq_of_take_eq h hn, List.take_append_of_le_length hle]
    exact c.bytes_start
  rw [← List.take_append_drop c.typeLen buf, hstart]
  exact getCmdType_start c _

theorem getCmdType_stream : getCmdType (c.bytes ++ rest) = c.type :=
  getCmdType_take c rest (Nat.le_refl _) rfl

/-- The bytes behind the received ones are read only where these are fewer than the test reads. -/
theorem recognises_iff_right : Recognises c rest n ↔ c.typeLen ≤ n ∧ Right c rest n := by
  constructor
  · intro h
    obtain ⟨hsuc, hfields, hindep⟩ := h (c.bytes ++ rest) rfl
    refine ⟨Nat.le_of_not_lt fun hn => ?_, hsuc, hfields⟩
    have hle := c.typeLen_le
    have hshort : (c.start.take n ++ [0]).take n = (c.bytes ++ rest).take n := by
      have hlen : (c.start.take n).length = n := by
        rw [List.length_take, c.length_start]
        exact Nat.min_eq_left (Nat.le_of_lt hn)
      have hbytes : n ≤ c.bytes.length := by
        unfold Command.bytes
        rw [List.length_append]
        omega
      rw [List.take_append_of_le_length (Nat.le_of_eq hlen.symm), List.take_take, Nat.min_self,
        List.take_append_of_le_length hbytes, ← c.bytes_start, List.take_take,
        Nat.min_eq_left (Nat.le_of_lt hn)]
    have htype := congrArg MemCmdHead.type (hindep _ hshort)
    rw [parserHead_type, parserHead_type, getCmdType_short c hn, getCmdType_stream] at htype
    exact type_ne_notDef c htype.symm
  · rintro ⟨hn, hright⟩ buf h
    have htype := getCmdType_take c rest hn h
    have hhead : parserHead buf n = parserHead (c.bytes ++ rest) n :=
      parserHead_congr h (htype.trans (getCmdType_stream c rest).symm)
    rw [hhead, h]
    refine ⟨hright.1, hright.2, fun buf' h' => ?_⟩
    exact parserHead_congr h' ((getCmdType_take c rest hn h').trans (getCmdType_stream c rest).symm)

end Stream

/-! ## The line -/

theorem Number.plain (m : Number) : space ∉ m.text ∧ cr ∉ m.text := by
  have hnot : ∀ b : Byte, isDigit b = false → b ∉ m.text := fun b hb hin => by
    rw [List.all_eq_true.mp m.digits b hin] at hb
    cases hb
  exact ⟨hnot space (by decide), hnot cr (by decide)⟩

theorem cr_not_mem_words {w : List Byte} (hw : cr ∉ w) {ws : List (List Byte)} (hws : ∀ u ∈ ws, cr ∉ u) :
    cr ∉ w ++ ws.flatMap (space :: ·) := by
  rw [List.mem_append, List.mem_flatMap]
  rintro (hin | ⟨u, hu, hin⟩)
  · exact hw hin
  · rcases List.mem_cons.mp hin with heq | hin
    · exact absurd heq (by decide)
    · exact hws u hu hin

theorem flatMap_text (ws : List Word) :
    (ws.flatMap fun w => space :: w.text) = (ws.map Word.text).flatMap (space :: ·) :=
  (List.flatMap_map Word.text (space :: ·) ws).symm

theorem cr_not_mem_texts (ws : List Word) : ∀ u ∈ ws.map Word.text, cr ∉ u := by
  intro u hu
  obtain ⟨w, -, rfl⟩ := List.mem_map.mp hu
  exact w.cr

namespace Command

theorem cr_not_mem_line (c : Command) : cr ∉ c.line := by
  cases c with
  | get key more =>
      show cr ∉ ascii "get" ++ _
      rw [flatMap_text]
      exact cr_not_mem_words (by decide) (cr_not_mem_texts _)
  | delete key time =>
      show cr ∉ ascii "delete" ++ _
      rw [flatMap_text]
      exact cr_not_mem_words (by decide) (cr_not_mem_texts _)
  | set key flag exptime body =>
      refine cr_not_mem_words (by decide) ?_
      simpa using ⟨key.cr, flag.plain.2, exptime.cr, body.length.plain.2⟩
  | append key flag exptime body =>
      refine cr_not_mem_words (by decide) ?_
      simpa using ⟨key.cr, flag.plain.2, exptime.cr, body.length.plain.2⟩
  | value key flag body =>
      refine cr_not_mem_words (by decide) ?_
      simpa using ⟨key.cr, flag.plain.2, body.length.plain.2⟩
  | reply r => cases r <;> decide

end Command

theorem memchr_stream (c : Command) (rest : List Byte) (n : ℕ) :
    memchr (c.bytes ++ rest) cr n = if c.line.length < n then some c.line.length else none := by
  have hsplit : c.bytes ++ rest = c.line ++ cr :: (10 :: c.data ++ rest) := by
    simp [Command.bytes, crlf, cr]
  rw [hsplit]
  split
  · rename_i hn
    exact memchr_append c.cr_not_mem_line hn
  · rename_i hn
    unfold memchr
    rw [List.take_append_of_le_length (Nat.le_of_not_lt hn)]
    exact List.idxOf?_eq_none_iff.mpr fun hin => c.cr_not_mem_line (List.mem_of_mem_take hin)

theorem Command.length_bytes (c : Command) : c.bytes.length = c.line.length + 2 + c.data.length := by
  unfold Command.bytes crlf
  rw [List.length_append, List.length_append, Nat.add_assoc]
  rfl

section Kinds

variable (rest : List Byte) {n : ℕ}

/-- As long as the carriage return is missing the answer is right. -/
theorem right_of_le (c : Command) (hn : n ≤ c.line.length) : Right c rest n := by
  have hsucc : (parserHead (c.bytes ++ rest) n).succ = .more := by
    unfold parserHead
    rw [memchr_stream, if_neg (Nat.not_lt.mpr hn)]
    dsimp only
    split
    · rfl
    · rfl
  have hlen := c.length_bytes
  refine ⟨?_, fun h => ?_⟩
  · rw [hsucc]
    exact ⟨nofun, fun h => by omega⟩
  · rw [hsucc] at h
    cases h

/-- A field within the received bytes. -/
theorem field_take {l : List Byte} {k m : ℕ} (h : k + m ≤ n) :
    ((l.take n).drop k).take m = (l.drop k).take m := by
  rw [List.drop_take, List.take_take, Nat.min_eq_left (by omega)]

/-- What stands behind the first `k` bytes of the line. -/
theorem field_line (c : Command) {k : ℕ} (hk : k ≤ c.line.length) (hn : c.line.length ≤ n) :
    (((c.bytes ++ rest).take n).drop k).take (c.line.length - k) = c.line.drop k := by
  rw [field_take (by omega)]
  unfold Command.bytes
  rw [List.append_assoc, List.drop_append_of_le_length hk]
  exact List.take_left' (List.length_drop ..)

/-- A get is recognised unless one byte is missing. -/
theorem right_get (key : Word) (more : List Word) :
    Right (.get key more) rest n ↔ n + 1 ≠ (Command.get key more).bytes.length := by
  set c := Command.get key more with hc
  have hlen : c.bytes.length = c.line.length + 2 := c.length_bytes
  have hfour : 4 ≤ c.line.length := by
    show 4 ≤ (ascii "get" ++ (space :: key.text ++ _)).length
    rw [List.length_append, List.length_append, List.length_cons]
    exact Nat.le_trans (show 4 ≤ 3 + 1 by decide) (by show 3 + 1 ≤ 3 + _; omega)
  rcases Nat.lt_or_ge c.line.length n with hn | hn
  · have hhead : parserHead (c.bytes ++ rest) n =
        ⟨.suc, .get, (c.line.length : ℤ) + 2, 0, 0, 4, (c.line.length : ℤ) - 4, 0⟩ := by
      unfold parserHead
      rw [getCmdType_stream, memchr_stream, if_pos hn]
      rfl
    unfold Right
    rw [hhead, hlen]
    constructor
    · intro h
      have := h.1.mp rfl
      omega
    · intro hne
      refine ⟨⟨fun _ => by omega, fun _ => rfl⟩, fun _ => ⟨rfl, ?_, ?_⟩⟩
      · rw [hlen]
        push_cast
        rfl
      · have hnat : ((c.line.length : ℤ) - 4).toNat = c.line.length - 4 := by omega
        unfold MemCmdHead.keyBytes
        rw [hnat, field_line rest c hfour (Nat.le_of_lt hn)]
        rfl
  · refine ⟨fun _ => by omega, fun _ => right_of_le rest c hn⟩

/-- A delete is recognised unless one byte is missing, or it is whole and has a time. -/
theorem right_delete (key : Word) (time : Option Word) :
    Right (.delete key time) rest n ↔ n + 1 ≠ (Command.delete key time).bytes.length ∧
      ((Command.delete key time).bytes.length ≤ n → time = none) := by
  set c := Command.delete key time with hc
  have hlen : c.bytes.length = c.line.length + 2 := c.length_bytes
  have hline : c.line = ascii "delete" ++ (space :: key.text ++ time.toList.flatMap fun w => space :: w.text) := rfl
  have hseven : 7 ≤ c.line.length := by
    rw [hline, List.length_append, List.length_append, List.length_cons]
    show 7 ≤ 6 + _
    omega
  rcases Nat.lt_or_ge c.line.length n with hn | hn
  · have hhead : parserHead (c.bytes ++ rest) n =
        ⟨.suc, .delete, (c.line.length : ℤ) + 2, 0, 0, 7, (c.line.length : ℤ) - 7, 0⟩ := by
      unfold parserHead
      rw [getCmdType_stream, memchr_stream, if_pos hn]
      rfl
    have hkey : MemCmdHead.keyBytes ⟨.suc, .delete, (c.line.length : ℤ) + 2, 0, 0, 7, (c.line.length : ℤ) - 7, 0⟩
        ((c.bytes ++ rest).take n) = key.text ++ time.toList.flatMap fun w => space :: w.text := by
      have hnat : ((c.line.length : ℤ) - 7).toNat = c.line.length - 7 := by omega
      unfold MemCmdHead.keyBytes
      rw [hnat, field_line rest c hseven (Nat.le_of_lt hn)]
      rfl
    unfold Right
    rw [hhead]
    constructor
    · rintro ⟨hsuc, hfields⟩
      have hwhole := hsuc.mp rfl
      refine ⟨by omega, fun _ => ?_⟩
      have heq := (hfields rfl).2.2
      rw [hkey] at heq
      cases time with
      | none => rfl
      | some w =>
          have hl := congrArg List.length heq
          rw [List.length_append] at hl
          have hpos : 0 < ((some w).toList.flatMap fun w => space :: w.text).length := Nat.succ_pos _
          omega
    · rintro ⟨hne, hnone⟩
      refine ⟨⟨fun _ => by omega, fun _ => rfl⟩, fun _ => ⟨rfl, ?_, ?_⟩⟩
      · rw [hlen]
        push_cast
        rfl
      · rw [hkey, hnone (by omega)]
        exact List.append_nil _
  · exact ⟨fun _ => ⟨by omega, fun hle => by omega⟩, fun _ => right_of_le rest c hn⟩

/-- A reply is recognised only where nothing stands behind it. -/
theorem right_reply (r : Reply) : Right (.reply r) rest n ↔ n ≤ (Command.reply r).bytes.length := by
  set c := Command.reply r with hc
  have hlen : c.bytes.length = c.line.length + 2 := c.length_bytes
  rcases Nat.lt_or_ge c.line.length n with hn | hn
  · have hsucc : (parserHead (c.bytes ++ rest) n).succ = if n ≠ c.bytes.length then .more else .suc := by
      unfold parserHead
      rw [getCmdType_stream, memchr_stream, if_pos hn]
      cases r <;> rfl
    have htype : c.Fields ((c.bytes ++ rest).take n) (parserHead (c.bytes ++ rest) n) := by
      refine ⟨?_, trivial⟩
      rw [parserHead_type, getCmdType_stream]
    unfold Right
    rw [hsucc]
    constructor
    · intro h
      by_cases heq : n = c.bytes.length
      · omega
      · rw [if_pos heq] at h
        exact Nat.le_of_not_le fun hle => nomatch h.1.mpr hle
    · intro hle
      refine ⟨?_, fun _ => htype⟩
      by_cases heq : n = c.bytes.length
      · rw [if_neg (not_not_intro heq)]
        exact ⟨fun _ => by omega, fun _ => rfl⟩
      · rw [if_pos heq]
        exact ⟨nofun, fun _ => by omega⟩
  · exact ⟨fun _ => by omega, fun _ => right_of_le rest c hn⟩

/-! ### Data -/

theorem readInt_number (m : Number) : readInt m.text = some (m.value : ℤ) := by
  have hsign : ∀ (b : Byte) (l : List Byte), isDigit b = false → m.text ≠ b :: l := by
    intro b l hb hl
    rw [List.all_eq_true.mp m.digits b (hl ▸ List.mem_cons_self)] at hb
    cases hb
  unfold readInt
  split
  · next l hl => exact absurd hl (hsign 43 l rfl)
  · next l hl => exact absurd hl (hsign 45 l rfl)
  · exact if_pos ⟨m.ne_nil, m.digits⟩

/-- What the cast leaves of a number: nothing, if it is no `size_t`. -/
def Number.cast (m : Number) : ℤ := if m.value < 2 ^ 64 then m.value else 0

theorem lexicalCast_number (m : Number) :
    lexicalCast m.text = if m.value < 2 ^ 64 then some (m.value : ℤ) else none := by
  unfold lexicalCast
  rw [readInt_number, Option.filter_some]
  simp only [Int.natAbs_natCast, decide_eq_true_eq]

theorem castInt_lt (n : ℤ) : castInt n < 2 ^ 31 := Int.bmod_lt (by decide)

theorem castInt_cast (m : Number) : castInt ((lexicalCast m.text).getD 0) = castInt m.cast := by
  rw [lexicalCast_number]
  unfold Number.cast
  split
  · rfl
  · rfl

/-- A number comes through exactly when it is an `int`. -/
theorem castInt_cast_eq_iff (m : Number) : castInt m.cast = m.value ↔ m.value < 2 ^ 31 := by
  constructor
  · intro h
    have := castInt_lt m.cast
    omega
  · intro h
    have hcast : m.cast = m.value := if_pos (by omega)
    rw [hcast]
    exact castInt_of_lt (Int.natCast_nonneg _) (by exact_mod_cast h)

/-- When the answer on a command with data is right. -/
def dataFits (c : Command) (flag : Number) (body : Body) (n : ℕ) : Prop :=
  (c.line.length < n → c.bytes.length < 2 ^ 31 ∨ n < castInt (c.line.length + 4 + body.length.cast)) ∧
    (c.bytes.length ≤ n → flag.value < 2 ^ 31)

/-- How a command with data is made up. -/
structure IsData (c : Command) (word : List Byte) (key : Word) (flag : Number) (ws : List (List Byte))
    (body : Body) : Prop where
  line : c.line = word ++ (key.text :: flag.text :: ws).flatMap (space :: ·)
  data : c.data = body.bytes ++ crlf
  noSpace : space ∉ word
  words : ∀ u ∈ ws, space ∉ u ∧ u ≠ []
  last : (flag.text :: ws).getLastD [] = body.length.text
  kind : keyAndWords c.type = some (word.length + 1, ws.length + 3)
  type : c.type = .set ∨ c.type = .append ∨ c.type = .value
  fields : ∀ received head, c.Fields received head ↔ head.type = c.type ∧
    head.dataLen = c.bytes.length ∧ head.keyBytes received = key.text ∧ head.flag = flag.value ∧
      head.bodyBytes received = body.bytes

section Data

variable {c : Command} {word : List Byte} {key : Word} {flag : Number} {ws : List (List Byte)} {body : Body}

theorem IsData.words_line (h : IsData c word key flag ws body) :
    splitCompress space c.line = word :: key.text :: flag.text :: ws := by
  have hseps : ∀ u ∈ key.text :: flag.text :: ws, space ∉ u := by
    intro u hu
    rcases List.mem_cons.mp hu with rfl | hu
    · exact key.space
    · rcases List.mem_cons.mp hu with rfl | hu
      · exact flag.plain.1
      · exact (h.words u hu).1
  have hne : ∀ u ∈ key.text :: flag.text :: ws, u ≠ [] := by
    intro u hu
    rcases List.mem_cons.mp hu with rfl | hu
    · exact key.ne_nil
    · rcases List.mem_cons.mp hu with rfl | hu
      · exact flag.ne_nil
      · exact (h.words u hu).2
  rw [h.line, splitCompress_of_splitOn (splitOn_join space h.noSpace hseps), compressTail_of_ne_nil hne]

/-- The key stands before the second space. -/
theorem IsData.drop_key (h : IsData c word key flag ws body) : ∃ t,
    c.line.drop (word.length + 1) = key.text ++ space :: t := by
  refine ⟨flag.text ++ ws.flatMap (space :: ·), ?_⟩
  rw [h.line, ← List.drop_drop, List.drop_left]
  simp

/-- The head of a command with a data block. -/
theorem IsData.head (h : IsData c word key flag ws body) (hn : c.line.length < n) :
    parserHead (c.bytes ++ rest) n =
      let dataLen := castInt (c.line.length + 4 + body.length.cast)
      ⟨if dataLen > n then .more else .suc, c.type, dataLen, c.line.length + 2,
        castInt body.length.cast, word.length + 1, key.text.length,
        if body.length.value < 2 ^ 64 then castInt flag.cast else 0⟩ := by
  obtain ⟨t, hdrop⟩ := h.drop_key
  have hlong : word.length + 1 + key.text.length < c.line.length := by
    have hlen := congrArg List.length hdrop
    rw [List.length_drop, List.length_append, List.length_cons] at hlen
    omega
  have htake : (c.bytes ++ rest).take c.line.length = c.line := by
    unfold Command.bytes
    rw [List.append_assoc]
    exact List.take_left
  have hsize : cmdKeySize ((c.bytes ++ rest).drop (word.length + 1)) (n - (word.length + 1)) =
      key.text.length := by
    unfold cmdKeySize Command.bytes
    rw [List.append_assoc, List.drop_append_of_le_length (by omega), hdrop, List.append_assoc,
      List.cons_append, memchr_append key.space (by omega)]
  have hlast : (word :: key.text :: flag.text :: ws).getLastD [] = body.length.text := by
    rw [← h.last]
    simp [List.getLastD_eq_getLast?]
  have hlength : (castInt ((c.line.length : ℤ) + 2 + castInt body.length.cast + 2)) =
      castInt (c.line.length + 4 + body.length.cast) := by
    unfold castInt
    have hl : (c.line.length : ℤ) + 2 + body.length.cast.bmod (2 ^ 32) + 2 =
        (c.line.length : ℤ) + 4 + body.length.cast.bmod (2 ^ 32) := by omega
    rw [hl, Int.add_bmod_bmod]
  have hdata : parserData ⟨.err, c.type, 0, 0, 0, 0, 0, 0⟩ (c.bytes ++ rest) n c.line.length =
      let dataLen := castInt (c.line.length + 4 + body.length.cast)
      ⟨if dataLen > n then .more else .suc, c.type, dataLen, c.line.length + 2,
        castInt body.length.cast, word.length + 1, key.text.length,
        if body.length.value < 2 ^ 64 then castInt flag.cast else 0⟩ := by
    have hwords : ¬(word :: key.text :: flag.text :: ws).length ≠ ws.length + 3 := not_not_intro rfl
    have hsome : (lexicalCast body.length.text).isSome = decide (body.length.value < 2 ^ 64) := by
      rw [lexicalCast_number]
      by_cases hlt : body.length.value < 2 ^ 64
      · rw [if_pos hlt, decide_eq_true hlt]
        rfl
      · rw [if_neg hlt, decide_eq_false hlt]
        rfl
    unfold parserData
    dsimp only
    rw [htake, h.words_line, h.kind]
    dsimp only
    rw [if_neg hwords, hlast, castInt_cast, hsize, hlength, hsome]
    simp only [List.getD_cons_succ, List.getD_cons_zero, castInt_cast, decide_eq_true_eq]
  unfold parserHead
  rw [getCmdType_stream, memchr_stream, if_pos hn]
  rcases h.type with ht | ht | ht
  all_goals
    rw [ht] at hdata ⊢
    exact hdata

theorem IsData.take_key (h : IsData c word key flag ws body) (hn : c.line.length ≤ n) :
    (((c.bytes ++ rest).take n).drop (word.length + 1)).take key.text.length = key.text := by
  obtain ⟨t, hdrop⟩ := h.drop_key
  have hlen := congrArg List.length hdrop
  rw [List.length_drop, List.length_append, List.length_cons] at hlen
  rw [field_take (by omega)]
  unfold Command.bytes
  rw [List.append_assoc, List.drop_append_of_le_length (by omega), hdrop, List.append_assoc]
  exact List.take_left

theorem IsData.take_body (h : IsData c word key flag ws body)
    (hlen : c.bytes.length = c.line.length + 4 + body.length.value) (hn : c.bytes.length ≤ n) :
    (((c.bytes ++ rest).take n).drop (c.line.length + 2)).take body.length.value = body.bytes := by
  rw [field_take (by omega)]
  unfold Command.bytes
  rw [h.data, List.append_assoc, ← List.drop_drop, List.drop_left, ← body.eq, List.append_assoc,
    List.append_assoc]
  exact List.take_left

/-- **A command with data is recognised as far as its lengths and its flag are `int`s.** -/
theorem IsData.right (h : IsData c word key flag ws body) (hint : n < 2 ^ 31) :
    Right c rest n ↔ dataFits c flag body n := by
  have hlen : c.bytes.length = c.line.length + 4 + body.length.value := by
    rw [c.length_bytes, h.data, List.length_append, body.eq]
    show _ + (_ + 2) = _
    omega
  rcases Nat.lt_or_ge c.line.length n with hn | hn
  · have hhead := h.head rest hn
    unfold Right dataFits
    rw [hhead]
    dsimp only
    by_cases hshort : c.bytes.length < 2 ^ 31
    · have hvalue : body.length.value < 2 ^ 31 := by omega
      have hcast : body.length.cast = body.length.value := if_pos (by omega)
      have hbody : castInt (body.length.value : ℤ) = body.length.value :=
        castInt_of_lt (Int.natCast_nonneg _) (by exact_mod_cast hvalue)
      have hdata : castInt ((c.line.length : ℤ) + 4 + body.length.value) = c.bytes.length := by
        rw [hlen]
        push_cast
        exact castInt_of_lt (by omega) (by omega)
      rw [hcast, hbody, hdata, if_pos (Nat.lt_trans hvalue (by decide)), h.fields]
      by_cases hwhole : c.bytes.length ≤ n
      · rw [if_neg (by omega)]
        have hkey := h.take_key rest (Nat.le_of_lt hn)
        have hbytes := h.take_body rest hlen hwhole
        refine ⟨fun hright => ⟨fun _ => .inl hshort, fun _ => ?_⟩, fun hfits => ⟨⟨fun _ => hwhole, fun _ => rfl⟩,
          fun _ => ⟨rfl, rfl, ?_, ?_, ?_⟩⟩⟩
        · exact (castInt_cast_eq_iff flag).mp (hright.2 rfl).2.2.2.1
        · exact hkey
        · exact (castInt_cast_eq_iff flag).mpr (hfits.2 hwhole)
        · exact hbytes
      · rw [if_pos (by omega)]
        exact ⟨fun _ => ⟨fun _ => .inl hshort, fun hle => absurd hle hwhole⟩,
          fun _ => ⟨⟨nofun, fun hle => absurd hle hwhole⟩, nofun⟩⟩
    · have hnot : ¬c.bytes.length ≤ n := by omega
      by_cases hbeyond : (n : ℤ) < castInt (c.line.length + 4 + body.length.cast)
      · rw [if_pos hbeyond]
        exact ⟨fun _ => ⟨fun _ => .inr hbeyond, fun hle => absurd hle hnot⟩,
          fun _ => ⟨⟨nofun, fun hle => absurd hle hnot⟩, nofun⟩⟩
      · rw [if_neg hbeyond]
        exact ⟨fun hright => absurd (hright.1.mp rfl) hnot,
          fun hfits => absurd (hfits.1 hn) (not_or_intro hshort hbeyond)⟩
  · refine ⟨fun _ => ⟨fun hlt => by omega, fun hle => by omega⟩, fun _ => right_of_le rest c hn⟩

end Data

theorem isData_set (key : Word) (flag : Number) (exptime : Word) (body : Body) :
    IsData (.set key flag exptime body) (ascii "set") key flag [exptime.text, body.length.text] body where
  line := rfl
  data := rfl
  noSpace := by decide
  words := by simpa using ⟨⟨exptime.space, exptime.ne_nil⟩, body.length.plain.1, body.length.ne_nil⟩
  last := rfl
  kind := rfl
  type := .inl rfl
  fields _ _ := Iff.rfl

theorem isData_append (key : Word) (flag : Number) (exptime : Word) (body : Body) :
    IsData (.append key flag exptime body) (ascii "append") key flag [exptime.text, body.length.text] body where
  line := rfl
  data := rfl
  noSpace := by decide
  words := by simpa using ⟨⟨exptime.space, exptime.ne_nil⟩, body.length.plain.1, body.length.ne_nil⟩
  last := rfl
  kind := rfl
  type := .inr (.inl rfl)
  fields _ _ := Iff.rfl

theorem isData_value (key : Word) (flag : Number) (body : Body) :
    IsData (.value key flag body) (ascii "VALUE") key flag [body.length.text] body where
  line := rfl
  data := rfl
  noSpace := by decide
  words := by simpa using ⟨body.length.plain.1, body.length.ne_nil⟩
  last := rfl
  kind := rfl
  type := .inr (.inr rfl)
  fields _ _ := Iff.rfl

end Kinds

/-! ## Every kind -/

/-- The condition under which the parser recognises a command of which, with what follows, `n` bytes
have been received: the type has been received; of a line not all but the line feed; nothing behind
a reply; no time in a delete; of a command with data, the lengths and the flag are `int`s. -/
def Command.fits (c : Command) (n : ℕ) : Prop :=
  c.typeLen ≤ n ∧
  match c with
  | get _ _ => n + 1 ≠ c.bytes.length
  | delete _ time => n + 1 ≠ c.bytes.length ∧ (c.bytes.length ≤ n → time = none)
  | set _ flag _ body | append _ flag _ body | value _ flag body => dataFits c flag body n
  | reply _ => n ≤ c.bytes.length

/-- **Exactly then the parser recognises the command.** -/
theorem recognises_iff (c : Command) (rest : List Byte) {n : ℕ} (hint : n < 2 ^ 31) :
    Recognises c rest n ↔ c.fits n := by
  rw [recognises_iff_right]
  unfold Command.fits
  refine and_congr_right fun _ => ?_
  cases c with
  | get key more => exact right_get rest key more
  | delete key time => exact right_delete rest key time
  | set key flag exptime body => exact (isData_set key flag exptime body).right rest hint
  | append key flag exptime body => exact (isData_append key flag exptime body).right rest hint
  | value key flag body => exact (isData_value key flag body).right rest hint
  | reply r => exact right_reply rest r

/-- An end with the next reply behind it. -/
theorem end_unrecognised : ¬Recognises (.reply .end) storedBuf 13 := by
  intro h
  have hsuc := (h (endBuf ++ storedBuf) (by decide)).1.mpr (by decide)
  exact absurd hsuc (by decide +kernel)

theorem recognises_iff_end : Recognises (.reply .end) storedBuf 5 := by
  rw [recognises_iff (.reply .end) storedBuf (show 5 < 2 ^ 31 by decide)]
  exact ⟨by decide, by decide⟩

end Oce.MemcProxy
