import Oce.MemcProxy.Analysis.Recogniser
import Oce.MemcProxy.Model.ClientConn

/-!
# What a request reads

The buffer holds what has arrived of the blocks that are not yet taken and of the last line. The
loop takes the whole blocks away; what it stops at is a part of a block, or a part of the line. In
the line it goes by the type alone, which is read behind the received bytes too. So the request is
over as soon as these make a type, and the run is good exactly as far as they do not.
-/

set_option autoImplicit false

namespace Oce.MemcProxy.ClientRead

open Function Oce.Base

/-! ## Replies -/

/-- A value that the server sends. -/
structure ValueBlock where
  key : Word
  flag : Number
  body : Body

namespace ValueBlock

def command (b : ValueBlock) : Command := .value b.key b.flag b.body

/-- Its length and its flag are `int`s. -/
def Fits (b : ValueBlock) : Prop := b.command.bytes.length < 2 ^ 31 ∧ b.flag.value < 2 ^ 31

end ValueBlock

/-- The last line of a reply, with its end. -/
def lineBytes (r : Reply) : List Byte := (Command.reply r).bytes

/-- A reply: blocks, and a line. -/
def replyBytes (blocks : List ValueBlock) (r : Reply) : List Byte :=
  blocks.flatMap (fun b => b.command.bytes) ++ lineBytes r

/-- The values under their keys. -/
def dataOf (blocks : List ValueBlock) (key : List Byte) : Option (List Byte) :=
  (blocks.find? fun b => b.key.text = key).map fun b => b.body.bytes

def flagsOf (blocks : List ValueBlock) (key : List Byte) : Option ℤ :=
  (blocks.find? fun b => b.key.text = key).map fun b => (b.flag.value : ℤ)

/-- The keys of the blocks are distinct. -/
def DistinctKeys (blocks : List ValueBlock) : Prop := (blocks.map fun b => b.key.text).Nodup

/-- A request that returns `true` has read the whole reply, and holds its values and flags. -/
def OneReply (blocks : List ValueBlock) (s : Reader) : Prop :=
  s.place = .returned true → s.wire = [] ∧ s.resdata = dataOf blocks ∧ s.flags = flagsOf blocks

/-- Where the bytes that arrive end within the last line, they and the old bytes behind them make
no type. -/
def NoType (r : Reply) (s : Reader) : Event → Prop
  | .bytes n =>
    s.place = .poll ∨ s.place = .read → 0 < taken s n →
      0 < s.wire.length - taken s n → s.wire.length - taken s n < (lineBytes r).length →
        getCmdType ((lineBytes r).take ((lineBytes r).length - (s.wire.length - taken s n)) ++
          s.recvBuf.drop (s.curRecvLen + taken s n)) = .notDef
  | _ => True

instance (r : Reply) (s : Reader) (e : Event) : Decidable (NoType r s e) := by
  cases e <;> unfold NoType <;> infer_instance

section Maps

variable {done : List ValueBlock} {b : ValueBlock}

theorem find?_key_none {key : List Byte} (h : key ∉ done.map fun b => b.key.text) :
    done.find? (fun b => b.key.text = key) = none := by
  rw [List.find?_eq_none]
  intro b hb heq
  exact h (List.mem_map.mpr ⟨b, hb, of_decide_eq_true heq⟩)

theorem find?_snoc {α : Type} (f : ValueBlock → α) (h : b.key.text ∉ done.map fun b => b.key.text) :
    (fun key => ((done ++ [b]).find? fun b => b.key.text = key).map f) =
      update (fun key => (done.find? fun b => b.key.text = key).map f) b.key.text
        (some (f b)) := by
  funext key
  rw [List.find?_append]
  by_cases hkey : key = b.key.text
  · subst hkey
    rw [find?_key_none h, update_self]
    simp
  · have hne : ¬b.key.text = key := fun heq => hkey heq.symm
    rw [update_of_ne hkey]
    simp [hne]

theorem dataOf_snoc (h : b.key.text ∉ done.map fun b => b.key.text) :
    dataOf (done ++ [b]) = update (dataOf done) b.key.text (some b.body.bytes) :=
  find?_snoc (fun b => b.body.bytes) h

theorem flagsOf_snoc (h : b.key.text ∉ done.map fun b => b.key.text) :
    flagsOf (done ++ [b]) = update (flagsOf done) b.key.text (some (b.flag.value : ℤ)) :=
  find?_snoc (fun b => (b.flag.value : ℤ)) h

end Maps

/-! ## The type -/

/-- The byte that a command or a reply of this type starts with. -/
def firstByte : CmdType → Byte
  | .get => 103
  | .set => 115
  | .delete => 100
  | .append => 97
  | .value => 86
  | .end => 69
  | .deleted => 68
  | .stored => 83
  | .notFound | .notStored => 78
  | .notDef => 0

theorem getCmdType_firstByte (b : Byte) (t : List Byte) :
    getCmdType (b :: t) = .notDef ∨ firstByte (getCmdType (b :: t)) = b := by
  have hhead : ∀ {w : List Byte} {k : ℕ}, (b :: t).take k = w → ∀ c, w.head? = some c → c = b := by
    intro w k heq c hw
    cases k with
    | zero =>
        rw [← heq] at hw
        cases hw
    | succ k =>
        rw [← heq] at hw
        exact (Option.some.inj hw).symm
  have hite : ∀ {c : Prop} [Decidable c] {x y : CmdType}, (c → firstByte x = b) →
      y = .notDef ∨ firstByte y = b →
        (if c then x else y) = .notDef ∨ firstByte (if c then x else y) = b := by
    intro c _ x y hx hy
    by_cases hc : c
    · rw [if_pos hc]
      exact .inr (hx hc)
    · rw [if_neg hc]
      exact hy
  -- one test after the other, each against its own word
  unfold getCmdType
  iterate 10 refine hite (fun h => hhead h _ (by decide)) ?_
  exact .inl rfl

/-- A part of a command makes no type but those that start as it does. -/
theorem getCmdType_part {c : Command} {rest buf : List Byte} {n : ℕ}
    (h : buf.take n = (c.bytes ++ rest).take n) (hn : 0 < n) :
    getCmdType buf = .notDef ∨ firstByte (getCmdType buf) = firstByte c.type := by
  refine or_iff_not_imp_left.mpr fun hne => ?_
  have hlen : 0 < c.typeLen := by
    cases c with
    | reply r => cases r <;> decide
    | _ => exact Nat.succ_pos _
  have hstream : (c.bytes ++ rest).take 1 = c.start.take 1 := by
    have hle : c.typeLen ≤ c.bytes.length := by
      unfold Command.bytes
      rw [List.length_append]
      exact Nat.le_trans c.typeLen_le (Nat.le_add_right _ _)
    rw [← c.bytes_start, List.take_take, Nat.min_eq_left hlen, List.take_append_of_le_length (by omega)]
  have hone := take_eq_of_take_eq h hn
  rw [hstream] at hone
  have hstart : c.start.take 1 = [firstByte c.type] := by
    cases c with
    | reply r => cases r <;> rfl
    | _ => rfl
  rw [hstart] at hone
  cases buf with
  | nil => cases hone
  | cons b t =>
      rw [(getCmdType_firstByte b t).resolve_left hne]
      exact (List.cons.inj hone).1

theorem isReply_of_firstByte {type : CmdType} {r : Reply} (h : firstByte type = firstByte r.type) :
    isReply type = true := by
  cases r <;> cases type <;> first | rfl | exact absurd h (by decide)

theorem eq_value_of_firstByte {type : CmdType} (h : firstByte type = firstByte .value) :
    type = .value := by
  cases type <;> first | rfl | exact absurd h (by decide)

theorem lineLen_isReply {type : CmdType} (h : isReply type = true) : ∃ len, lineLen type = some len := by
  cases type <;> first | exact ⟨_, rfl⟩ | cases h

/-! ## What the parser finds -/

section Parser

variable {buf rest : List Byte} {n : ℕ}

/-- A type of a reply is all that the parser needs. -/
theorem parserHead_isReply (h : isReply (getCmdType buf) = true) :
    (parserHead buf n).succ ≠ .err := by
  unfold parserHead
  dsimp only
  split
  · exact nofun
  · split
    · exact nofun
    · split
      all_goals rename_i htype
      any_goals
        rw [htype] at h
        cases h
      obtain ⟨len, hlen⟩ := lineLen_isReply h
      rw [hlen]
      dsimp only
      split
      · exact nofun
      · exact nofun

namespace ValueBlock

variable (b : ValueBlock)

theorem isData : IsData b.command (ascii "VALUE") b.key b.flag [b.body.length.text] b.body :=
  isData_value b.key b.flag b.body

theorem length_bytes : b.command.bytes.length = b.command.line.length + 4 + b.body.length.value := by
  have hdata : b.command.data.length = b.body.bytes.length + 2 := List.length_append
  have hbytes : b.command.bytes.length = b.command.line.length + 2 + b.command.data.length :=
    b.command.length_bytes
  rw [hbytes, hdata, b.body.eq]
  omega

/-- What the parser makes of a block whose line has been received. -/
theorem head_eq (hfit : b.Fits) (h : buf.take n = (b.command.bytes ++ rest).take n)
    (hn : b.command.line.length < n) :
    parserHead buf n =
      ⟨if b.command.bytes.length ≤ n then .suc else .more, .value, b.command.bytes.length,
        b.command.line.length + 2, b.body.length.value, 6, b.key.text.length, b.flag.value⟩ := by
  have htypeLen : b.command.typeLen ≤ n := Nat.le_trans b.command.typeLen_le (Nat.le_of_lt hn)
  have hbuf : parserHead buf n = parserHead (b.command.bytes ++ rest) n :=
    parserHead_congr h ((getCmdType_take b.command rest htypeLen h).trans
      (getCmdType_stream b.command rest).symm)
  have hlen := b.length_bytes
  have hshort := hfit.1
  have hvalue : b.body.length.value < 2 ^ 31 := by omega
  have hcast : b.body.length.cast = b.body.length.value := if_pos (by omega)
  have hbody : castInt (b.body.length.value : ℤ) = b.body.length.value :=
    castInt_of_lt (Int.natCast_nonneg _) (by exact_mod_cast hvalue)
  have hdata : castInt ((b.command.line.length : ℤ) + 4 + b.body.length.value) = b.command.bytes.length := by
    rw [hlen]
    push_cast
    exact castInt_of_lt (by omega) (by omega)
  have hflag : castInt b.flag.cast = b.flag.value := (castInt_cast_eq_iff b.flag).mpr hfit.2
  rw [hbuf, b.isData.head rest hn]
  dsimp only
  rw [hcast, hbody, hdata, if_pos (Nat.lt_trans hvalue (by decide)), hflag]
  have hsucc : (if (b.command.bytes.length : ℤ) > n then ParserErrCode.more else .suc) =
      if b.command.bytes.length ≤ n then .suc else .more := by
    by_cases hwhole : b.command.bytes.length ≤ n
    · rw [if_pos hwhole, if_neg (by omega)]
    · rw [if_neg hwhole, if_pos (by omega)]
  rw [hsucc]
  rfl

/-- A part of a block: the parser asks for more. -/
theorem head_more (hfit : b.Fits) (h : buf.take n = (b.command.bytes ++ rest).take n) (hpos : 0 < n)
    (hn : n < b.command.bytes.length) : (parserHead buf n).succ = .more ∧
      (getCmdType buf = .value ∨ getCmdType buf = .notDef) := by
  have htype : getCmdType buf = .value ∨ getCmdType buf = .notDef :=
    (getCmdType_part h hpos).symm.imp_left eq_value_of_firstByte
  refine ⟨?_, htype⟩
  rcases Nat.lt_or_ge b.command.line.length n with hline | hline
  · rw [b.head_eq hfit h hline]
    exact if_neg (Nat.not_le.mpr hn)
  · unfold parserHead
    rw [memchr_congr h, memchr_stream, if_neg (Nat.not_lt.mpr hline)]
    dsimp only
    split
    · rfl
    · rfl

/-- A whole block comes with its key and its body. -/
theorem head_value (hfit : b.Fits) (h : buf.take n = (b.command.bytes ++ rest).take n)
    (hn : b.command.bytes.length ≤ n) (s : Fetched) :
    s.value buf (parserHead buf n) =
      { s with
        total := s.total + b.command.bytes.length
        resdata := update s.resdata b.key.text
          (some (b.body.bytes ++ (s.resdata b.key.text).getD []))
        flags := update s.flags b.key.text (some (b.flag.value : ℤ)) } := by
  have hlen := b.length_bytes
  have hline : b.command.line.length < n := by omega
  obtain ⟨t, hdrop⟩ := b.isData.drop_key
  have hkeyLen := congrArg List.length hdrop
  rw [List.length_drop, List.length_append, List.length_cons] at hkeyLen
  have hsix : (ascii "VALUE").length + 1 = 6 := rfl
  have hkey : (buf.drop 6).take b.key.text.length = b.key.text := by
    have htake := b.isData.take_key rest (Nat.le_of_lt hline)
    rw [← h, hsix, field_take (by omega)] at htake
    exact htake
  have hbody : (buf.drop (b.command.line.length + 2)).take b.body.length.value = b.body.bytes := by
    have htake := b.isData.take_body rest b.length_bytes hn
    rw [← h, field_take (by omega)] at htake
    exact htake
  rw [b.head_eq hfit h hline]
  unfold Fetched.value MemCmdHead.keyBytes MemCmdHead.bodyBytes
  dsimp only
  simp only [Int.toNat_natCast, hkey, hbody]

end ValueBlock

end Parser

/-! ## The loop -/

/-- The keys of what is left are not among those that have been taken. -/
theorem DistinctKeys.head_fresh {done left : List ValueBlock} {b : ValueBlock}
    (h : DistinctKeys (done ++ b :: left)) : b.key.text ∉ done.map fun b => b.key.text := by
  unfold DistinctKeys at h
  rw [List.map_append, List.map_cons] at h
  intro hin
  exact (List.nodup_append.mp h).2.2 _ hin _ List.mem_cons_self rfl

theorem dataOf_none {done : List ValueBlock} {key : List Byte} (h : key ∉ done.map fun b => b.key.text) :
    dataOf done key = none := by
  unfold dataOf
  rw [find?_key_none h]
  rfl

theorem replyBytes_cons (b : ValueBlock) (left : List ValueBlock) (r : Reply) :
    replyBytes (b :: left) r = b.command.bytes ++ replyBytes left r := by
  unfold replyBytes
  rw [List.flatMap_cons, List.append_assoc]

theorem length_lineBytes_le (blocks : List ValueBlock) (r : Reply) :
    (lineBytes r).length ≤ (replyBytes blocks r).length := by
  unfold replyBytes
  rw [List.length_append]
  exact Nat.le_add_left _ _

/-- What the loop stops at when it has taken the blocks before `left`: a part of a block or nothing,
or a part of the line. -/
inductive Stop (recvBuf : List Byte) (cur : ℕ) (r : Reply) (left : List ValueBlock) (f : Fetched) : Prop
  | block (htype : f.type = .value ∨ f.type = .notDef)
      (hpart : cur - f.total + (lineBytes r).length ≤ (replyBytes left r).length)
  | line (hleft : left = []) (hpos : f.total < cur) (htype : f.type = getCmdType (recvBuf.drop f.total))

section Loop

variable {recvBuf : List Byte} {cur : ℕ} {r : Reply} (rounds : ℕ) {s : Fetched}

theorem fetchLoop_stop (h : cur ≤ s.total) : fetchLoop recvBuf cur (rounds + 1) s = some s := by
  unfold fetchLoop
  exact if_pos h

theorem fetchLoop_more (hlt : s.total < cur)
    (h : (parserHead (recvBuf.drop s.total) (cur - s.total)).succ = .more) :
    fetchLoop recvBuf cur (rounds + 1) s = some { s with type := getCmdType (recvBuf.drop s.total) } := by
  unfold fetchLoop
  rw [if_neg (Nat.not_le.mpr hlt)]
  simp only [h, parserHead_type]

/-- In the line the loop goes by the type. -/
theorem fetchLoop_line (hlt : s.total < cur)
    (h : getCmdType (recvBuf.drop s.total) = .notDef ∨ isReply (getCmdType (recvBuf.drop s.total)) = true) :
    fetchLoop recvBuf cur (rounds + 1) s = some { s with type := getCmdType (recvBuf.drop s.total) } := by
  rcases h with h | h
  · apply fetchLoop_more rounds hlt
    unfold parserHead
    exact congrArg MemCmdHead.succ (if_pos h)
  · have hsucc := parserHead_isReply (n := cur - s.total) h
    cases hhead : (parserHead (recvBuf.drop s.total) (cur - s.total)).succ with
    | err => exact absurd hhead hsucc
    | more => exact fetchLoop_more rounds hlt hhead
    | suc =>
        unfold fetchLoop
        rw [if_neg (Nat.not_le.mpr hlt)]
        simp only [hhead, parserHead_type, h, if_true]

/-- A whole block is taken. -/
theorem fetchLoop_block {b : ValueBlock} {rest : List Byte} (hfit : b.Fits)
    (h : (recvBuf.drop s.total).take (cur - s.total) =
      (b.command.bytes ++ rest).take (cur - s.total)) (hn : b.command.bytes.length ≤ cur - s.total)
    (hfresh : s.resdata b.key.text = none) :
    fetchLoop recvBuf cur (rounds + 1) s = fetchLoop recvBuf cur rounds
      { s with
        total := s.total + b.command.bytes.length
        type := .value
        resdata := update s.resdata b.key.text (some b.body.bytes)
        flags := update s.flags b.key.text (some (b.flag.value : ℤ)) } := by
  have hlen := b.length_bytes
  have hhead := b.head_eq hfit h (by omega)
  rw [if_pos hn] at hhead
  have hvalue := b.head_value hfit h hn { s with type := .value }
  dsimp only at hvalue
  rw [hhead, hfresh, Option.getD_none, List.append_nil] at hvalue
  rw [fetchLoop, if_neg (by omega)]
  dsimp only
  rw [hhead]
  dsimp only
  rw [if_neg (by decide), if_pos rfl, if_neg (by omega), hvalue]

/-- **The loop takes the whole blocks.** -/
theorem fetchLoop_eq (done todo : List ValueBlock) (hfit : ∀ b ∈ todo, b.Fits)
    (hkeys : DistinctKeys (done ++ todo)) (rounds : ℕ) (s : Fetched) (hrounds : cur - s.total < rounds)
    (htotal : s.total ≤ cur) (hok : s.ok = true) (htype : s.type = .value ∨ s.type = .notDef)
    (hresdata : s.resdata = dataOf done) (hflags : s.flags = flagsOf done)
    (h : (recvBuf.drop s.total).take (cur - s.total) = (replyBytes todo r).take (cur - s.total)) :
    ∃ group left f, todo = group ++ left ∧ fetchLoop recvBuf cur rounds s = some f ∧ f.ok = true ∧
      f.total = s.total + (group.flatMap fun b => b.command.bytes).length ∧ f.total ≤ cur ∧
      f.resdata = dataOf (done ++ group) ∧ f.flags = flagsOf (done ++ group) ∧
      Stop recvBuf cur r left f := by
  induction todo generalizing done rounds s with
  | nil =>
      obtain ⟨rounds, rfl⟩ : ∃ k, rounds = k + 1 := ⟨rounds - 1, by omega⟩
      have hdata : s.resdata = dataOf (done ++ []) := by rw [List.append_nil, hresdata]
      have hflag : s.flags = flagsOf (done ++ []) := by rw [List.append_nil, hflags]
      rcases Nat.lt_or_ge s.total cur with hlt | hge
      · have hline : (recvBuf.drop s.total).take (cur - s.total) =
            ((Command.reply r).bytes ++ []).take (cur - s.total) := by
          rw [List.append_nil]
          exact h
        have htypes := (getCmdType_part hline (by omega)).imp_right isReply_of_firstByte
        exact ⟨[], [], _, rfl, fetchLoop_line rounds hlt htypes, hok, rfl, htotal, hdata,
          hflag, .line rfl hlt rfl⟩
      · have hpart : cur - s.total + (lineBytes r).length ≤ (replyBytes [] r).length := by
          rw [Nat.sub_eq_zero_of_le hge, Nat.zero_add]
          exact length_lineBytes_le [] r
        exact ⟨[], [], s, rfl, fetchLoop_stop rounds hge, hok, rfl, htotal, hdata,
          hflag, .block htype hpart⟩
  | cons b todo ih =>
      obtain ⟨rounds, rfl⟩ : ∃ k, rounds = k + 1 := ⟨rounds - 1, by omega⟩
      have hdata : s.resdata = dataOf (done ++ []) := by rw [List.append_nil, hresdata]
      have hflag : s.flags = flagsOf (done ++ []) := by rw [List.append_nil, hflags]
      have hb := hfit b List.mem_cons_self
      have hlen := b.length_bytes
      have hreply := replyBytes_cons b todo r
      have hline := length_lineBytes_le todo r
      rw [hreply] at h
      rcases Nat.lt_or_ge (cur - s.total) b.command.bytes.length with hpart | hwhole
      · have hstop : cur - s.total + (lineBytes r).length ≤ (replyBytes (b :: todo) r).length := by
          rw [hreply, List.length_append]
          omega
        rcases Nat.lt_or_ge s.total cur with hlt | hge
        · obtain ⟨hmore, htypes⟩ := b.head_more hb h (by omega) hpart
          exact ⟨[], b :: todo, _, rfl, fetchLoop_more rounds hlt hmore, hok, rfl, htotal,
            hdata, hflag, .block htypes hstop⟩
        · exact ⟨[], b :: todo, s, rfl, fetchLoop_stop rounds hge, hok, rfl, htotal, hdata,
            hflag, .block htype hstop⟩
      · have hkey := hkeys.head_fresh
        have hfresh : s.resdata b.key.text = none := by
          rw [hresdata]
          exact dataOf_none hkey
        have hassoc : done ++ b :: todo = (done ++ [b]) ++ todo := List.append_cons ..
        have hleft : (recvBuf.drop (s.total + b.command.bytes.length)).take
            (cur - (s.total + b.command.bytes.length)) =
              (replyBytes todo r).take (cur - (s.total + b.command.bytes.length)) := by
          have hdrop := congrArg (List.drop b.command.bytes.length) h
          rw [List.drop_take, List.drop_take, List.drop_drop, List.drop_left, Nat.sub_sub] at hdrop
          exact hdrop
        obtain ⟨group, left, f, hsplit, hf, hfok, hftotal, hfle, hfdata, hfflags, hstop⟩ :=
          ih (done ++ [b]) (fun c hc => hfit c (List.mem_cons_of_mem b hc)) (hassoc ▸ hkeys) rounds
            { s with
              total := s.total + b.command.bytes.length
              type := .value
              resdata := update s.resdata b.key.text (some b.body.bytes)
              flags := update s.flags b.key.text (some (b.flag.value : ℤ)) }
            (by dsimp only; omega) (by dsimp only; omega) hok (.inl rfl)
            (by rw [dataOf_snoc hkey, hresdata]) (by rw [flagsOf_snoc hkey, hflags]) hleft
        have hgroup : (done ++ [b]) ++ group = done ++ b :: group := (List.append_cons ..).symm
        refine ⟨b :: group, left, f, by rw [hsplit, List.cons_append],
          (fetchLoop_block rounds hb h hwhole hfresh).trans hf, hfok, ?_, hfle, hgroup ▸ hfdata,
          hgroup ▸ hfflags, hstop⟩
        rw [hftotal, List.flatMap_cons, List.length_append, Nat.add_assoc]

end Loop

/-! ## The client -/

/-- The client has taken the blocks `done`, and what is left is in the buffer and on the wire. -/
structure Holds (blocks : List ValueBlock) (r : Reply) (s : Reader) (done left : List ValueBlock) :
    Prop where
  blocks : blocks = done ++ left
  resdata : s.resdata = dataOf done
  flags : s.flags = flagsOf done
  cur_le : s.curRecvLen ≤ s.recvBuf.length
  take : s.recvBuf.take s.curRecvLen = (replyBytes left r).take s.curRecvLen
  wire : s.wire = (replyBytes left r).drop s.curRecvLen

section Client

variable {blocks : List ValueBlock} {r : Reply} {s : Reader} {done left : List ValueBlock}

theorem Holds.cur_le_reply (h : Holds blocks r s done left) : s.curRecvLen ≤ (replyBytes left r).length := by
  have hlen := congrArg List.length h.take
  rw [List.length_take, List.length_take, Nat.min_eq_left h.cur_le] at hlen
  omega

theorem Holds.length_wire (h : Holds blocks r s done left) :
    s.wire.length = (replyBytes left r).length - s.curRecvLen := by
  rw [h.wire, List.length_drop]

section Receive

variable {m : ℕ}

theorem receive_drop (hcur : s.curRecvLen ≤ s.recvBuf.length) (hm : m ≤ s.wire.length) :
    (receive s m).recvBuf.drop (receive s m).curRecvLen = s.recvBuf.drop (s.curRecvLen + m) := by
  have hlen : (s.recvBuf.take s.curRecvLen ++ s.wire.take m).length = s.curRecvLen + m := by
    rw [List.length_append, List.length_take, List.length_take, Nat.min_eq_left hcur, Nat.min_eq_left hm]
  exact List.drop_left' hlen

theorem Holds.receive (h : Holds blocks r s done left) (hm : m ≤ s.wire.length) :
    Holds blocks r (receive s m) done left := by
  have hcur := h.cur_le
  have hlen : (s.recvBuf.take s.curRecvLen ++ s.wire.take m).length = s.curRecvLen + m := by
    rw [List.length_append, List.length_take, List.length_take, Nat.min_eq_left hcur, Nat.min_eq_left hm]
  refine ⟨h.blocks, h.resdata, h.flags, ?_, ?_, ?_⟩
  · show _ ≤ (s.recvBuf.take s.curRecvLen ++ s.wire.take m ++ s.recvBuf.drop (s.curRecvLen + m)).length
    rw [List.length_append, hlen]
    exact Nat.le_add_right _ _
  · show (s.recvBuf.take s.curRecvLen ++ s.wire.take m ++ s.recvBuf.drop (s.curRecvLen + m)).take
      (s.curRecvLen + m) = (replyBytes left r).take (s.curRecvLen + m)
    rw [List.take_left' hlen, h.take, h.wire]
    exact List.take_add.symm
  · show s.wire.drop m = (replyBytes left r).drop (s.curRecvLen + m)
    rw [h.wire, List.drop_drop]

end Receive

/-- What `FetchData` leaves: a part of a block or nothing, with no type of a reply; or a part of the
line, with the type that it makes. -/
inductive Left (r : Reply) (s : Reader) (left : List ValueBlock) (s' : Reader) : Prop
  | block (htype : s'.type = .value ∨ s'.type = .notDef)
      (hpart : s'.curRecvLen + (lineBytes r).length ≤ (replyBytes left r).length)
  | line (hleft : left = []) (hpos : 0 < s'.curRecvLen)
      (htype : s'.type = getCmdType ((lineBytes r).take s'.curRecvLen ++ s.recvBuf.drop s.curRecvLen))

/-- **`FetchData` takes the whole blocks.** -/
theorem Holds.fetchData (h : Holds blocks r s done left) (hfit : ∀ b ∈ blocks, b.Fits)
    (hkeys : DistinctKeys blocks) : ∃ group left' s', fetchData s = some (true, s') ∧
      Holds blocks r s' (done ++ group) left' ∧ s'.wire = s.wire ∧ Left r s left' s' := by
  have hfits : ∀ b ∈ left, b.Fits := fun b hb => hfit b (h.blocks ▸ List.mem_append_right done hb)
  obtain ⟨group, left', f, hsplit, hf, hok, htotal, hle, hdata, hflags, hstop⟩ :=
    @fetchLoop_eq s.recvBuf s.curRecvLen r done left hfits
      (h.blocks ▸ hkeys) (s.curRecvLen + 1) ⟨true, 0, .notDef, s.resdata, s.flags⟩ (Nat.lt_succ_self _)
      (Nat.zero_le _) rfl (.inr rfl) h.resdata h.flags h.take
  have htot : f.total = (group.flatMap fun b => b.command.bytes).length := by
    rw [htotal]
    exact Nat.zero_add _
  have hreply : replyBytes left r = (group.flatMap fun b => b.command.bytes) ++ replyBytes left' r := by
    unfold replyBytes
    rw [hsplit, List.flatMap_append, List.append_assoc]
  have hpart : (s.recvBuf.drop f.total).take (s.curRecvLen - f.total) =
      (replyBytes left' r).take (s.curRecvLen - f.total) := by
    rw [← List.drop_take, h.take, hreply, htot, List.drop_take, List.drop_left]
  have hcur := h.cur_le
  have hlen : ((s.recvBuf.drop f.total).take (s.curRecvLen - f.total)).length = s.curRecvLen - f.total := by
    rw [List.length_take, List.length_drop]
    omega
  refine ⟨group, left', { s with
    recvBuf := (s.recvBuf.drop f.total).take (s.curRecvLen - f.total) ++
      s.recvBuf.drop (s.curRecvLen - f.total)
    curRecvLen := s.curRecvLen - f.total
    type := f.type
    resdata := f.resdata
    flags := f.flags }, ?_, ⟨?_, hdata, hflags, ?_, ?_, ?_⟩, rfl, ?_⟩
  · unfold ClientRead.fetchData
    rw [hf, Option.map_some]
    dsimp only
    rw [if_pos hok]
  · rw [h.blocks, hsplit, List.append_assoc]
  · dsimp only
    rw [List.length_append, hlen]
    exact Nat.le_add_right _ _
  · dsimp only
    rw [List.take_left' hlen, hpart]
  · dsimp only
    rw [h.wire, hreply, List.drop_append, List.drop_eq_nil_of_le (by omega), List.nil_append, htot]
  · cases hstop with
    | block htype hpart => exact .block htype hpart
    | line hleft hpos htype =>
        have hbuf : s.recvBuf.drop f.total =
            (lineBytes r).take (s.curRecvLen - f.total) ++ s.recvBuf.drop s.curRecvLen := by
          have hlast : replyBytes left' r = lineBytes r := by
            rw [hleft]
            rfl
          rw [← hlast, ← hpart, ← Nat.add_sub_of_le hle, ← List.drop_drop, Nat.add_sub_cancel_left]
          exact (List.take_append_drop _ _).symm
        exact .line hleft (Nat.sub_pos_of_lt hpos) (htype.trans (congrArg getCmdType hbuf))

/-! ### A step -/

/-- The request goes on, and the reply has not come to its end. -/
structure Reading (blocks : List ValueBlock) (r : Reply) (s : Reader) : Prop where
  place : s.place = .poll ∨ s.place = .read
  wire : s.wire ≠ []
  holds : ∃ done left, Holds blocks r s done left

/-- After a step the request goes on; or it is over, and all is well unless the step was of the bad kind. -/
inductive Outcome (blocks : List ValueBlock) (r : Reply) (s : Reader) (e : Event) (s' : Reader) : Prop
  | reading (hno : NoType r s e) (h : Reading blocks r s')
  | returned (ok : Bool) (hplace : s'.place = .returned ok) (h : OneReply blocks s' ↔ NoType r s e)

theorem returned_false {e : Event} {s' : Reader} (hno : NoType r s e) (h : s'.place = .returned false) :
    Outcome blocks r s e s' := by
  refine .returned false h ⟨fun _ => hno, fun _ htrue => ?_⟩
  rw [h] at htrue
  cases htrue

theorem afterFetch_isReply {s₁ s' : Reader} (h : isReply s'.type = true) :
    afterFetch s₁ (some (true, s')) = { s' with place := .returned true } := by
  have hvalue : s'.type ≠ .value := fun heq => by
    rw [heq] at h
    cases h
  have hnotDef : s'.type ≠ .notDef := fun heq => by
    rw [heq] at h
    cases h
  unfold afterFetch
  dsimp only
  rw [if_neg hvalue, if_neg hnotDef, h]

section AfterFetch

variable {s' s₁ : Reader} {n : ℕ} {e : Event}

theorem reading_afterFetch (h : Holds blocks r s' done left) (hne : s'.wire ≠ [])
    (htype : s'.type = .value ∨ s'.type = .notDef) :
    Reading blocks r (afterFetch s₁ (some (true, s'))) := by
  rcases htype with htype | htype
  · unfold afterFetch
    dsimp only
    rw [if_pos htype]
    exact ⟨.inr rfl, hne, _, _, h.blocks, h.resdata, h.flags, h.cur_le, h.take, h.wire⟩
  · unfold afterFetch
    dsimp only
    rw [htype, if_neg (by decide), if_pos rfl]
    exact ⟨.inl rfl, hne, _, _, h.blocks, h.resdata, h.flags, h.cur_le, h.take, h.wire⟩

/-- What the type makes of the request. -/
theorem outcome_afterFetch (hplace : s.place = .poll ∨ s.place = .read) (hpos : 0 < taken s n)
    (hwire : s'.wire.length = s.wire.length - taken s n)
    (hdrop : s₁.recvBuf.drop s₁.curRecvLen = s.recvBuf.drop (s.curRecvLen + taken s n))
    (h : Holds blocks r s' done left) (hleft : Left r s₁ left s') :
    Outcome blocks r s (.bytes n) (afterFetch s₁ (some (true, s'))) := by
  have hlen := h.length_wire
  have hle := h.cur_le_reply
  have hline : 0 < (lineBytes r).length := by cases r <;> decide
  cases hleft with
  | block htype hpart =>
      have hno : NoType r s (.bytes n) := fun _ _ _ hlt => by omega
      exact .reading hno (reading_afterFetch h (List.ne_nil_of_length_pos (by omega)) htype)
  | line hnil hcur htype =>
      subst hnil
      have hreply : (replyBytes [] r).length = (lineBytes r).length := rfl
      have hcut : (lineBytes r).length - (s.wire.length - taken s n) = s'.curRecvLen := by omega
      rw [hdrop] at htype
      rcases Nat.eq_zero_or_pos s'.wire.length with hzero | hmore
      · have hwhole : s'.type = r.type := by
          rw [htype, List.take_of_length_le (by omega)]
          exact getCmdType_stream (.reply r) _
        have hdone : blocks = done := by rw [h.blocks, List.append_nil]
        have hreply : isReply s'.type = true := by
          rw [hwhole]
          cases r <;> rfl
        rw [afterFetch_isReply hreply]
        refine .returned true rfl ⟨fun _ _ _ hgt => by omega, fun _ _ => ⟨?_, ?_, ?_⟩⟩
        · exact List.eq_nil_of_length_eq_zero hzero
        · rw [hdone]
          exact h.resdata
        · rw [hdone]
          exact h.flags
      · have htake : ((lineBytes r).take s'.curRecvLen ++ s.recvBuf.drop (s.curRecvLen + taken s n)).take
            s'.curRecvLen = ((Command.reply r).bytes ++ []).take s'.curRecvLen := by
          rw [List.append_nil]
          exact List.take_left' (by rw [List.length_take]; omega)
        have hpart := getCmdType_part htake hcur
        rw [← htype] at hpart
        have hiff : NoType r s (.bytes n) ↔ s'.type = .notDef := by
          unfold NoType
          dsimp only
          rw [hcut, ← htype]
          exact ⟨fun hno => hno hplace hpos (by omega) (by omega), fun hnot _ _ _ _ => hnot⟩
        rcases hpart with hnot | hfirst
        · exact .reading (hiff.mpr hnot) (reading_afterFetch h (List.ne_nil_of_length_pos hmore) (.inr hnot))
        · have hreply := isReply_of_firstByte hfirst
          rw [afterFetch_isReply hreply]
          refine .returned true rfl ⟨fun hone => ?_, fun hno => ?_⟩
          · have hwire := (hone rfl).1
            exact absurd (congrArg List.length hwire) (Nat.ne_of_gt hmore)
          · rw [hiff.mp hno] at hreply
            cases hreply

end AfterFetch

theorem outcome_bytes (h : Reading blocks r s) (hfit : ∀ b ∈ blocks, b.Fits) (hkeys : DistinctKeys blocks)
    (n : ℕ) : Outcome blocks r s (.bytes n) (recv s (.bytes n)) := by
  obtain ⟨done, left, hholds⟩ := h.holds
  have hcur := hholds.cur_le
  have hlen : 0 < s.wire.length := List.length_pos_of_ne_nil h.wire
  unfold recv
  dsimp only
  split
  · rename_i hroom
    have hnone : taken s n = 0 := by
      unfold taken
      omega
    exact returned_false (fun _ hpos => by omega) rfl
  · rename_i hroom
    have hpos : 0 < taken s n := by
      unfold taken
      omega
    have hm : taken s n ≤ s.wire.length := by
      unfold taken
      omega
    rw [if_neg h.wire]
    obtain ⟨group, left', s', hfetch, hholds', hwire, hleft⟩ := (hholds.receive hm).fetchData hfit hkeys
    rw [hfetch]
    refine outcome_afterFetch h.place hpos ?_ (receive_drop hcur hm) hholds' hleft
    rw [hwire]
    exact List.length_drop

theorem outcome_recv (h : Reading blocks r s) (hfit : ∀ b ∈ blocks, b.Fits) (hkeys : DistinctKeys blocks)
    (e : Event) : Outcome blocks r s e (recv s e) := by
  obtain ⟨done, left, hholds⟩ := h.holds
  cases e with
  | timeout => exact .reading trivial h
  | bytes n => exact outcome_bytes h hfit hkeys n
  | again =>
      exact .reading trivial ⟨.inl rfl, h.wire, done, left, hholds.blocks, hholds.resdata, hholds.flags,
        hholds.cur_le, hholds.take, hholds.wire⟩
  | fail => exact returned_false trivial rfl

/-- **A step.** -/
theorem outcome_step (h : Reading blocks r s) (hfit : ∀ b ∈ blocks, b.Fits) (hkeys : DistinctKeys blocks)
    (e : Event) : Outcome blocks r s e (step s e) := by
  rcases h.place with hplace | hplace
  · have hstep : step s e = if e = .timeout then { s with place := .returned false }
        else recv { s with type := .notDef } e := by
      unfold step
      rw [hplace]
    rw [hstep]
    split
    · rename_i htimeout
      rw [htimeout]
      exact returned_false trivial rfl
    · obtain ⟨done, left, hholds⟩ := h.holds
      have hpolled : Reading blocks r { s with type := .notDef } :=
        ⟨.inl hplace, h.wire, done, left, hholds.blocks, hholds.resdata, hholds.flags, hholds.cur_le,
          hholds.take, hholds.wire⟩
      -- the type is no part of what the event is judged by
      have hno : NoType r { s with type := .notDef } e ↔ NoType r s e := by cases e <;> exact Iff.rfl
      cases outcome_recv hpolled hfit hkeys e with
      | reading hnotype hreading => exact .reading (hno.mp hnotype) hreading
      | returned ok hok hone => exact .returned ok hok (hone.trans hno)
  · have hstep : step s e = recv s e := by
      unfold step
      rw [hplace]
    rw [hstep]
    exact outcome_recv h hfit hkeys e

/-! ## Runs -/

/-- What has returned stays as it is. -/
theorem runOps_returned {ok : Bool} (h : s.place = .returned ok) (events : List Event) :
    runOps step s events = s ∧ StepsMeet step (NoType r) s events := by
  induction events with
  | nil => exact ⟨rfl, trivial⟩
  | cons e events ih =>
      have hstep : step s e = s := by
        unfold step
        rw [h]
      have hno : NoType r s e := by
        cases e with
        | bytes n =>
            rintro (hplace | hplace)
            all_goals
              rw [h] at hplace
              cases hplace
        | _ => exact trivial
      rw [runOps_cons, stepsMeet_cons, hstep]
      exact ⟨ih.1, hno, ih.2⟩

theorem oneReply_run (h : Reading blocks r s) (hfit : ∀ b ∈ blocks, b.Fits) (hkeys : DistinctKeys blocks)
    (events : List Event) :
    OneReply blocks (runOps step s events) ↔ StepsMeet step (NoType r) s events := by
  induction events generalizing s with
  | nil =>
      refine ⟨fun _ => trivial, fun _ hplace => ?_⟩
      rw [runOps_nil] at hplace
      rcases h.place with hpoll | hread
      · rw [hpoll] at hplace
        cases hplace
      · rw [hread] at hplace
        cases hplace
  | cons e events ih =>
      rw [runOps_cons, stepsMeet_cons]
      cases outcome_step h hfit hkeys e with
      | reading hno hreading =>
          rw [ih hreading]
          exact (and_iff_right hno).symm
      | returned ok hplace hone =>
          obtain ⟨hrun, hsteps⟩ := runOps_returned (r := r) hplace events
          rw [hrun, hone]
          exact (and_iff_left hsteps).symm

end Client

theorem reading_request (blocks : List ValueBlock) (r : Reply) (recvBuf : List Byte) :
    Reading blocks r (request recvBuf (replyBytes blocks r)) := by
  have hpos : 0 < (replyBytes blocks r).length :=
    Nat.lt_of_lt_of_le (by cases r <;> decide) (length_lineBytes_le blocks r)
  exact ⟨.inl rfl, List.ne_nil_of_length_pos hpos, [], blocks, rfl, rfl, rfl, Nat.zero_le _, rfl, rfl⟩

/-- **A request reads one reply exactly if nowhere in its run the received part of the last line
makes a type.** -/
theorem oneReply_iff (blocks : List ValueBlock) (r : Reply) (recvBuf : List Byte) (events : List Event)
    (hkeys : DistinctKeys blocks) (hfit : ∀ b ∈ blocks, b.Fits) :
    OneReply blocks (runOps step (request recvBuf (replyBytes blocks r)) events) ↔
      StepsMeet step (NoType r) (request recvBuf (replyBytes blocks r)) events :=
  oneReply_run (reading_request blocks r recvBuf) hfit hkeys events

/-- The end arrives, and its line break only when the request has returned. -/
theorem end_cut :
    ¬OneReply [] (runOps step (request (List.replicate 16 0) (replyBytes [] .end)) [.bytes 2]) := by
  intro h
  have hreturned : (runOps step (request (List.replicate 16 0) (replyBytes [] .end)) [.bytes 2]).place =
      .returned true := by decide +kernel
  exact absurd (h hreturned).1 (by decide +kernel)

/-- `VALUE k 1 2`, with the bytes `hi`. -/
def hiBlock : ValueBlock where
  key := ⟨ascii "k", by decide, by decide, by decide⟩
  flag := ⟨ascii "1", by decide, by decide⟩
  body := ⟨⟨ascii "2", by decide, by decide⟩, ascii "hi", by decide⟩

/-- A block in two parts, the line after it whole. -/
theorem oneReply_iff_hi : OneReply [hiBlock]
    (runOps step (request (List.replicate 32 0) (replyBytes [hiBlock] .end)) [.bytes 7, .again, .bytes 30]) := by
  refine (oneReply_iff [hiBlock] .end (List.replicate 32 0) _ ?_ ?_).mpr (by decide +kernel)
  · exact List.nodup_singleton _
  · intro b hb
    rw [List.mem_singleton.mp hb]
    exact ⟨by decide, by decide⟩

end Oce.MemcProxy.ClientRead
