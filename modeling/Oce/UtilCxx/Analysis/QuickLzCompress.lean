import Oce.UtilCxx.Analysis.QuickLzFormat

/-!
# What `qlz_compress_core` sends

At any time the destination holds the groups that are closed and, after the place kept for its
control word, the bytes of the group that is open (`Sending`). A match is what the loops have
compared byte by byte (`findMatch_found`), so that a copy is true of the source whatever the table
holds. The check on the length, made between two groups, keeps what is sent within the size and a
little more (`Sending.dst_le`).
-/

set_option autoImplicit false

namespace Oce.UtilCxx.QuickLz

open Oce.Base

variable {x : Bool} {source before m : Mem} {size : ℕ} {s s' : Compressor}

variable {o p i w : ℕ} {t : Token}

/-! ## Memory -/

theorem fastRead_three (p : ℕ) : fastRead x source p 3 % 2 ^ 24 = source.readLe p 3 := by
  have hlt := source.readLe_lt p 3
  have hfour := source.readLe_add p 3 1
  unfold fastRead
  cases x with
  | true =>
      simp only [Nat.one_le_ofNat, Nat.reduceLeDiff, and_self, if_true, hfour]
      omega
  | false =>
      simp only [Nat.one_le_ofNat, Nat.reduceLeDiff, and_self, if_true, Bool.false_eq_true, if_false]
      omega

/-- Three bytes that are the same. -/
theorem sameThree_bytes (h : sameThree x source o (fastRead x source p 3) = true) {j : ℕ}
    (hj : j < 3) : source (o + j) = source (p + j) := by
  unfold sameThree at h
  rw [decide_eq_true_eq, show (0xffffff : ℕ) = 2 ^ 24 - 1 from rfl, and_mask, Nat.xor_mod_two_pow,
    fastRead_three, fastRead_three, Nat.xor_eq_zero_iff] at h
  exact Mem.eq_of_readLe h hj

section Write

variable {f dst n : ℕ}

theorem fastWrite_eq (x : Bool) (m : Mem) (f dst : ℕ) (hn : 1 ≤ n) (hn' : n ≤ 4) :
    ∃ k, n ≤ k ∧ k ≤ n + 1 ∧ (n ≠ 3 → k = n) ∧ fastWrite x m f dst n = m.writeLe dst f k := by
  unfold fastWrite
  rw [if_pos ⟨hn, hn'⟩]
  by_cases hthree : x = true ∧ n = 3
  · rw [if_pos hthree]
    exact ⟨4, hn', by omega, fun h => absurd hthree.2 h, rfl⟩
  · rw [if_neg hthree]
    exact ⟨n, le_refl n, by omega, fun _ => rfl, rfl⟩

theorem holds_fastWrite (hn : 1 ≤ n) (hn' : n ≤ 4) :
    Holds (fastWrite x m f dst n) dst (leBytes f n) := by
  obtain ⟨k, hk, -, -, he⟩ := fastWrite_eq x m f dst hn hn'
  rw [he]
  exact Mem.holds_writeLe_of_le hk

/-- Beside the bytes that are meant, one may be written. -/
theorem fastWrite_of_not (hn : 1 ≤ n) (hn' : n ≤ 4) (hi : i < dst ∨ dst + n < i) :
    fastWrite x m f dst n i = m i := by
  obtain ⟨k, -, hk, -, he⟩ := fastWrite_eq x m f dst hn hn'
  rw [he]
  exact Mem.writeLe_of_not (by omega)

theorem fastWrite_four_of_not (hi : i < dst ∨ dst + 4 ≤ i) : fastWrite x m f dst 4 i = m i := by
  obtain ⟨k, -, -, hk, he⟩ := fastWrite_eq x m f dst (n := 4) (by norm_num) (by norm_num)
  rw [he, hk (by norm_num)]
  exact Mem.writeLe_of_not hi

end Write

/-! ## Matches -/

/-- The match is none, or one that has been compared. -/
def Match.Found (source : Mem) (size src : ℕ) (best : Match) : Prop :=
  best.matchlen = 0 ∨
    best.offset2 + 2 < src ∧ 3 ≤ best.matchlen ∧ best.matchlen ≤ remaining size src ∧
      ∀ j < best.matchlen, source (best.offset2 + j) = source (src + j)

theorem matchEnd_spec {len : ℕ} (left : ℕ) (h : ∀ j < len, source (o + j) = source (p + j)) :
    len ≤ matchEnd source o p left len ∧ matchEnd source o p left len ≤ len + left ∧
      ∀ j < matchEnd source o p left len, source (o + j) = source (p + j) := by
  induction left generalizing len with
  | zero => exact ⟨le_refl _, le_refl _, h⟩
  | succ left ih =>
      rw [matchEnd]
      split
      case isTrue hsame =>
        have hnext : ∀ j < len + 1, source (o + j) = source (p + j) := by
          intro j hj
          obtain hlt | rfl := Nat.lt_succ_iff_lt_or_eq.mp hj
          · exact h j hlt
          · exact hsame
        obtain ⟨hle, hle', hall⟩ := ih hnext
        exact ⟨by omega, by omega, hall⟩
      case isFalse => exact ⟨le_refl _, by omega, h⟩

theorem mayMatch_iff : s.mayMatch size = true ↔ s.src + 11 ≤ size := by
  unfold Compressor.mayMatch
  exact decide_eq_true_iff

/-- Where a match may begin, seven bytes may be compared at least. -/
theorem remaining_spec (hmay : s.mayMatch size = true) :
    7 ≤ remaining size s.src ∧ remaining size s.src ≤ 255 ∧ s.src + remaining size s.src + 4 ≤ size := by
  rw [mayMatch_iff] at hmay
  unfold remaining UNCOMPRESSED_END
  split <;> omega

section Find

variable {best : Match} {k : ℕ}

/-- What is found stands in the source. -/
theorem firstMatch_found (hmay : s.mayMatch size = true) :
    (firstMatch x source size s (fastRead x source s.src 3)).Found source size s.src := by
  obtain ⟨hseven, -, -⟩ := remaining_spec hmay
  unfold firstMatch
  dsimp only
  split
  case isTrue h =>
    obtain ⟨hbefore, -, hsame⟩ := h
    have hthree : ∀ j < 3, source (s.hashtable (hashFunc (fastRead x source s.src 3)) 0 + j) =
        source (s.src + j) := fun j hj => sameThree_bytes hsame hj
    split
    case isTrue hfourth =>
      have hfour : ∀ j < 4, source (s.hashtable (hashFunc (fastRead x source s.src 3)) 0 + j) =
          source (s.src + j) := by
        intro j hj
        obtain hlt | rfl := Nat.lt_succ_iff_lt_or_eq.mp hj
        · exact hthree j hlt
        · exact hfourth
      obtain ⟨hle, hle', hall⟩ := matchEnd_spec (remaining size s.src - 4) hfour
      refine .inr ⟨hbefore, ?_, ?_, hall⟩
      · dsimp only
        omega
      · dsimp only
        omega
    case isFalse => exact .inr ⟨hbefore, le_refl 3, by dsimp only; omega, hthree⟩
  case isFalse => exact .inl rfl

theorem nextMatch_found (hmay : s.mayMatch size = true) (h : best.Found source size s.src) :
    (nextMatch x source size s (fastRead x source s.src 3) best k).Found source size s.src := by
  obtain ⟨hseven, -, -⟩ := remaining_spec hmay
  unfold nextMatch
  dsimp only
  split
  case isTrue hsame =>
    split
    case isTrue =>
      obtain ⟨hle, hle', hall⟩ := matchEnd_spec (remaining size s.src - 3)
        fun j hj => sameThree_bytes hsame.1 hj
      refine .inr ⟨hsame.2, hle, ?_, hall⟩
      dsimp only
      omega
    case isFalse => exact h
  case isFalse => exact h

/-- **What the loops find has been compared.** -/
theorem findMatch_found (hmay : s.mayMatch size = true) :
    (findMatch x source size s (fastRead x source s.src 3)).Found source size s.src :=
  run_invariant_all (fun _ _ h => nextMatch_found hmay h) (firstMatch_found hmay) _

/-- A match that is taken is a copy that is true of the source. -/
theorem Match.Found.sound (h : best.Found source size s.src) (hmay : s.mayMatch size = true)
    (hlen : best.matchlen > 2) (hnear : s.src - best.offset2 < 131071) :
    Sound source size s.src (.copy (s.src - best.offset2) best.matchlen) := by
  obtain ⟨-, hmax, hfits⟩ := remaining_spec hmay
  obtain hzero | ⟨hbefore, hthree, hle, hall⟩ := h
  · omega
  refine ⟨⟨by omega, by omega, fun j hj => ?_⟩, ⟨by omega, hnear, hthree, by omega⟩,
    mayMatch_iff.mp hmay, by omega⟩
  rw [← hall j hj]
  congr 1
  omega

end Find

/-! ## What has been sent -/

/-- The groups in `closed` and the tokens of the open group have been sent, which are true of the
source as far as it has been read; `before` is what the destination held before. -/
structure Sending (source before : Mem) (size : ℕ) (closed : List (List Token)) (group : List Token)
    (s : Compressor) : Prop where
  full : ∀ g ∈ closed, g.length = 31
  short : group.length ≤ 31
  cwordPtr : s.cwordPtr = (streamBytes closed).length
  dst : s.dst = s.cwordPtr + 4 + (tokensBytes group).length
  cwordVal : s.cwordVal = openWord 31 (flags group)
  sent : Holds s.destination 0 (streamBytes closed)
  sending : Holds s.destination (s.cwordPtr + 4) (tokensBytes group)
  src : s.src = span (closed.flatten ++ group)
  sound : Along (Sound source size) 0 (closed.flatten ++ group)
  beyond : ∀ i, s.dst < i → s.destination i = before i

variable {closed : List (List Token)} {group : List Token}

theorem Fits.end_le (h : Fits size p t) : p + t.size ≤ size := by
  cases t with
  | lit b => exact h
  | copy offset matchlen =>
      have := h.2.2
      simp only [Token.size_copy]
      omega

theorem Along.end_le {ts : List Token} (h : Along (Sound source size) p ts) (hp : p ≤ size) :
    p + span ts ≤ size := by
  induction ts generalizing p with
  | nil => simpa using hp
  | cons t ts ih =>
      have := ih h.2 h.1.2.end_le
      simp only [span_cons]
      omega

namespace Sending

theorem init (hashtable : ℕ → ℕ → ℕ) (hashCounter : ℕ → UInt8) :
    Sending source before size [] [] (.init before hashtable hashCounter) where
  full := by simp
  short := by simp
  cwordPtr := rfl
  dst := rfl
  cwordVal := by simp [Compressor.init, flags, Nat.shiftLeft_eq]
  sent := trivial
  sending := trivial
  src := rfl
  sound := trivial
  beyond _ _ := rfl

theorem src_le (h : Sending source before size closed group s) : s.src ≤ size := by
  have := Along.end_le h.sound (Nat.zero_le size)
  have := h.src
  omega

/-- **One more token.** -/
theorem token (h : Sending source before size closed group s) (hlen : group.length < 31)
    (ht : Sound source size s.src t) (hptr : s'.cwordPtr = s.cwordPtr)
    (hdst : s'.dst = s.dst + (tokenBytes t).length)
    (hval : s'.cwordVal = s.cwordVal / 2 + 2 ^ 31 * t.isCopy.toNat)
    (hsrc : s'.src = s.src + t.size) (hheld : Holds s'.destination s.dst (tokenBytes t))
    (hbelow : ∀ i < s.dst, s'.destination i = s.destination i)
    (hbeyond : ∀ i, s'.dst < i → s'.destination i = s.destination i) :
    Sending source before size closed (group ++ [t]) s' where
  full := h.full
  short := by simp; omega
  cwordPtr := hptr.trans h.cwordPtr
  dst := by
    have := h.dst
    simp only [tokensBytes_append, tokensBytes_cons, tokensBytes_nil, List.append_nil, List.length_append]
    omega
  cwordVal := by
    have hflags : (flags group).length < 31 := by simpa using hlen
    rw [hval, h.cwordVal, openWord_concat hflags]
    simp [flags]
  sent := by
    apply h.sent.of_agrees
    intro i _ hi
    have := h.dst
    have := h.cwordPtr
    exact hbelow i (by omega)
  sending := by
    have hdst := h.dst
    rw [tokensBytes_append, Holds.append_iff]
    refine ⟨?_, ?_⟩
    · rw [hptr]
      apply h.sending.of_agrees
      intro i _ hi
      exact hbelow i (by omega)
    · rw [hptr, ← hdst]
      simpa using hheld
  src := by
    rw [hsrc, h.src, ← List.append_assoc, span_append (closed.flatten ++ group)]
    simp
  sound := by
    rw [← List.append_assoc, along_append]
    refine ⟨h.sound, ?_⟩
    rw [Nat.zero_add, ← h.src]
    exact ⟨ht, trivial⟩
  beyond i hi := (hbeyond i hi).trans (h.beyond i (by omega))

/-- What the destination holds once the control word is written. -/
theorem holds_word (h : Sending source before size closed group s) (w : ℕ) :
    Holds (fastWrite x s.destination w s.cwordPtr CWORD_LEN) 0
      (streamBytes closed ++ (leBytes w 4 ++ tokensBytes group)) := by
  have hptr := h.cwordPtr
  rw [Holds.append_iff]
  refine ⟨?_, ?_⟩
  · apply h.sent.of_agrees
    intro i _ hi
    exact fastWrite_four_of_not (.inl (by omega))
  · rw [Nat.zero_add, ← hptr, Holds.append_iff, length_leBytes]
    refine ⟨holds_fastWrite (by decide) (by decide), ?_⟩
    apply h.sending.of_agrees
    intro i hi _
    exact fastWrite_four_of_not (.inr hi)

/-- The group with its control word. -/
theorem holds_flush (h : Sending source before size closed group s)
    (hw : w >>> 1 ||| 1 <<< 31 = flagWord (flags group) (31 - group.length)) :
    Holds (fastWrite x s.destination (w >>> 1 ||| 1 <<< 31) s.cwordPtr CWORD_LEN) 0
      (streamBytes (closed ++ [group])) := by
  rw [streamBytes_append, streamBytes_cons, streamBytes_nil, List.append_nil, groupBytes, ← hw]
  exact h.holds_word _

/-- The bytes that have been sent, control words and tokens. -/
theorem dst_eq (h : Sending source before size closed group s) :
    s.dst = 4 * (closed.length + 1) + (tokensBytes (closed.flatten ++ group)).length := by
  have hall : ∀ gs : List (List Token),
      (streamBytes gs).length = 4 * gs.length + (tokensBytes gs.flatten).length := by
    intro gs
    induction gs with
    | nil => rfl
    | cons g gs ih =>
        simp only [streamBytes_cons, List.flatten_cons, tokensBytes_append, List.length_append,
          length_groupBytes, List.length_cons]
        omega
  have hdst := h.dst
  have hptr := h.cwordPtr
  have hclosed := hall closed
  simp only [tokensBytes_append, List.length_append]
  omega

theorem flush_of_not (h : Sending source before size closed group s) (hi : s.dst < i) :
    fastWrite x s.destination w s.cwordPtr CWORD_LEN i = before i := by
  have hdst := h.dst
  exact (fastWrite_four_of_not (.inr (by omega))).trans (h.beyond i hi)

/-- **A group is full** when the marker of its control word has come to the bottom. -/
theorem full_iff (h : Sending source before size closed group s) :
    s.cwordVal &&& 1 = 1 ↔ group.length = 31 := by
  have hflags : (flags group).length ≤ 31 := by simpa using h.short
  rw [and_one, h.cwordVal, openWord_mod hflags, length_flags]

theorem cwordVal_lt (h : Sending source before size closed group s) : s.cwordVal < 2 ^ 32 := by
  rw [h.cwordVal]
  exact openWord_lt (by simpa using h.short)

/-- **A full group is closed.** -/
theorem nextCword (h : Sending source before size closed group s) (hfull : group.length = 31) :
    Sending source before size (closed ++ [group]) [] (s.nextCword x) where
  full := by
    intro g hg
    obtain hg | hg := List.mem_append.mp hg
    · exact h.full g hg
    · exact (List.mem_singleton.mp hg) ▸ hfull
  short := by simp
  cwordPtr := by
    have hdst := h.dst
    have hptr := h.cwordPtr
    simp only [Compressor.nextCword, streamBytes_append, streamBytes_cons, streamBytes_nil,
      List.append_nil, List.length_append, length_groupBytes]
    omega
  dst := rfl
  cwordVal := by simp [Compressor.nextCword, flags, Nat.shiftLeft_eq]
  sent := by
    apply h.holds_flush
    have hword := @flagWord_of_full (flags group) 31 (by simp [hfull])
    rw [length_flags, hfull] at hword
    rw [mark h.cwordVal_lt, h.cwordVal, hfull, hword]
  sending := trivial
  src := by simpa [Compressor.nextCword] using h.src
  sound := by simpa using h.sound
  beyond i hi := h.flush_of_not (by simp only [Compressor.nextCword] at hi; omega)

theorem putByte (h : Sending source before size closed group s) (hlen : group.length < 31)
    (hsrc : s.src < size) :
    Sending source before size closed (group ++ [.lit (source s.src)]) (s.putByte source) := by
  refine h.token hlen ⟨rfl, hsrc⟩ rfl rfl ?_ rfl (Mem.holds_writeBytes _) ?_ ?_
  · simp [Compressor.putByte, shiftRight]
  · intro i hi
    exact Mem.writeBytes_of_not (.inl hi)
  · intro i hi
    refine Mem.writeBytes_of_not (.inr ?_)
    simp only [Compressor.putByte] at hi
    simp only [List.length_singleton]
    omega

end Sending

/-! ## One token -/

/-- The states differ in their tables at most. -/
structure SameText (s s' : Compressor) : Prop where
  src : s'.src = s.src
  dst : s'.dst = s.dst
  cwordPtr : s'.cwordPtr = s.cwordPtr
  cwordVal : s'.cwordVal = s.cwordVal
  destination : s'.destination = s.destination

theorem SameText.trans {s'' : Compressor} (h : SameText s s') (h' : SameText s' s'') : SameText s s'' :=
  ⟨h'.src.trans h.src, h'.dst.trans h.dst, h'.cwordPtr.trans h.cwordPtr, h'.cwordVal.trans h.cwordVal,
    h'.destination.trans h.destination⟩

theorem remember_sameText (x : Bool) (source : Mem) (s : Compressor) (p : ℕ) : SameText s (remember x source s p) :=
  ⟨rfl, rfl, rfl, rfl, rfl⟩

theorem rememberAll_sameText (x : Bool) (source : Mem) (start : ℕ) (us : List ℕ) (s : Compressor) :
    SameText s (us.foldl (fun s u => remember x source s (start + u)) s) := by
  induction us generalizing s with
  | nil => exact ⟨rfl, rfl, rfl, rfl, rfl⟩
  | cons u us ih => exact (remember_sameText x source s (start + u)).trans (ih _)

/-- The token that `compressToken` sends. -/
def chosen (x : Bool) (source : Mem) (size : ℕ) (s : Compressor) : Token :=
  let best := findMatch x source size s (fastRead x source s.src 3)
  if best.matchlen > 2 ∧ s.src - best.offset2 < 131071 then .copy (s.src - best.offset2) best.matchlen
  else .lit (source s.src)

namespace Sending

theorem sameText (h : Sending source before size closed group s) (hs : SameText s s') :
    Sending source before size closed group s' where
  full := h.full
  short := h.short
  cwordPtr := hs.cwordPtr.trans h.cwordPtr
  dst := by rw [hs.dst, hs.cwordPtr, h.dst]
  cwordVal := hs.cwordVal.trans h.cwordVal
  sent := by rw [hs.destination]; exact h.sent
  sending := by rw [hs.destination, hs.cwordPtr]; exact h.sending
  src := hs.src.trans h.src
  sound := h.sound
  beyond := by rw [hs.destination, hs.dst]; exact h.beyond

/-- **A copy is sent.** -/
theorem putMatch (h : Sending source before size closed group s) (hlen : group.length < 31)
    {offset matchlen : ℕ} (ht : Sound source size s.src (.copy offset matchlen)) :
    Sending source before size closed (group ++ [.copy offset matchlen])
      ({ s with cwordVal := s.cwordVal >>> 1 ||| 1 <<< 31, src := s.src + matchlen }.putMatch x offset
        matchlen) := by
  obtain ⟨hone, hfour, -⟩ := matchWord_bytes ht.2.1
  rw [putMatch_eq]
  refine h.token hlen ht rfl ?_ ?_ rfl (holds_fastWrite hone hfour) ?_ ?_
  · simp [Compressor.put, tokenBytes]
  · exact (mark h.cwordVal_lt).trans (by simp)
  · intro i hi
    exact fastWrite_of_not hone hfour (.inl hi)
  · intro i hi
    exact fastWrite_of_not hone hfour (.inr hi)

/-- **What `compressToken` sends is one more token.** -/
theorem compressToken (h : Sending source before size closed group s) (hlen : group.length < 31)
    (hmay : s.mayMatch size = true) :
    Sending source before size closed (group ++ [chosen x source size s])
      (compressToken x source size s) := by
  have hfound : (findMatch x source size s (fastRead x source s.src 3)).Found source size s.src :=
    findMatch_found hmay
  have hremember := remember_sameText x source s s.src
  unfold QuickLz.compressToken chosen
  dsimp only
  rw [hremember.src]
  generalize findMatch x source size s (fastRead x source s.src 3) = best at hfound ⊢
  by_cases htake : best.matchlen > 2 ∧ s.src - best.offset2 < 131071
  · rw [if_pos htake, if_pos htake]
    have hsound := hfound.sound hmay htake.1 htake.2
    have hall := rememberAll_sameText x source s.src
      (List.range' 1 (best.matchlen - 1)) (remember x source s s.src)
    have hsame := hremember.trans hall
    rw [← hsame.src] at hsound
    have hput := (h.sameText hsame).putMatch (x := x) hlen hsound
    rwa [hsame.src] at hput
  · rw [if_neg htake, if_neg htake]
    rw [mayMatch_iff] at hmay
    have hput := (h.sameText hremember).putByte hlen (by rw [hremember.src]; omega)
    rwa [hremember.src] at hput

/-- The source is read on with every token. -/
theorem src_lt (h : Sending source before size closed group s)
    (h' : Sending source before size closed (group ++ [t]) s') : s.src < s'.src := by
  have hsound := h'.sound
  rw [← List.append_assoc, along_append] at hsound
  have hpos := hsound.2.1.2.size_pos
  rw [h.src, h'.src, ← List.append_assoc, span_append (closed.flatten ++ group), span_cons]
  omega

/-! ## How much is sent -/

/-- Control words are a thirty-first of what is sent for the closed groups at most. -/
theorem cwordPtr_le (h : Sending source before size closed group s) :
    s.cwordPtr ≤ 4 * (span closed.flatten / 31) + span closed.flatten := by
  have hsound := (along_append.mp h.sound).1
  have hfull : 31 * closed.length = closed.flatten.length := by
    rw [List.length_flatten, List.eq_replicate_of_mem (a := 31) (l := closed.map List.length)
      (by simpa using h.full)]
    simp [Nat.mul_comm]
  have hcount := length_le_span hsound
  have hbytes := length_tokensBytes_le hsound
  have hdst := h.dst
  have hall := h.dst_eq
  simp only [tokensBytes_append, List.length_append] at hall
  omega

/-- The check on the length, in terms of where the open group began. -/
def Checked (size : ℕ) (closed : List (List Token)) (s : Compressor) : Prop :=
  span closed.flatten ≤ 3 * (size / 4) ∨
    s.cwordPtr ≤ span closed.flatten - span closed.flatten / 32

/-- **What is sent while the checks are made** is hardly more than the size. -/
theorem dst_le (h : Sending source before size closed group s) (hchecked : Checked size closed s) :
    s.dst ≤ size + 128 := by
  have hsound := (along_append.mp h.sound).2
  have hptr := h.cwordPtr_le
  have hdst := h.dst
  have hsrc := h.src
  have hle := h.src_le
  have hfour := length_tokensBytes_le_four hsound
  have hbytes := length_tokensBytes_le hsound
  have hshort := h.short
  rw [span_append] at hsrc
  obtain hearly | hratio := hchecked
  · omega
  · omega

/-- The number of bytes for a short text. -/
theorem dst_le_short (h : Sending source before size closed group s) :
    s.dst ≤ s.src + 4 * (s.src / 31) + 4 := by
  have hsound := h.sound
  have hptr := h.cwordPtr_le
  have hdst := h.dst
  have hsrc := h.src
  rw [span_append] at hsrc
  have hbytes := length_tokensBytes_le (along_append.mp hsound).2
  have hclosed := length_tokensBytes_le (along_append.mp hsound).1
  omega

end Sending

/-! ## The loops -/

/-- What the rounds of the first loop keep. -/
def Compressing (source before : Mem) (size : ℕ) (s : Compressor) : Prop :=
  ∃ closed group, Sending source before size closed group s ∧ Sending.Checked size closed s

/-- What the rounds of the second loop keep: five bytes are enough for one of the source. -/
def Finishing (source before : Mem) (size : ℕ) (s : Compressor) : Prop :=
  ∃ closed group, Sending source before size closed group s ∧ s.dst + 5 * (size - s.src) ≤ size + 178

theorem compressToken_fields (s : Compressor) :
    (compressToken x source size s).cwordPtr = s.cwordPtr := by
  have hremember := (remember_sameText x source s s.src).cwordPtr
  unfold compressToken
  dsimp only
  split
  case isTrue =>
    rw [putMatch_eq]
    exact (rememberAll_sameText x source s.src _ _).cwordPtr.trans hremember
  case isFalse => exact hremember

/-- **A round of the first loop.** It gives up or reads on. -/
theorem compressRound_spec (h : Compressing source before size s) (hmay : s.mayMatch size = true) :
    Compressing source before size (compressRound x source size s) ∧
      ((compressRound x source size s).stored = true ∧ (compressRound x source size s).src = s.src ∨
        s.src < (compressRound x source size s).src) := by
  obtain ⟨closed, group, hs, hchecked⟩ := h
  unfold compressRound
  split
  case isTrue hfull =>
    rw [hs.full_iff] at hfull
    split
    case isTrue => exact ⟨⟨closed, group, hs.sameText ⟨rfl, rfl, rfl, rfl, rfl⟩, hchecked⟩, .inl ⟨rfl, rfl⟩⟩
    case isFalse hratio =>
      have hnext := hs.nextCword (x := x) hfull
      have ht := hnext.compressToken (x := x) (by simp) hmay
      refine ⟨⟨_, _, ht, ?_⟩, .inr (hnext.src_lt ht)⟩
      -- the check on the length was made just now
      have hsrc := hnext.src
      rw [List.append_nil] at hsrc
      have hsrc' : (s.nextCword x).src = s.src := rfl
      have hptr : (s.nextCword x).cwordPtr = s.dst := rfl
      unfold Sending.Checked
      rw [compressToken_fields, hptr, ← hsrc, hsrc']
      have hcheck : ¬ (s.src > 3 * (size >>> 2) ∧ s.dst > s.src - (s.src >>> 5)) := by
        simpa [Compressor.tooLong] using hratio
      rw [shiftRight, shiftRight] at hcheck
      omega
  case isFalse hopen =>
    rw [hs.full_iff] at hopen
    have hshort := hs.short
    have ht := hs.compressToken (x := x) (by omega) hmay
    refine ⟨⟨_, _, ht, ?_⟩, .inr (hs.src_lt ht)⟩
    unfold Sending.Checked at hchecked ⊢
    rwa [compressToken_fields]

/-- **A round of the second loop.** -/
theorem compressLast_spec (h : Finishing source before size s) (hsrc : s.src < size) :
    Finishing source before size (compressLast x source s) ∧
      (compressLast x source s).src = s.src + 1 := by
  obtain ⟨closed, group, hs, hroom⟩ := h
  unfold compressLast
  split
  case isTrue hfull =>
    rw [hs.full_iff] at hfull
    have hput := (hs.nextCword (x := x) hfull).putByte (by simp) hsrc
    refine ⟨⟨_, _, hput, ?_⟩, rfl⟩
    simp only [Compressor.putByte, Compressor.nextCword, CWORD_LEN]
    omega
  case isFalse hopen =>
    rw [hs.full_iff] at hopen
    have hshort := hs.short
    have hput := hs.putByte (by omega) hsrc
    refine ⟨⟨_, _, hput, ?_⟩, rfl⟩
    simp only [Compressor.putByte]
    omega

/-- The marker of an open group is moved to the bottom. -/
theorem shiftCword_returns {fs : List Bool} {n : ℕ} (h : fs.length ≤ n) :
    Returns (fun fuel => shiftCword fuel (openWord n fs)) (openWord fs.length fs) := by
  obtain ⟨_, hret, ⟨i, rfl, hle⟩, hodd⟩ := whileLoop_total (fun w => decide (w &&& 1 ≠ 1)) (fun w => w >>> 1)
    (fun w => ∃ i, w = openWord (n - i) fs ∧ i + fs.length ≤ n) (fun w => w)
    (by
      rintro w ⟨i, rfl, hi⟩ hw
      have hmod : ¬ (openWord (n - i) fs % 2 = 1) := by simpa [and_one] using hw
      rw [openWord_mod (by omega)] at hmod
      have hshift := @openWord_shift fs (n - i) 1 (by omega)
      rw [pow_one] at hshift
      refine ⟨⟨i + 1, ?_, by omega⟩, ?_⟩
      · rw [shiftRight, pow_one, hshift, Nat.sub_sub]
      · rw [shiftRight, pow_one]
        refine Nat.div_lt_self ?_ (by norm_num)
        exact Nat.mul_pos (Nat.two_pow_pos _) (by omega))
    (s := openWord n fs) ⟨0, rfl, by omega⟩
  have hmod : openWord (n - i) fs % 2 = 1 := by simpa [and_one] using hodd
  rw [openWord_mod (by omega)] at hmod
  rwa [← hmod] at hret

/-! ## The result -/

/-- The first `n` bytes of `m` are a compressed text for the source, in the groups `gs`. -/
structure Sent (source : Mem) (size : ℕ) (gs : List (List Token)) (m : Mem) (n : ℕ) : Prop where
  grouped : Grouped gs
  sound : Along (Sound source size) 0 gs.flatten
  span : span gs.flatten = size
  held : Holds m 0 (streamBytes gs)
  length : n = max 9 (streamBytes gs).length

/-- **The core** sends the source in groups of tokens, or gives up, and leaves what is far enough
beyond the size alone. -/
theorem qlzCompressCore_spec (source before : Mem) (hashtable : ℕ → ℕ → ℕ) (hashCounter : ℕ → UInt8)
    (hsize : 0 < size) :
    ∃ m n, Returns (fun fuel => qlzCompressCore x source size fuel before hashtable hashCounter) (m, n) ∧
      (n = 0 ∨ ∃ gs, Sent source size gs m n) ∧ n ≤ size + 178 ∧
      (n ≤ size + 4 * (size / 31) + 4 ∨ n = 9) ∧ ∀ i, size + 178 < i → m i = before i := by
  obtain ⟨s, hloop, ⟨closed, group, hs, hchecked⟩, hend⟩ := whileLoop_total
    (fun s => s.mayMatch size && !s.stored) (compressRound x source size) (Compressing source before size)
    (fun s => 2 * (size - s.src) + if s.stored then 0 else 1)
    (by
      intro s hs hcond
      obtain ⟨hmay, hgoes⟩ : s.mayMatch size = true ∧ s.stored = false := by simpa using hcond
      obtain ⟨hnext, hless⟩ := compressRound_spec (x := x) hs hmay
      refine ⟨hnext, ?_⟩
      rw [mayMatch_iff] at hmay
      obtain ⟨hstored, hsrc⟩ | hsrc := hless
      · rw [hstored, hsrc, hgoes]
        simp
      · rw [hgoes]
        split <;> simp <;> omega)
    (s := .init before hashtable hashCounter) ⟨[], [], .init hashtable hashCounter, .inl (Nat.zero_le _)⟩
  have hdst := hs.dst_le hchecked
  have hle := hs.src_le
  cases hstored : s.stored with
  | true =>
      refine ⟨s.destination, 0, ?_, .inl rfl, by omega, .inl (by omega), fun i hi => hs.beyond i (by omega)⟩
      unfold qlzCompressCore
      refine hloop.bind ?_
      simp only [hstored, if_true]
      exact returns_const _
  | false =>
      have hlate : size < s.src + 11 := by
        have hnot : ¬ s.mayMatch size = true := by simpa [hstored] using hend
        rw [mayMatch_iff] at hnot
        omega
      obtain ⟨t, hlast, ⟨closed', group', ht, hroom⟩, hdone⟩ := whileLoop_total (fun s => s.src + 1 ≤ size)
        (compressLast x source) (Finishing source before size) (fun s => size - s.src)
        (by
          intro s hs hcond
          have hsrc : s.src < size := of_decide_eq_true hcond
          obtain ⟨hnext, hstep⟩ := compressLast_spec (x := x) hs hsrc
          exact ⟨hnext, by omega⟩)
        (s := s) ⟨closed, group, hs, by omega⟩
      have hsrc : t.src = size := by
        have := ht.src_le
        have hnot : ¬ t.src + 1 ≤ size := by simpa using hdone
        omega
      have hflags : (flags group').length ≤ 31 := by simpa using ht.short
      have hshift := shiftCword_returns hflags
      have hword : openWord (flags group').length (flags group') >>> 1 ||| 1 <<< 31 =
          flagWord (flags group') (31 - group'.length) := by
        have hlt := openWord_lt (le_refl (flags group').length)
        have hpow : 2 ^ ((flags group').length + 1) ≤ 2 ^ 32 := Nat.pow_le_pow_right (by norm_num) (by omega)
        rw [mark (by omega), flagWord_of_full hflags, length_flags]
      refine ⟨fastWrite x t.destination (openWord (flags group').length (flags group') >>> 1 ||| 1 <<< 31)
        t.cwordPtr CWORD_LEN, if t.dst < 9 then 9 else t.dst, ?_,
        .inr ⟨closed' ++ [group'], ?_⟩, ?_, ?_, fun i hi => ht.flush_of_not (by omega)⟩
      · unfold qlzCompressCore
        refine hloop.bind ?_
        simp only [hstored, Bool.false_eq_true, if_false]
        refine hlast.bind ?_
        rw [← ht.cwordVal] at hshift
        exact hshift.map _
      · have hlen : t.dst = (streamBytes (closed' ++ [group'])).length := by
          have hdst := ht.dst
          have hptr := ht.cwordPtr
          simp only [streamBytes_append, streamBytes_cons, streamBytes_nil, List.append_nil,
            List.length_append, length_groupBytes]
          omega
        refine ⟨grouped_concat ht.full ht.short, by simpa using ht.sound, ?_, ht.holds_flush hword, ?_⟩
        · have := ht.src
          simp only [List.flatten_append, List.flatten_cons, List.flatten_nil, List.append_nil]
          omega
        · rw [← hlen]
          split <;> omega
      · split <;> omega
      · have := ht.dst_le_short
        rw [hsrc] at this
        split
        · exact .inr rfl
        · exact .inl this

end Oce.UtilCxx.QuickLz
