import Oce.UtilCxx.Analysis.QuickLzFormat

/-!
# What `qlz_decompress_core` writes

Between two rounds the control word is the flags of the tokens that are left in the group, and what
has been written agrees with the source (`Reading`). The rounds rely on what the compressor keeps to:
a copy lies three bytes back at least, so that words may be copied three bytes apart
(`memcpyUp_copied`), and the text ends in four bytes that are sent as they are, so that neither the
words of a copy nor the four bytes of a literal go beyond the end.
-/

set_option autoImplicit false

namespace Oce.UtilCxx.QuickLz

open Oce.Base

variable {x : Bool} {source text before m m' m'' : Mem} {size : ℕ}

/-! ## Copying -/

/-- `n` bytes have been copied from `o` bytes before, and one more may have been written. -/
structure CopiedUp (m m' : Mem) (dst o n : ℕ) : Prop where
  below : ∀ i < dst, m' i = m i
  copied : ∀ j < n, m' (dst + j) = m' (dst + j - o)
  beyond : ∀ i, dst + n < i → m' i = m i

section Copy

variable {dst o n w : ℕ}

/-- The bytes that are copied next are no more than the copy lies back. -/
theorem CopiedUp.next (h : CopiedUp m m' dst o n) (hw : w ≤ o) (ho : o ≤ dst)
    (hbelow : ∀ i < dst + n, m'' i = m' i) (hnext : ∀ c < w, m'' (dst + n + c) = m' (dst + n + c - o))
    (hbeyond : ∀ i, dst + n + w < i → m'' i = m' i) : CopiedUp m m'' dst o (n + w) where
  below i hi := (hbelow i (by omega)).trans (h.below i hi)
  copied j hj := by
    by_cases hlt : j < n
    · rw [hbelow _ (by omega), hbelow _ (by omega), h.copied j hlt]
    · obtain ⟨c, rfl⟩ : ∃ c, j = n + c := ⟨j - n, by omega⟩
      rw [← Nat.add_assoc, hnext c (by omega), hbelow _ (by omega)]
  beyond i hi := (hbeyond i (by omega)).trans (h.beyond i (by omega))

/-- The words are copied one after the other. -/
theorem copyWords_copied (m : Mem) (hpos : 3 ≤ o) (ho : o ≤ dst) (k : ℕ) :
    CopiedUp m ((List.range k).foldl (fun m i =>
      m.writeLe (dst + 3 * i) (m.readLe (dst - o + 3 * i) 4) 4) m) dst o (3 * k) := by
  induction k with
  | zero => exact ⟨fun _ _ => rfl, by simp, fun _ _ => rfl⟩
  | succ k ih =>
      rw [List.range_succ, List.foldl_append]
      generalize (List.range k).foldl _ m = m' at ih ⊢
      simp only [List.foldl_cons, List.foldl_nil]
      have hword := Mem.holds_writeLe (m := m') (p := dst + 3 * k) (m'.readLe (dst - o + 3 * k) 4) 4
      have hread : m'.readLe (dst - o + 3 * k) 4 =
          (m'.writeLe (dst + 3 * k) (m'.readLe (dst - o + 3 * k) 4) 4).readLe (dst + 3 * k) 4 := by
        rw [hword.readLe, Nat.mod_eq_of_lt (Mem.readLe_lt _ _ _)]
      refine ih.next hpos ho (fun i hi => Mem.writeLe_of_not (.inl hi)) (fun c hc => ?_)
        fun i hi => Mem.writeLe_of_not (.inr (by omega))
      rw [← Mem.eq_of_readLe hread (by omega)]
      congr 1
      omega

theorem copyBytes_copied (m : Mem) (hpos : 0 < o) (ho : o ≤ dst) (k : ℕ) :
    CopiedUp m ((List.range k).foldl (fun m i => m.writeBytes (dst + i) [m (dst - o + i)]) m) dst o k := by
  induction k with
  | zero => exact ⟨fun _ _ => rfl, by simp, fun _ _ => rfl⟩
  | succ k ih =>
      rw [List.range_succ, List.foldl_append]
      generalize (List.range k).foldl _ m = m' at ih ⊢
      simp only [List.foldl_cons, List.foldl_nil]
      have hbyte := Mem.holds_writeBytes (m := m') (p := dst + k) [m' (dst - o + k)]
      refine ih.next hpos ho (fun i hi => Mem.writeBytes_of_not (.inl hi)) (fun c hc => ?_)
        fun i hi => Mem.writeBytes_of_not (.inr (by simp only [List.length_singleton]; omega))
      obtain rfl : c = 0 := by omega
      rw [Nat.add_zero, hbyte.1]
      congr 1
      omega

/-- **`memcpy_up`** copies as byte by byte, and goes three bytes too far at most. -/
theorem memcpyUp_copied (m : Mem) (hpos : 3 ≤ o) (ho : o ≤ dst) (hn : 0 < n) :
    ∃ k, n ≤ k ∧ k ≤ n + 2 ∧ CopiedUp m (memcpyUp x m dst (dst - o) n) dst o k := by
  unfold memcpyUp
  cases x with
  | true =>
      refine ⟨3 * max 1 ((n + 2) / 3), by omega, by omega, ?_⟩
      exact copyWords_copied m hpos ho _
  | false => exact ⟨n, le_refl n, by omega, copyBytes_copied m (by omega) ho n⟩

end Copy

/-! ## Between two rounds -/

/-- The tokens of `g` are left of the group, those of `gs` are in the groups after it, and what they
stand for is what is missing of the source. -/
structure Reading (source text before : Mem) (size : ℕ) (g : List Token) (gs : List (List Token)) (k : ℕ)
    (s : Decompressor) : Prop where
  held : Holds text s.src (tokensBytes g ++ streamBytes gs)
  cwordVal : s.cwordVal = flagWord (flags g) k
  grouped : Grouped gs
  padded : gs ≠ [] → k = 0
  sound : Along (Sound source size) s.dst (g ++ gs.flatten)
  missing : s.dst + span (g ++ gs.flatten) = size
  agrees : Agrees source s.destination s.dst
  beyond : ∀ i, size ≤ i → s.destination i = before i

variable {g : List Token} {gs : List (List Token)} {k : ℕ} {s s' : Decompressor} {t : Token}

theorem fastRead_four (p : ℕ) : fastRead x text p 4 = text.readLe p 4 := by
  unfold fastRead
  cases x <;> simp

theorem flagWord_lt {g : List Token} (h : g.length ≤ 31) : flagWord (flags g) (31 - g.length) < 256 ^ 4 := by
  have hbits := flagBits_lt (flags g)
  have hpow : 2 ^ g.length ≤ 2 ^ 31 := Nat.pow_le_pow_right (by norm_num) h
  rw [flagWord_eq, length_flags, Nat.add_sub_cancel' h]
  rw [length_flags] at hbits
  norm_num at hpow ⊢
  omega

namespace Reading

/-- **A used-up control word** is followed by the next group. -/
theorem load (h : Reading source text before size g gs k s) (hdst : s.dst < size) :
    ∃ t g' gs' k', Reading source text before size (t :: g') gs' k' (s.loadCword x text) ∧
      t :: g' ++ gs'.flatten = g ++ gs.flatten ∧ (s.cwordVal = 1 → (t :: g').length + k' = 31) := by
  have hmissing := h.missing
  unfold Decompressor.loadCword
  by_cases hone : s.cwordVal = 1
  · rw [if_pos hone]
    rw [h.cwordVal, flagWord_eq_one_iff] at hone
    have hempty : g = [] := by simpa [flags] using hone.1
    subst hempty
    cases gs with
    | nil =>
        simp only [List.flatten_nil, List.append_nil, span_nil] at hmissing
        omega
    | cons g' gs =>
        obtain ⟨hlen, hfull, hgrouped⟩ := h.grouped
        have hheld := h.held
        simp only [tokensBytes_nil, List.nil_append, streamBytes_cons, groupBytes, List.append_assoc] at hheld
        rw [Holds.append_iff, length_leBytes] at hheld
        have hword := hheld.1.readLe
        rw [Nat.mod_eq_of_lt (flagWord_lt hlen)] at hword
        cases g' with
        | nil =>
            have hnil : gs = [] := by
              by_contra hne
              simpa using hfull hne
            subst hnil
            simp only [List.nil_append, List.flatten_cons, List.flatten_nil, span_nil] at hmissing
            omega
        | cons t g' =>
            refine ⟨t, g', gs, 31 - (t :: g').length, ?_, rfl, fun _ => Nat.add_sub_cancel' hlen⟩
            refine ⟨hheld.2, ?_, hgrouped, fun hne => ?_, h.sound, hmissing, h.agrees, h.beyond⟩
            · rw [← hword]
              exact fastRead_four _
            · rw [hfull hne]
  · rw [if_neg hone]
    cases g with
    | nil =>
        have hpadded : gs = [] := by
          by_contra hne
          exact hone (by rw [h.cwordVal, h.padded hne]; rfl)
        subst hpadded
        simp only [List.nil_append, List.flatten_nil, span_nil] at hmissing
        omega
    | cons t g => exact ⟨t, g, gs, k, h, rfl, fun h => absurd h hone⟩

@[simp] theorem loadCword_dst (x : Bool) (text : Mem) (s : Decompressor) : (s.loadCword x text).dst = s.dst := by
  unfold Decompressor.loadCword
  split <;> rfl

@[simp] theorem loadCword_destination (x : Bool) (text : Mem) (s : Decompressor) :
    (s.loadCword x text).destination = s.destination := by
  unfold Decompressor.loadCword
  split <;> rfl

theorem flag (h : Reading source text before size (t :: g) gs k s) :
    s.cwordVal &&& 1 = t.isCopy.toNat := by
  rw [and_one, h.cwordVal]
  exact flagWord_cons_mod

/-- **A copy is read.** -/
theorem copyMatch {offset matchlen : ℕ}
    (h : Reading source text before size (.copy offset matchlen :: g) gs k s) :
    Reading source text before size g gs k (s.copyMatch x text) ∧
      (s.copyMatch x text).dst = s.dst + matchlen ∧ s.dst + matchlen + 4 ≤ size := by
  have hheld := h.held
  obtain ⟨⟨htells, hsendable, -, hend⟩, hsound⟩ := h.sound
  rw [tokensBytes_cons, List.append_assoc, tokenBytes, Holds.append_iff, length_leBytes] at hheld
  have hfetch : readMatch (fastRead x text s.src 4) =
      (offset, matchlen, (matchWord offset matchlen).2) := by
    have hfour := (matchWord_bytes hsendable).2.1
    obtain ⟨r, hr⟩ := hheld.1.readLe_four hfour (matchWord_lt hsendable)
    rw [fastRead_four, hr]
    apply readMatch_matchWord hsendable
    rw [← hr]
    exact Mem.readLe_lt _ _ _
  obtain ⟨ho, -, hm, -⟩ := hsendable
  obtain ⟨j, hj, hj', hcopied⟩ := memcpyUp_copied (x := x) (n := matchlen) s.destination ho htells.2.1
    (by omega)
  unfold Decompressor.copyMatch
  rw [hfetch]
  refine ⟨⟨hheld.2, ?_, h.grouped, h.padded, hsound, ?_, ?_, fun i hi => ?_⟩, rfl, hend⟩
  · dsimp only
    rw [shiftRight, pow_one, h.cwordVal]
    exact flagWord_cons_div
  · have := h.missing
    rw [List.cons_append, span_cons, Token.size_copy] at this
    dsimp only
    omega
  · exact (h.agrees.of_eq hcopied.below).copy htells fun i hi => hcopied.copied i (by omega)
  · exact (hcopied.beyond i (by omega)).trans (h.beyond i hi)

end Reading

/-! ## Literals -/

theorem literals_bytes {p : ℕ} {ts : List Token} (h : Along (Sound source size) p ts)
    (hlit : ∀ t ∈ ts, t.isCopy = false) : tokensBytes ts = source.bytes p ts.length := by
  induction ts generalizing p with
  | nil => rfl
  | cons t ts ih =>
      cases t with
      | lit b =>
          have hbyte : source p = b := h.1.1
          rw [tokensBytes_cons, ih h.2 fun t ht => hlit t (List.mem_cons_of_mem _ ht), tokenBytes,
            List.length_cons, Mem.bytes, hbyte]
          rfl
      | copy offset matchlen => simpa using hlit (.copy offset matchlen) (by simp)

/-- No copy begins among the last bytes. -/
theorem literals_of_late {p : ℕ} {ts : List Token} (h : Along (Sound source size) p ts)
    (hlate : size < p + 11) : ∀ t ∈ ts, t.isCopy = false := by
  induction ts generalizing p with
  | nil => simp
  | cons t ts ih =>
      intro t' ht'
      obtain rfl | hmem := List.mem_cons.mp ht'
      · cases t' with
        | lit b => rfl
        | copy offset matchlen =>
            have := h.1.2.2.1
            omega
      · exact ih h.2 (by omega) t' hmem

/-- Zeros that `bitlut` counts are there. -/
theorem bitlut_spec {w : ℕ} (h : w % 2 = 0) :
    1 ≤ bitlut.getD (w &&& 0xf) 0 ∧ bitlut.getD (w &&& 0xf) 0 ≤ 4 ∧
      w % 2 ^ bitlut.getD (w &&& 0xf) 0 = 0 := by
  have hmask : w &&& 0xf = w % 16 := and_mask w 4
  have htable : ∀ r < 16, r % 2 = 0 → 1 ≤ bitlut.getD r 0 ∧ bitlut.getD r 0 ≤ 4 ∧
      r % 2 ^ bitlut.getD r 0 = 0 := by decide
  obtain ⟨hone, hfour, hzero⟩ := htable (w % 16) (Nat.mod_lt _ (by norm_num)) (by omega)
  rw [hmask]
  refine ⟨hone, hfour, ?_⟩
  have hdvd : 2 ^ bitlut.getD (w % 16) 0 ∣ 16 := Nat.pow_dvd_pow 2 hfour
  rwa [Nat.mod_mod_of_dvd _ hdvd] at hzero

namespace Reading

/-- **Bytes are read** that were sent as they are. -/
theorem literals (h : Reading source text before size g gs k s) {j : ℕ} (hj : j ≤ g.length)
    (hlit : (flags g).take j = List.replicate j false) (hsrc : s'.src = s.src + j)
    (hdst : s'.dst = s.dst + j) (hval : s'.cwordVal = s.cwordVal / 2 ^ j)
    (hput : ∀ i < j, s'.destination (s.dst + i) = text (s.src + i))
    (hbelow : ∀ i < s.dst, s'.destination i = s.destination i)
    (hbeyond : ∀ i, size ≤ i → s'.destination i = s.destination i) :
    Reading source text before size (g.drop j) gs k s' := by
  have hnocopy : ∀ t ∈ g.take j, t.isCopy = false := by
    intro t ht
    have hmem : t.isCopy ∈ (flags g).take j := by
      rw [flags, ← List.map_take]
      exact List.mem_map_of_mem ht
    rw [hlit] at hmem
    exact List.eq_of_mem_replicate hmem
  have hlen : (g.take j).length = j := by simpa using hj
  have hheld := h.held
  have hsound := h.sound
  have hmissing := h.missing
  rw [← List.take_append_drop j g, List.append_assoc, along_append, span_eq_length hnocopy, hlen] at hsound
  rw [← List.take_append_drop j g, List.append_assoc, span_append, span_eq_length hnocopy, hlen] at hmissing
  have hbytes := literals_bytes hsound.1 hnocopy
  rw [← List.take_append_drop j g, tokensBytes_append, List.append_assoc, Holds.append_iff, hbytes, hlen,
    Mem.length_bytes] at hheld
  have hagree : ∀ i < j, text (s.src + i) = source (s.dst + i) := by
    intro i hi
    rw [hheld.1.getElem (i := i) (by simpa using hi)]
    exact ((Mem.holds_bytes source s.dst j).getElem (by simpa using hi)).symm
  refine ⟨hsrc ▸ hheld.2, ?_, h.grouped, h.padded, hdst ▸ hsound.2, by omega, ?_,
    fun i hi => (hbeyond i hi).trans (h.beyond i hi)⟩
  · rw [hval, h.cwordVal, flagWord_drop j hlit, flags, flags, List.map_drop]
  · intro i hi
    by_cases hlt : i < s.dst
    · exact (hbelow i hlt).trans (h.agrees i hlt)
    · obtain ⟨c, rfl⟩ : ∃ c, i = s.dst + c := ⟨i - s.dst, by omega⟩
      rw [hput c (by omega), hagree c (by omega)]

/-- **Up to four bytes** before the next copy. -/
theorem copyBytes (h : Reading source text before size (t :: g) gs k s) (hlit : t.isCopy = false)
    (hroom : s.dst + 11 < size) :
    ∃ g', Reading source text before size g' gs k (s.copyBytes text) ∧
      s.dst < (s.copyBytes text).dst ∧ (s.copyBytes text).dst < size := by
  have hflag := h.flag
  rw [and_one, hlit] at hflag
  obtain ⟨hone, hfour, hzero⟩ := bitlut_spec hflag
  have hval := h.cwordVal
  unfold Decompressor.copyBytes
  generalize hj : bitlut.getD (s.cwordVal &&& 0xf) 0 = j at *
  dsimp only
  rw [hval] at hzero
  obtain ⟨hle, htake⟩ := take_of_flagWord_mod hzero
  have hmany : j ≤ (t :: g).length := by
    by_contra hfew
    -- the places left empty are in the last group, which would end the text
    have hlast : gs = [] := by
      by_contra hne
      rw [h.padded hne, length_flags] at hle
      omega
    have hall : ∀ t' ∈ t :: g, t'.isCopy = false := by
      intro t' ht'
      have hmem : t'.isCopy ∈ (flags (t :: g)).take j := by
        rw [List.take_of_length_le (by rw [length_flags]; omega)]
        exact List.mem_map_of_mem ht'
      rw [htake] at hmem
      exact List.eq_of_mem_replicate hmem
    have hmissing := h.missing
    rw [hlast, List.flatten_nil, List.append_nil, span_eq_length hall] at hmissing
    omega
  rw [length_flags, Nat.min_eq_left hmany] at htake
  have hwritten := Mem.holds_writeBytes (m := s.destination) (p := s.dst) (text.bytes s.src 4)
  refine ⟨_, h.literals hmany htake rfl rfl (shiftRight _ _) (fun i hi => ?_) (fun i hi => ?_)
    (fun i hi => ?_), by omega, by omega⟩
  · dsimp only
    rw [hwritten.getElem (i := i) (by rw [Mem.length_bytes]; omega)]
    exact ((Mem.holds_bytes text s.src 4).getElem (by rw [Mem.length_bytes]; omega)).symm
  · exact Mem.writeBytes_of_not (.inl hi)
  · exact Mem.writeBytes_of_not (.inr (by rw [Mem.length_bytes]; omega))

/-- **The last bytes.** The control words are not looked at, since no copy is left. -/
theorem decompressLast (h : Reading source text before size g gs k s)
    (hlit : ∀ t ∈ g ++ gs.flatten, t.isCopy = false) {n : ℕ} (hn : s.dst + n = size) :
    Agrees source (decompressLast text n s).destination size ∧
      ∀ i, size ≤ i → (QuickLz.decompressLast text n s).destination i = before i := by
  induction n generalizing g gs k s with
  | zero =>
      rw [QuickLz.decompressLast]
      exact ⟨h.agrees.mono (by omega), h.beyond⟩
  | succ n ih =>
      obtain ⟨t, g', gs', k', hload, hsame, hnew⟩ := h.load (x := true) (by omega)
      rw [← hsame] at hlit
      have hnext : (if s.cwordVal = 1 then { s with src := s.src + CWORD_LEN, cwordVal := 1 <<< 31 } else s) =
          s.loadCword true text := by
        unfold Decompressor.loadCword
        by_cases hone : s.cwordVal = 1
        · rw [if_pos hone, if_pos hone]
          have hword := hload.cwordVal
          have hflags : flags (t :: g') = List.replicate (t :: g').length false ++ [] := by
            rw [List.append_nil, List.eq_replicate_iff, length_flags]
            refine ⟨rfl, fun f hf => ?_⟩
            obtain ⟨t', ht', rfl⟩ := List.mem_map.mp hf
            exact hlit t' (List.mem_append_left _ ht')
          rw [hflags, flagWord_replicate, flagWord, ← pow_add, hnew hone, Decompressor.loadCword,
            if_pos hone] at hword
          exact congrArg (fun w => { s with src := s.src + CWORD_LEN, cwordVal := w }) hword.symm
        · rw [if_neg hone, if_neg hone]
      rw [QuickLz.decompressLast, hnext]
      have hbyte := Mem.holds_writeBytes (m := (s.loadCword true text).destination)
        (p := (s.loadCword true text).dst) [text (s.loadCword true text).src]
      have hhead : t.isCopy = false := hlit t (by simp)
      refine ih (hload.literals (j := 1) (by simp) (by simp [flags, hhead]) rfl rfl (shiftRight _ _)
        (fun i hi => ?_) (fun i hi => Mem.writeBytes_of_not (.inl hi))
        fun i hi => Mem.writeBytes_of_not (.inr ?_)) (fun t' ht' => hlit t' (List.mem_cons_of_mem _ ht')) ?_
      · obtain rfl : i = 0 := by omega
        exact hbyte.1
      · simp only [loadCword_dst, List.length_singleton]
        omega
      · simp only [loadCword_dst]
        omega

end Reading

/-! ## The loop -/

/-- What the rounds keep: they are under way, or everything is written. -/
def Decompressing (source text before : Mem) (size : ℕ) (s : Decompressor) : Prop :=
  if s.returned then Agrees source s.destination size ∧ ∀ i, size ≤ i → s.destination i = before i
  else s.dst < size ∧ ∃ g gs k, Reading source text before size g gs k s

theorem loadCword_returned (x : Bool) (text : Mem) (s : Decompressor) : (s.loadCword x text).returned = s.returned := by
  unfold Decompressor.loadCword
  split <;> rfl

/-- **One round.** -/
theorem decompressRound_spec (h : Decompressing source text before size s) (hgoes : s.returned = false) :
    Decompressing source text before size (decompressRound x text size s) ∧
      ((decompressRound x text size s).returned = true ∨ s.dst < (decompressRound x text size s).dst) := by
  simp only [Decompressing, hgoes, Bool.false_eq_true, if_false] at h
  obtain ⟨hdst, g, gs, k, hread⟩ := h
  obtain ⟨t, g', gs', k', hload, -, -⟩ := hread.load (x := x) hdst
  have hflag := hload.flag
  have hreturned := loadCword_returned x text s
  have hsame := Reading.loadCword_dst x text s
  unfold decompressRound
  dsimp only
  generalize s.loadCword x text = s' at *
  rw [hgoes] at hreturned
  cases t with
  | copy offset matchlen =>
      rw [Token.isCopy_copy, Bool.toNat_true] at hflag
      rw [if_pos hflag]
      obtain ⟨hnext, hstep, hend⟩ := hload.copyMatch (x := x)
      have hpos : 0 < matchlen := hload.sound.1.2.size_pos
      refine ⟨?_, .inr (by omega)⟩
      unfold Decompressing
      rw [if_neg (by simp [Decompressor.copyMatch, hreturned])]
      exact ⟨by omega, _, _, _, hnext⟩
  | lit b =>
      rw [if_neg (by simp [hflag])]
      split
      case isTrue hroom =>
        obtain ⟨g'', hnext, hless, hlt⟩ := hload.copyBytes rfl hroom
        refine ⟨?_, .inr (by omega)⟩
        unfold Decompressing
        rw [if_neg (by simp [Decompressor.copyBytes, hreturned])]
        exact ⟨hlt, _, _, _, hnext⟩
      case isFalse hlate =>
        have hrest : ∀ t ∈ g' ++ gs'.flatten, t.isCopy = false :=
          literals_of_late hload.sound.2 (by
            simp only [UNCONDITIONAL_MATCHLEN, UNCOMPRESSED_END] at hlate
            simp only [Token.size_lit]
            omega)
        have hall : ∀ t ∈ Token.lit b :: g' ++ gs'.flatten, t.isCopy = false := by
          intro t ht
          obtain rfl | hmem := List.mem_cons.mp ht
          · rfl
          · exact hrest t hmem
        refine ⟨?_, .inl rfl⟩
        unfold Decompressing
        rw [if_pos rfl]
        exact hload.decompressLast hall (by omega)

/-- **The core** writes the source, and nothing beyond it, from any text that was sent for it. -/
theorem qlzDecompressCore_spec {gs : List (List Token)} (hsize : 0 < size) (hgrouped : Grouped gs)
    (hsound : Along (Sound source size) 0 gs.flatten) (hspan : span gs.flatten = size)
    (hheld : Holds text 0 (streamBytes gs)) :
    ∃ m, Returns (fun fuel => qlzDecompressCore x text size fuel before) (m, size) ∧
      Agrees source m size ∧ ∀ i, size ≤ i → m i = before i := by
  have hstart : Decompressing source text before size ⟨0, 0, 1, before, false⟩ := by
    unfold Decompressing
    rw [if_neg (by simp)]
    refine ⟨hsize, [], gs, 0, hheld, rfl, hgrouped, fun _ => rfl, hsound, ?_, ?_, fun _ _ => rfl⟩
    · simpa using hspan
    · intro i hi
      simp at hi
  obtain ⟨s, hloop, hs, hdone⟩ := whileLoop_total (fun s => !s.returned) (decompressRound x text size)
    (Decompressing source text before size) (fun s => if s.returned then 0 else 1 + (size - s.dst))
    (by
      intro s hs hcond
      have hgoes : s.returned = false := by simpa using hcond
      obtain ⟨hnext, hless⟩ := decompressRound_spec (x := x) hs hgoes
      refine ⟨hnext, ?_⟩
      simp only [Decompressing, hgoes, Bool.false_eq_true, if_false] at hs
      have hdst := hs.1
      rw [if_neg (show ¬ s.returned = true by simp [hgoes])]
      obtain hret | hlt := hless
      · rw [if_pos hret]
        omega
      · split <;> omega)
    hstart
  have hreturned : s.returned = true := by simpa using hdone
  rw [Decompressing, if_pos hreturned] at hs
  exact ⟨s.destination, hloop.map _, hs⟩

end Oce.UtilCxx.QuickLz
