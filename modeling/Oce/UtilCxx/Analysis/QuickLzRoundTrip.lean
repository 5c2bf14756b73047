import Oce.UtilCxx.Analysis.QuickLzCompress
import Oce.UtilCxx.Analysis.QuickLzDecompress

/-!
# What is compressed can be decompressed

`Compressed` says what the first `r` bytes of a text are when `qlz_compress` has returned `r`: a
header that tells both sizes, and the groups of tokens or, where these would not have been shorter,
the source itself. It is what the compressor leaves (`qlzCompress_spec`), does not depend on what
comes after the `r` bytes (`Compressed.of_agrees`), and is all the decompressor needs
(`Compressed.decompress`).
-/

set_option autoImplicit false

namespace Oce.UtilCxx.QuickLz

open Oce.Base

variable {x : Bool} {source text before : Mem} {size r n c : ℕ}

/-! ## The header -/

/-- The header, whose sizes take `n` bytes each. -/
def header (n c r size : ℕ) : List UInt8 :=
  UInt8.ofNat (headerByte (if n = 4 then 2 else 0) c) :: (leBytes r n ++ leBytes size n)

/-- Sizes that take `n` bytes, and what the header says of the text. -/
structure Headed (text : Mem) (n c r size : ℕ) : Prop where
  width : n = 1 ∨ n = 4
  flag : c ≤ 1
  r_lt : r < 256 ^ n
  size_lt : size < 256 ^ n
  held : Holds text 0 (header n c r size)

theorem headerByte_spec (hn : n = 1 ∨ n = 4) (hc : c ≤ 1) :
    (if (UInt8.ofNat (headerByte (if n = 4 then 2 else 0) c)).toNat &&& 2 = 2 then 4 else 1) = n ∧
      (UInt8.ofNat (headerByte (if n = 4 then 2 else 0) c)).toNat &&& 1 = c := by
  have hbit : c = 0 ∨ c = 1 := by omega
  obtain rfl | rfl := hn <;> obtain rfl | rfl := hbit <;> decide

/-- A number of the header. -/
theorem readSize {p v : ℕ} (hn : n = 1 ∨ n = 4) (hv : v < 256 ^ n) (h : Holds text p (leBytes v n)) :
    fastRead x text p n &&& (0xffffffff >>> ((4 - n) * 8)) = v := by
  obtain ⟨k, hk⟩ := h.readLe_four (by omega) hv
  have hexact := h.readLe
  rw [Nat.mod_eq_of_lt hv] at hexact
  have hread : fastRead x text p n % 256 ^ n = v := by
    unfold fastRead
    rw [if_pos (by omega)]
    cases x with
    | true => rw [if_pos rfl, hk, Nat.add_mul_mod_self_left, Nat.mod_eq_of_lt hv]
    | false => rw [if_neg (by simp), hexact, Nat.mod_eq_of_lt hv]
  obtain rfl | rfl := hn
  · exact (and_mask _ 8).trans hread
  · exact (and_mask _ 32).trans hread

namespace Headed

theorem bytes (h : Headed text n c r size) :
    text 0 = UInt8.ofNat (headerByte (if n = 4 then 2 else 0) c) ∧ Holds text 1 (leBytes r n) ∧
      Holds text (1 + n) (leBytes size n) := by
  have hheld := h.held
  rw [header, Holds.cons_iff, Holds.append_iff, length_leBytes] at hheld
  exact hheld

@[simp] theorem headerWidth (h : Headed text n c r size) : headerWidth text = n := by
  unfold QuickLz.headerWidth
  rw [h.bytes.1]
  exact (headerByte_spec h.width h.flag).1

theorem compressed (h : Headed text n c r size) : (text 0).toNat &&& 1 = c := by
  rw [h.bytes.1]
  exact (headerByte_spec h.width h.flag).2

theorem sizeCompressed (h : Headed text n c r size) : qlzSizeCompressed x text = r := by
  unfold qlzSizeCompressed
  dsimp only
  rw [h.headerWidth]
  exact readSize h.width h.r_lt h.bytes.2.1

theorem sizeDecompressed (h : Headed text n c r size) : qlzSizeDecompressed x text = size := by
  unfold qlzSizeDecompressed
  dsimp only
  rw [h.headerWidth]
  exact readSize h.width h.size_lt h.bytes.2.2

end Headed

@[simp] theorem length_header (n c r size : ℕ) : (header n c r size).length = 2 * n + 1 := by
  simp [header]
  omega

/-- The header is written, and nothing else. -/
theorem writeHeader_spec (x : Bool) (size r c : ℕ) (m : Mem) (hn : n = 1 ∨ n = 4) :
    Holds (writeHeader x size (2 * n + 1) r c m) 0 (header n c r size) ∧
      ∀ i, 2 * n + 1 ≤ i → writeHeader x size (2 * n + 1) r c m i = m i := by
  unfold writeHeader
  obtain rfl | rfl := hn
  · rw [if_pos (by norm_num)]
    exact ⟨Mem.holds_writeBytes _, fun i hi => Mem.writeBytes_of_not (.inr (by simpa using hi))⟩
  · rw [if_neg (by norm_num)]
    refine ⟨⟨?_, Holds.append_iff.mpr ⟨?_, ?_⟩⟩, fun i hi => ?_⟩
    · rw [fastWrite_four_of_not (.inl (by norm_num)), fastWrite_four_of_not (.inl (by norm_num))]
      exact (Holds.cons_iff.mp (Mem.holds_writeBytes _)).1
    · apply (holds_fastWrite (by norm_num) (by norm_num)).of_agrees
      intro i _ hi
      rw [length_leBytes] at hi
      exact fastWrite_four_of_not (.inl (by omega))
    · rw [length_leBytes]
      exact holds_fastWrite (by norm_num) (by norm_num)
    · rw [fastWrite_four_of_not (.inr (by omega)), fastWrite_four_of_not (.inr (by omega))]
      exact Mem.writeBytes_of_not (.inr (by simp only [List.length_singleton]; omega))

/-! ## Compressed texts -/

/-- What comes after the header. -/
def Body (source : Mem) (size c : ℕ) (l : List UInt8) : Prop :=
  c = 0 ∧ l = source.bytes 0 size ∨
    c = 1 ∧ ∃ gs, Grouped gs ∧ Along (Sound source size) 0 gs.flatten ∧ span gs.flatten = size ∧
      l = streamBytes gs

/-- The first `r` bytes of the text are a compressed text for the source. -/
def Compressed (source : Mem) (size r : ℕ) (text : Mem) : Prop :=
  ∃ n c l, Headed text n c r size ∧ Body source size c l ∧ Holds text (2 * n + 1) l ∧
    2 * n + 1 + l.length ≤ r

namespace Compressed

/-- **Only the `r` bytes matter.** -/
theorem of_agrees {text' : Mem} (h : Compressed source size r text) (hsame : ∀ i < r, text' i = text i) :
    Compressed source size r text' := by
  obtain ⟨n, c, l, hhead, hbody, hheld, hlen⟩ := h
  refine ⟨n, c, l, ⟨hhead.width, hhead.flag, hhead.r_lt, hhead.size_lt, ?_⟩, hbody, ?_, hlen⟩
  · apply hhead.held.of_agrees
    intro i _ hi
    rw [length_header] at hi
    exact hsame i (by omega)
  · apply hheld.of_agrees
    intro i _ hi
    exact hsame i (by omega)

theorem sizeCompressed (h : Compressed source size r text) : qlzSizeCompressed x text = r := by
  obtain ⟨n, c, l, hhead, -⟩ := h
  exact hhead.sizeCompressed

theorem sizeDecompressed (h : Compressed source size r text) : qlzSizeDecompressed x text = size := by
  obtain ⟨n, c, l, hhead, -⟩ := h
  exact hhead.sizeDecompressed

/-- **A compressed text is decompressed**, and nothing beyond the size is written. -/
theorem decompress (h : Compressed source size r text) (hsize : 0 < size) (before : Mem) :
    ∃ m, Returns (fun fuel => qlzDecompress x text fuel before) (m, size) ∧ Agrees source m size ∧
      ∀ i, size ≤ i → m i = before i := by
  obtain ⟨n, c, l, hhead, hbody, hheld, -⟩ := h
  have hflag := hhead.compressed
  unfold qlzDecompress
  simp only [hhead.headerWidth, hhead.sizeDecompressed, hflag]
  obtain ⟨rfl, rfl⟩ | ⟨rfl, gs, hgrouped, hsound, hspan, rfl⟩ := hbody
  · simp only [zero_ne_one, if_false]
    have hbytes := hheld.bytes_eq
    rw [Mem.length_bytes] at hbytes
    rw [hbytes]
    have hwritten := Mem.holds_writeBytes (m := before) (p := 0) (source.bytes 0 size)
    refine ⟨_, returns_const _, fun i hi => ?_, fun i hi => ?_⟩
    · have hcopy := hwritten.getElem (i := i) (by simpa using hi)
      have hsource := (Mem.holds_bytes source 0 size).getElem (i := i) (by simpa using hi)
      rw [Nat.zero_add] at hcopy hsource
      exact hcopy.trans hsource.symm
    · exact Mem.writeBytes_of_not (.inr (by simpa using hi))
  · simp only [if_true]
    exact qlzDecompressCore_spec hsize hgrouped hsound hspan (Mem.holds_from hheld)

end Compressed

/-- What is made of the core's result: where it has given up, the source follows the header. -/
def finish (x : Bool) (source : Mem) (size : ℕ) (before : Mem) (base : ℕ) (p : Mem × ℕ) : Mem × ℕ :=
  if p.2 = 0 then
    (writeHeader x size base (size + base) 0
      ((before.splice base p.1).writeBytes base (source.bytes 0 size)), size + base)
  else (writeHeader x size base (base + p.2) 1 (before.splice base p.1), base + p.2)

/-- The core works behind the header. -/
theorem qlzCompress_eq (source before : Mem) (hashtable : ℕ → ℕ → ℕ) {base : ℕ} (hsize : 0 < size)
    (hmax : size ≤ 0xffffffff - 400) (hbase : (if size < 216 then 3 else 9) = base) (fuel : ℕ) :
    qlzCompress x source size fuel before hashtable =
      (qlzCompressCore x source size fuel (before.from' base) hashtable resetState).map
        (finish x source size before base) := by
  unfold qlzCompress within
  rw [if_neg (show ¬ (size = 0 ∨ size > 0xffffffff - 400) by omega)]
  simp only [hbase, Option.map_map]
  congr 1
  funext p
  simp only [finish, Function.comp_apply, Nat.add_eq_left]

/-- The sizes of a short text take a byte each. -/
theorem headerlen_spec (size : ℕ) :
    ∃ n, (n = 1 ∨ n = 4) ∧ (if size < 216 then 3 else 9) = 2 * n + 1 ∧ (n = 1 → size < 216) := by
  by_cases hshort : size < 216
  · exact ⟨1, .inl rfl, by simp [hshort], fun _ => hshort⟩
  · exact ⟨4, .inr rfl, by simp [hshort], by norm_num⟩

/-- **What `qlz_compress` leaves.** -/
theorem qlzCompress_spec (source before : Mem) (hashtable : ℕ → ℕ → ℕ) (hsize : 0 < size)
    (hmax : size ≤ 0xffffffff - 400) :
    ∃ m r, Returns (fun fuel => qlzCompress x source size fuel before hashtable) (m, r) ∧
      Compressed source size r m ∧ r ≤ size + 400 ∧ ∀ i, size + 400 ≤ i → m i = before i := by
  obtain ⟨n, hn, hbase, hwidth⟩ := headerlen_spec size
  obtain ⟨m, len, hcore, hsent, hlen, hshort, hbeyond⟩ := qlzCompressCore_spec (x := x) source
    (before.from' (2 * n + 1)) hashtable resetState hsize
  have hlt : ∀ k, k = len ∨ k = size → k + (2 * n + 1) < 256 ^ n := by
    intro k hk
    obtain rfl | rfl := hn
    · have := hwidth rfl
      omega
    · norm_num at hmax ⊢
      omega
  have hsize_lt : size < 256 ^ n := Nat.lt_of_le_of_lt (Nat.le_add_right _ _) (hlt size (.inr rfl))
  have hfar : ∀ i, size + 400 ≤ i → before.splice (2 * n + 1) m i = before i := by
    intro i hi
    rw [Mem.splice, if_neg (by omega), hbeyond _ (by omega), Mem.from']
    congr 1
    omega
  have hreturn := hcore.map (finish x source size before (2 * n + 1))
  simp only [qlzCompress_eq source before hashtable hsize hmax hbase]
  obtain rfl | ⟨gs, hgs⟩ := hsent
  · simp only [finish, if_true] at hreturn
    refine ⟨_, _, hreturn, ?_, by omega, fun i hi => ?_⟩
    all_goals
      obtain ⟨hhead, hrest⟩ := writeHeader_spec x size (size + (2 * n + 1)) 0
        ((before.splice (2 * n + 1) m).writeBytes (2 * n + 1) (source.bytes 0 size)) hn
    · refine ⟨n, 0, source.bytes 0 size, ⟨hn, by norm_num, hlt size (.inr rfl), hsize_lt, hhead⟩,
        .inl ⟨rfl, rfl⟩, ?_, by simp; omega⟩
      exact (Mem.holds_writeBytes _).of_agrees fun i hi _ => hrest i hi
    · rw [hrest i (by omega), Mem.writeBytes_of_not (.inr (by simp; omega))]
      exact hfar i hi
  · have hpos : len ≠ 0 := by
      have := hgs.length
      omega
    simp only [finish, hpos, if_false] at hreturn
    obtain ⟨hhead, hrest⟩ := writeHeader_spec x size (2 * n + 1 + len) 1
      (before.splice (2 * n + 1) m) hn
    refine ⟨_, _, hreturn, ?_, by omega, fun i hi => (hrest i (by omega)).trans (hfar i hi)⟩
    have hr := hlt len (.inl rfl)
    refine ⟨n, 1, streamBytes gs, ⟨hn, by norm_num, by omega, hsize_lt, hhead⟩,
      .inr ⟨rfl, gs, hgs.grouped, hgs.sound, hgs.span, rfl⟩, ?_, ?_⟩
    · exact (Mem.holds_splice hgs.held).of_agrees fun i hi _ => hrest i hi
    · have := hgs.length
      omega

/-- **What is compressed can be decompressed**, by either version of the code whichever of them has
compressed it, whatever was in the scratch memory and in the destinations and whatever follows the
compressed text; both sizes are in its header, and no byte beyond the room that is asked for is
written. -/
theorem qlzDecompress_qlzCompress (y : Bool) (source before : Mem) (hashtable : ℕ → ℕ → ℕ)
    (hsize : 0 < size) (hmax : size ≤ 0xffffffff - 400) :
    ∃ m r, Returns (fun fuel => qlzCompress x source size fuel before hashtable) (m, r) ∧
      r ≤ size + 400 ∧ (∀ i, size + 400 ≤ i → m i = before i) ∧
      ∀ text : Mem, (∀ i < r, text i = m i) →
        qlzSizeCompressed y text = r ∧ qlzSizeDecompressed y text = size ∧
          ∀ before' : Mem, ∃ m', Returns (fun fuel => qlzDecompress y text fuel before') (m', size) ∧
            (∀ i < size, m' i = source i) ∧ ∀ i, size ≤ i → m' i = before' i := by
  obtain ⟨m, r, hreturn, hcompressed, hle, hbeyond⟩ := qlzCompress_spec (x := x) source before hashtable
    hsize hmax
  refine ⟨m, r, hreturn, hle, hbeyond, fun text htext => ?_⟩
  have htext := hcompressed.of_agrees htext
  exact ⟨htext.sizeCompressed, htext.sizeDecompressed, fun before' => htext.decompress hsize before'⟩

/-- A text of 300 bytes, compressed on one kind of processor and decompressed on the other. -/
theorem qlzDecompress_qlzCompress_rings :
    ∃ m r, Returns (fun fuel => qlzCompress true (fun i => UInt8.ofNat (i % 7)) 300 fuel (fun _ => 1)
        fun _ k => k) (m, r) ∧
      r ≤ 300 + 400 ∧ (∀ i, 300 + 400 ≤ i → m i = 1) ∧
      ∀ text : Mem, (∀ i < r, text i = m i) →
        qlzSizeCompressed false text = r ∧ qlzSizeDecompressed false text = 300 ∧
          ∀ before' : Mem, ∃ m', Returns (fun fuel => qlzDecompress false text fuel before') (m', 300) ∧
            (∀ i < 300, m' i = UInt8.ofNat (i % 7)) ∧ ∀ i, 300 ≤ i → m' i = before' i :=
  qlzDecompress_qlzCompress false _ (fun _ => 1) _ (by norm_num) (by norm_num)

end Oce.UtilCxx.QuickLz

/-!
## What a compressed text depends on

Two calls that are given the same bytes, by either version of the code, with anything in the scratch
memory, in the destination and after the bytes, go side by side and send the same tokens (`Alike`):
an entry of the table is looked at only after it has been written in the same call, and points to
bytes that have been passed by then. Thus nothing that an earlier call left behind gets into the
compressed text, or into the choice of the matches.
-/

namespace Oce.UtilCxx.QuickLz

open Oce.Base

variable {x y : Bool} {source source' before before' : Mem} {size p q : ℕ}
  {s s' : Compressor}

/-! ## Three bytes -/

/-- Only three bytes go into the hash, whatever has been read. -/
theorem hashFunc_fastRead (p : ℕ) : hashFunc (fastRead x source p 3) = hashFunc (source.readLe p 3) := by
  have hlow : ∀ i, hashFunc i = (i % 2 ^ 24 / 2 ^ 12) ^^^ (i % 2 ^ 12) := by
    intro i
    unfold hashFunc QLZ_HASH_VALUES
    rw [shiftRight, show 4096 - 1 = 2 ^ 12 - 1 from rfl, and_mask, Nat.xor_mod_two_pow]
    congr 1
    omega
  have hthree : fastRead x source p 3 % 2 ^ 24 = source.readLe p 3 := fastRead_three p
  have hlt := source.readLe_lt p 3
  rw [hlow, hlow, hthree, Nat.mod_eq_of_lt (show source.readLe p 3 < 2 ^ 24 by norm_num at hlt ⊢; omega)]
  congr 1
  omega

theorem sameThree_eq (o p : ℕ) :
    sameThree x source o (fastRead x source p 3) = decide (source.readLe o 3 = source.readLe p 3) := by
  unfold sameThree
  rw [show (0xffffff : ℕ) = 2 ^ 24 - 1 from rfl, and_mask, Nat.xor_mod_two_pow, fastRead_three,
    fastRead_three]
  simp only [Nat.xor_eq_zero_iff]

/-! ## The tables -/

/-- The entries of the table that count. -/
def Live (s : Compressor) (hash k : ℕ) : Prop := k < QLZ_POINTERS ∧ k < (s.hashCounter hash).toNat

/-- The states differ in what is left from before at most; the entries that count point to places
before `q`. -/
structure Alike (q : ℕ) (s s' : Compressor) : Prop where
  src : s'.src = s.src
  dst : s'.dst = s.dst
  cwordPtr : s'.cwordPtr = s.cwordPtr
  cwordVal : s'.cwordVal = s.cwordVal
  stored : s'.stored = s.stored
  hashCounter : s'.hashCounter = s.hashCounter
  hashtable : ∀ hash k, Live s hash k → s'.hashtable hash k = s.hashtable hash k
  known : ∀ hash k, Live s hash k → s.hashtable hash k < q

/-- The first `size` bytes are the same. -/
abbrev SameBytes (source source' : Mem) (size : ℕ) : Prop := Agrees source source' size

theorem readLe_same (hsource : SameBytes source source' size) (hp : p + 3 ≤ size) :
    source'.readLe p 3 = source.readLe p 3 :=
  Mem.readLe_congr fun j hj => hsource _ (by omega)

/-- An entry that counts after a place has been entered was entered just now, or counted before. -/
theorem remember_live {hash k : ℕ} (h : Live (remember x source s p) hash k) :
    hash = hashFunc (fastRead x source p 3) ∧
        k = (s.hashCounter hash).toNat &&& (QLZ_POINTERS - 1) ∨ Live s hash k := by
  obtain ⟨hk, hcount⟩ := h
  unfold remember at hcount
  dsimp only at hcount
  by_cases hhash : hash = hashFunc (fastRead x source p 3)
  · rw [hhash, Function.update_self] at hcount
    rw [← hhash] at hcount
    by_cases hold : k < (s.hashCounter hash).toNat
    · exact .inr ⟨hk, hold⟩
    · refine .inl ⟨hhash, ?_⟩
      have hlt : (s.hashCounter hash).toNat < 256 := (s.hashCounter hash).toNat_lt
      rw [UInt8.toNat_add, UInt8.toNat_one] at hcount
      unfold QLZ_POINTERS at hk ⊢
      rw [show 16 - 1 = 2 ^ 4 - 1 from rfl, and_mask]
      omega
  · rw [Function.update_of_ne hhash] at hcount
    exact .inr ⟨hk, hcount⟩

namespace Alike

/-- **The same place is entered** under the same hash. -/
theorem remember (h : Alike q s s') (hsource : SameBytes source source' size) (hp : p + 3 ≤ size)
    {q' : ℕ} (hq : q ≤ q') (hpq : p < q') :
    Alike q' (remember x source s p) (remember y source' s' p) := by
  have hhash : hashFunc (fastRead y source' p 3) = hashFunc (fastRead x source p 3) := by
    rw [hashFunc_fastRead, hashFunc_fastRead, readLe_same hsource hp]
  have hcounter := h.hashCounter
  refine ⟨h.src, h.dst, h.cwordPtr, h.cwordVal, h.stored, ?_, fun hash k hlive => ?_, fun hash k hlive => ?_⟩
  · simp only [QuickLz.remember, hhash, hcounter]
  all_goals
    have hbefore := remember_live hlive
    simp only [QuickLz.remember, hhash, hcounter]
    by_cases hthis : hash = hashFunc (fastRead x source p 3)
  · subst hthis
    rw [Function.update_self, Function.update_self]
    by_cases hk : k = (s.hashCounter (hashFunc (fastRead x source p 3))).toNat &&& (QLZ_POINTERS - 1)
    · rw [hk, Function.update_self, Function.update_self]
    · rw [Function.update_of_ne hk, Function.update_of_ne hk]
      obtain ⟨-, heq⟩ | hold := hbefore
      · exact absurd heq hk
      · exact h.hashtable _ _ hold
  · rw [Function.update_of_ne hthis, Function.update_of_ne hthis]
    obtain ⟨heq, -⟩ | hold := hbefore
    · exact absurd heq hthis
    · exact h.hashtable _ _ hold
  · subst hthis
    rw [Function.update_self]
    by_cases hk : k = (s.hashCounter (hashFunc (fastRead x source p 3))).toNat &&& (QLZ_POINTERS - 1)
    · rw [hk, Function.update_self]
      exact hpq
    · rw [Function.update_of_ne hk]
      obtain ⟨-, heq⟩ | hold := hbefore
      · exact absurd heq hk
      · exact Nat.lt_of_lt_of_le (h.known _ _ hold) hq
  · rw [Function.update_of_ne hthis]
    obtain ⟨heq, -⟩ | hold := hbefore
    · exact absurd heq hthis
    · exact Nat.lt_of_lt_of_le (h.known _ _ hold) hq

theorem rememberAll (h : Alike q s s') (hsource : SameBytes source source' size) {start q' : ℕ}
    {us : List ℕ} (hus : ∀ u ∈ us, start + u + 3 ≤ size ∧ start + u < q') (hq : q ≤ q') :
    Alike q' (us.foldl (fun s u => QuickLz.remember x source s (start + u)) s)
      (us.foldl (fun s u => QuickLz.remember y source' s (start + u)) s') := by
  induction us generalizing q s s' with
  | nil => exact ⟨h.src, h.dst, h.cwordPtr, h.cwordVal, h.stored, h.hashCounter, h.hashtable,
      fun hash k hlive => Nat.lt_of_lt_of_le (h.known hash k hlive) hq⟩
  | cons u us ih =>
      obtain ⟨hsize, hlt⟩ := hus u (by simp)
      exact ih (h.remember (x := x) (y := y) hsource hsize hq hlt)
        (fun u hu => hus u (List.mem_cons_of_mem _ hu)) (le_refl q')

end Alike

/-! ## The choice of a match -/

theorem matchEnd_congr {o left len : ℕ}
    (h : ∀ j < len + left, source' (o + j) = source (o + j) ∧ source' (p + j) = source (p + j)) :
    matchEnd source' o p left len = matchEnd source o p left len := by
  induction left generalizing len with
  | zero => rfl
  | succ left ih =>
      obtain ⟨ho, hp⟩ := h len (by omega)
      rw [matchEnd, matchEnd, ho, hp, ih fun j hj => h j (by omega)]

/-- The matches are the same, or both none. -/
def Match.Alike (best best' : Match) : Prop :=
  best'.matchlen = best.matchlen ∧ (best.matchlen ≠ 0 → best'.offset2 = best.offset2)

section Find

variable {best best' : Match} {k : ℕ}

/-- Two compressors find the same first match. -/
theorem firstMatch_alike (h : Alike s.src s s') (hsource : SameBytes source source' size)
    (hmay : s.mayMatch size = true) :
    Match.Alike (firstMatch x source size s (fastRead x source s.src 3))
        (firstMatch y source' size s' (fastRead y source' s.src 3)) ∧
      (Live s (hashFunc (source.readLe s.src 3)) 0 →
        (firstMatch y source' size s' (fastRead y source' s.src 3)).offset2 =
          (firstMatch x source size s (fastRead x source s.src 3)).offset2) := by
  obtain ⟨hseven, -, hroom⟩ := remaining_spec hmay
  have hthree := readLe_same hsource (show s.src + 3 ≤ size by omega)
  unfold firstMatch
  dsimp only
  rw [h.src, hashFunc_fastRead, hashFunc_fastRead, hthree, h.hashCounter, sameThree_eq, sameThree_eq, hthree]
  generalize hashFunc (source.readLe s.src 3) = hash
  by_cases hlive : Live s hash 0
  · have hsame := h.hashtable hash 0 hlive
    have hknown := h.known hash 0 hlive
    rw [hsame, readLe_same hsource (show s.hashtable hash 0 + 3 ≤ size by omega),
      hsource (s.hashtable hash 0 + 3) (by omega), hsource (s.src + 3) (by omega),
      matchEnd_congr fun j hj => ⟨hsource _ (by omega), hsource _ (by omega)⟩]
    exact ⟨⟨rfl, fun _ => rfl⟩, fun _ => rfl⟩
  · have hzero : ¬ s.hashCounter hash > 0 := by
      intro hpos
      refine hlive ⟨by decide, ?_⟩
      simpa using UInt8.lt_iff_toNat_lt.mp hpos
    rw [if_neg (fun hc => hzero hc.2.1), if_neg (fun hc => hzero hc.2.1)]
    exact ⟨⟨rfl, fun hne => absurd rfl hne⟩, fun hc => absurd hc hlive⟩

/-- Two compressors find the same further match. -/
theorem nextMatch_alike (h : Alike s.src s s') (hsource : SameBytes source source' size)
    (hmay : s.mayMatch size = true) (hlive : Live s (hashFunc (source.readLe s.src 3)) k)
    (hoffset : best'.offset2 = best.offset2) (hlen : best'.matchlen = best.matchlen) :
    (nextMatch y source' size s' (fastRead y source' s.src 3) best' k).offset2 =
        (nextMatch x source size s (fastRead x source s.src 3) best k).offset2 ∧
      (nextMatch y source' size s' (fastRead y source' s.src 3) best' k).matchlen =
        (nextMatch x source size s (fastRead x source s.src 3) best k).matchlen := by
  obtain ⟨hseven, -, hroom⟩ := remaining_spec hmay
  have hthree := readLe_same hsource (show s.src + 3 ≤ size by omega)
  have hsame := h.hashtable _ k hlive
  have hknown := h.known _ k hlive
  unfold nextMatch
  dsimp only
  rw [h.src, hashFunc_fastRead, hashFunc_fastRead, hthree, sameThree_eq, sameThree_eq, hthree, hsame,
    readLe_same hsource (show s.hashtable (hashFunc (source.readLe s.src 3)) k + 3 ≤ size by omega),
    matchEnd_congr fun j hj => ⟨hsource _ (by omega), hsource _ (by omega)⟩, hoffset, hlen]
  split
  · split
    · exact ⟨rfl, rfl⟩
    · exact ⟨hoffset, hlen⟩
  · exact ⟨hoffset, hlen⟩

/-- **The same match is found.** -/
theorem findMatch_alike (h : Alike s.src s s') (hsource : SameBytes source source' size)
    (hmay : s.mayMatch size = true) :
    Match.Alike (findMatch x source size s (fastRead x source s.src 3))
      (findMatch y source' size s' (fastRead y source' s.src 3)) := by
  obtain ⟨-, -, hroom⟩ := remaining_spec hmay
  have hthree := readLe_same hsource (show s.src + 3 ≤ size by omega)
  obtain ⟨hfirst, hoffset⟩ := firstMatch_alike (x := x) (y := y) h hsource hmay
  unfold findMatch
  dsimp only
  rw [hashFunc_fastRead, hashFunc_fastRead, hthree, h.hashCounter]
  generalize hks : List.range' 1 (min QLZ_POINTERS
    (s.hashCounter (hashFunc (source.readLe s.src 3))).toNat - 1) = ks
  have hall : ∀ k ∈ ks, Live s (hashFunc (source.readLe s.src 3)) k := by
    intro k hk
    rw [← hks, List.mem_range'_1] at hk
    exact ⟨by omega, by omega⟩
  cases ks with
  | nil => exact hfirst
  | cons k ks =>
      have hzero : Live s (hashFunc (source.readLe s.src 3)) 0 := by
        obtain ⟨-, hcount⟩ := hall k (by simp)
        exact ⟨by decide, by omega⟩
      have hboth : ∀ (ks : List ℕ) (best best' : Match),
          (∀ k ∈ ks, Live s (hashFunc (source.readLe s.src 3)) k) → best'.offset2 = best.offset2 →
          best'.matchlen = best.matchlen →
          Match.Alike (ks.foldl (nextMatch x source size s (fastRead x source s.src 3)) best)
            (ks.foldl (nextMatch y source' size s' (fastRead y source' s.src 3)) best') := by
        intro ks
        induction ks with
        | nil => exact fun best best' _ ho hl => ⟨hl, fun _ => ho⟩
        | cons k ks ih =>
            intro best best' hks ho hl
            obtain ⟨ho', hl'⟩ := nextMatch_alike (x := x) (y := y) h hsource hmay
              (hks k (by simp)) ho hl
            exact ih _ _ (fun k hk => hks k (List.mem_cons_of_mem _ hk)) ho' hl'
      exact hboth _ _ _ hall (hoffset hzero) hfirst.1

theorem chosen_eq (h : Alike s.src s s') (hsource : SameBytes source source' size)
    (hmay : s.mayMatch size = true) : chosen y source' size s' = chosen x source size s := by
  have hstart := mayMatch_iff.mp hmay
  obtain ⟨hlen, hoffset⟩ := findMatch_alike (x := x) (y := y) h hsource hmay
  unfold chosen
  dsimp only
  rw [h.src, hsource s.src (by omega), hlen]
  by_cases hnone : (findMatch x source size s (fastRead x source s.src 3)).matchlen = 0
  · rw [if_neg (by omega), if_neg (by omega)]
  · rw [hoffset hnone]

end Find

/-! ## Side by side -/

/-- The table after a token has been sent. -/
theorem compressToken_tables (x : Bool) (source : Mem) (size : ℕ) (s : Compressor) :
    (compressToken x source size s).hashtable =
        ((List.range' 1 ((chosen x source size s).size - 1)).foldl
          (fun t u => remember x source t (s.src + u)) (remember x source s s.src)).hashtable ∧
      (compressToken x source size s).hashCounter =
        ((List.range' 1 ((chosen x source size s).size - 1)).foldl
          (fun t u => remember x source t (s.src + u)) (remember x source s s.src)).hashCounter ∧
      (compressToken x source size s).stored = s.stored := by
  have hstored : ∀ (us : List ℕ) (t : Compressor),
      (us.foldl (fun t u => remember x source t (s.src + u)) t).stored = t.stored := by
    intro us
    induction us with
    | nil => exact fun _ => rfl
    | cons u us ih => exact fun t => (ih _).trans rfl
  have hsrc := (remember_sameText x source s s.src).src
  unfold compressToken chosen
  dsimp only
  rw [hsrc]
  generalize findMatch x source size s (fastRead x source s.src 3) = best
  by_cases htake : best.matchlen > 2 ∧ s.src - best.offset2 < 131071
  · rw [if_pos htake, if_pos htake, putMatch_eq]
    exact ⟨rfl, rfl, hstored _ _⟩
  · rw [if_neg htake, if_neg htake]
    exact ⟨rfl, rfl, rfl⟩

variable {closed : List (List Token)} {group : List Token}

/-- **The same token is sent.** -/
theorem compressToken_alike (h : Alike s.src s s') (hsource : SameBytes source source' size)
    (hs : Sending source before size closed group s) (hs' : Sending source' before' size closed group s')
    (hlen : group.length < 31) (hmay : s.mayMatch size = true) :
    ∃ t, Alike (compressToken x source size s).src (compressToken x source size s)
        (compressToken y source' size s') ∧
      Sending source before size closed (group ++ [t]) (compressToken x source size s) ∧
      Sending source' before' size closed (group ++ [t]) (compressToken y source' size s') := by
  have hmay' : s'.mayMatch size = true := by
    rw [mayMatch_iff] at hmay ⊢
    rwa [h.src]
  have ht := hs.compressToken (x := x) hlen hmay
  have ht' := hs'.compressToken (x := y) hlen hmay'
  have hsound := ht.sound
  rw [← List.append_assoc, along_append, Nat.zero_add, ← hs.src] at hsound
  have hend := hsound.2.1.2.end_le
  have hpos := hsound.2.1.2.size_pos
  have hsrc : (compressToken x source size s).src = s.src + (chosen x source size s).size := by
    rw [ht.src, hs.src, ← List.append_assoc, span_append (closed.flatten ++ group)]
    simp
  have hstart := mayMatch_iff.mp hmay
  have hroom : ∀ u ∈ List.range' 1 ((chosen x source size s).size - 1),
      s.src + u + 3 ≤ size ∧ s.src + u < s.src + (chosen x source size s).size := by
    intro u hu
    rw [List.mem_range'_1] at hu
    have hfits := hsound.2.1.2
    generalize chosen x source size s = t at hu hfits
    cases t with
    | lit b =>
        simp only [Token.size_lit] at hu
        omega
    | copy offset matchlen =>
        have hlast := hfits.2.2
        simp only [Token.size_copy] at hu ⊢
        omega
  have hall := (h.remember (x := x) (y := y) hsource (show s.src + 3 ≤ size by omega)
    (Nat.le_succ _) (Nat.lt_succ_self _)).rememberAll (x := x) (y := y) hsource hroom (by omega)
  rw [chosen_eq h hsource hmay] at ht'
  obtain ⟨htable, hcounter, hstored⟩ := compressToken_tables x source size s
  obtain ⟨htable', hcounter', hstored'⟩ := compressToken_tables y source' size s'
  rw [chosen_eq h hsource hmay, h.src] at htable' hcounter'
  have hptr : (compressToken y source' size s').cwordPtr = (compressToken x source size s).cwordPtr :=
    ht'.cwordPtr.trans ht.cwordPtr.symm
  refine ⟨_, ⟨ht'.src.trans ht.src.symm, ?_, hptr, ht'.cwordVal.trans ht.cwordVal.symm, ?_, ?_, ?_, ?_⟩, ht, ht'⟩
  · rw [ht'.dst, ht.dst, hptr]
  · rw [hstored, hstored', h.stored]
  · rw [hcounter, hcounter', hall.hashCounter]
  · intro hash k hlive
    rw [htable, htable']
    exact hall.hashtable hash k (by rwa [Live, hcounter] at hlive)
  · intro hash k hlive
    rw [htable, hsrc]
    exact hall.known hash k (by rwa [Live, hcounter] at hlive)

/-- What two calls keep in the first loop. -/
def Together (source source' before before' : Mem) (size : ℕ) (s s' : Compressor) : Prop :=
  Alike s.src s s' ∧ ∃ closed group, Sending source before size closed group s ∧
    Sending source' before' size closed group s'

/-- **A round of the first loop** side by side. -/
theorem compressRound_together (hsource : SameBytes source source' size)
    (h : Together source source' before before' size s s') (hmay : s.mayMatch size = true) :
    Together source source' before before' size (compressRound x source size s)
      (compressRound y source' size s') := by
  obtain ⟨halike, closed, group, hs, hs'⟩ := h
  have htoolong : s'.tooLong size = s.tooLong size := by
    unfold Compressor.tooLong
    rw [halike.src, halike.dst]
  have hcword : s'.cwordVal &&& 1 = 1 ↔ s.cwordVal &&& 1 = 1 := by rw [halike.cwordVal]
  unfold compressRound
  rw [htoolong]
  by_cases hfull : s.cwordVal &&& 1 = 1
  · rw [if_pos hfull, if_pos (hcword.mpr hfull)]
    rw [hs.full_iff] at hfull
    by_cases hlong : s.tooLong size = true
    · rw [if_pos hlong, if_pos hlong]
      exact ⟨⟨halike.src, halike.dst, halike.cwordPtr, halike.cwordVal, rfl, halike.hashCounter,
        halike.hashtable, halike.known⟩, closed, group, hs.sameText ⟨rfl, rfl, rfl, rfl, rfl⟩,
        hs'.sameText ⟨rfl, rfl, rfl, rfl, rfl⟩⟩
    · rw [if_neg hlong, if_neg hlong]
      have hnext : Alike (s.nextCword x).src (s.nextCword x) (s'.nextCword y) :=
        ⟨halike.src, congrArg (· + CWORD_LEN) halike.dst, halike.dst, rfl, halike.stored,
          halike.hashCounter, halike.hashtable, halike.known⟩
      obtain ⟨t, ht⟩ := compressToken_alike (x := x) (y := y) hnext hsource
        (hs.nextCword (x := x) hfull) (hs'.nextCword (x := y) hfull) (by simp) hmay
      exact ⟨ht.1, _, _, ht.2⟩
  · rw [if_neg hfull, if_neg fun hc => hfull (hcword.mp hc)]
    rw [hs.full_iff] at hfull
    have hshort := hs.short
    obtain ⟨t, ht⟩ := compressToken_alike (x := x) (y := y) halike hsource hs hs' (by omega) hmay
    exact ⟨ht.1, _, _, ht.2⟩

/-- What they keep in the second loop. -/
def TogetherLast (source source' before before' : Mem) (size : ℕ) (s s' : Compressor) : Prop :=
  ∃ closed group, Sending source before size closed group s ∧ Sending source' before' size closed group s'

/-- One more byte at the end. -/
theorem compressLast_together (hsource : SameBytes source source' size)
    (h : TogetherLast source source' before before' size s s') (hsrc : s.src < size) :
    TogetherLast source source' before before' size (compressLast x source s)
      (compressLast y source' s') := by
  obtain ⟨closed, group, hs, hs'⟩ := h
  have hsame : s'.src = s.src := hs'.src.trans hs.src.symm
  have hbyte : source' s'.src = source s.src := by rw [hsame, hsource _ hsrc]
  unfold compressLast
  rw [hs'.cwordVal.trans hs.cwordVal.symm]
  by_cases hfull : s.cwordVal &&& 1 = 1
  · rw [if_pos hfull, if_pos hfull]
    rw [hs.full_iff] at hfull
    have hput := (hs.nextCword (x := x) hfull).putByte (by simp) hsrc
    have hput' := (hs'.nextCword (x := y) hfull).putByte (by simp) (hsame ▸ hsrc)
    refine ⟨_, _, hput, ?_⟩
    simp only [Compressor.nextCword] at hput' ⊢
    rwa [hbyte] at hput'
  · rw [if_neg hfull, if_neg hfull]
    rw [hs.full_iff] at hfull
    have hshort := hs.short
    have hput' := hs'.putByte (by omega) (hsame ▸ hsrc)
    rw [hbyte] at hput'
    exact ⟨_, _, hs.putByte (by omega) hsrc, hput'⟩

/-! ## The results -/

/-- Tokens that end at the end of the source are five at least, if it has so many bytes. -/
theorem five_le_length {ts : List Token} (h : Along (Sound source size) p ts) (hend : p + span ts = size) :
    min 5 (size - p) ≤ ts.length := by
  induction ts generalizing p with
  | nil => simp [← hend]
  | cons t ts ih =>
      have hrest := ih h.2 (by rw [span_cons] at hend; omega)
      have hfits := h.1.2
      cases t with
      | lit b =>
          simp only [Token.size_lit] at hrest
          simp only [List.length_cons]
          omega
      | copy offset matchlen =>
          have hlast := hfits.2.2
          simp only [Token.size_copy] at hrest
          simp only [List.length_cons]
          omega

/-- Two calls of the core have the same result, of which every byte has been written. -/
def SameResult (size : ℕ) (p p' : Mem × ℕ) : Prop :=
  p'.2 = p.2 ∧ (p.2 = 0 ∨ ∃ l, Holds p.1 0 l ∧ Holds p'.1 0 l ∧ p.2 = max 9 l.length ∧ min 9 (4 + size) ≤ l.length)

/-- The ends of two compressions are the same. -/
theorem compressEnd_same (h : TogetherLast source source' before before' size s s') (hsrc : s.src = size)
    (fuel : ℕ) : Option.Rel (SameResult size) (compressEnd x fuel s) (compressEnd y fuel s') := by
  obtain ⟨closed, group, hs, hs'⟩ := h
  have hptr := hs'.cwordPtr.trans hs.cwordPtr.symm
  have hdst : s'.dst = s.dst := by rw [hs'.dst, hs.dst, hptr]
  have hcount := five_le_length hs.sound (by rw [Nat.zero_add, ← hs.src, hsrc])
  have hbytes : (closed.flatten ++ group).length ≤ (tokensBytes (closed.flatten ++ group)).length :=
    length_le_tokensBytes hs.sound
  have hall := hs.dst_eq
  unfold compressEnd
  rw [hs'.cwordVal.trans hs.cwordVal.symm]
  cases shiftCword fuel s.cwordVal with
  | none => exact .none
  | some w =>
      refine .some ⟨by rw [hdst], .inr ⟨_, hs.holds_word _, hs'.holds_word _, ?_⟩⟩
      have hlen : (streamBytes closed ++ (leBytes (w >>> 1 ||| 1 <<< 31) 4 ++ tokensBytes group)).length =
          s.dst := by
        have hptr := hs.cwordPtr
        have hdst := hs.dst
        simp only [List.length_append, length_leBytes]
        omega
      rw [hlen]
      refine ⟨?_, by omega⟩
      dsimp only
      split <;> omega

/-- Two compressions of one text make the same bytes. -/
theorem qlzCompressCore_same (hsource : SameBytes source source' size) (hashtable hashtable' : ℕ → ℕ → ℕ)
    (fuel : ℕ) :
    Option.Rel (SameResult size) (qlzCompressCore x source size fuel before hashtable resetState)
      (qlzCompressCore y source' size fuel before' hashtable' resetState) := by
  have hstart : Together source source' before before' size (.init before hashtable resetState)
      (.init before' hashtable' resetState) := by
    refine ⟨⟨rfl, rfl, rfl, rfl, rfl, rfl, fun hash k hlive => ?_, fun hash k hlive => ?_⟩, [], [],
      .init hashtable resetState, .init hashtable' resetState⟩ <;>
    · have hzero := hlive.2
      simp [Compressor.init, resetState] at hzero
  have hfirst := whileLoop_rel (fun s => s.mayMatch size && !s.stored) (compressRound x source size)
    (fun s => s.mayMatch size && !s.stored) (compressRound y source' size)
    (Together source source' before before' size)
    (fun s s' h => by simp only [Compressor.mayMatch, h.1.src, h.1.stored])
    (fun s s' h hcond => compressRound_together hsource h (by
      simp only [Bool.and_eq_true] at hcond
      exact hcond.1)) hstart fuel
  unfold qlzCompressCore
  revert hfirst
  generalize whileLoop _ (compressRound x source size) fuel _ = r
  generalize whileLoop _ (compressRound y source' size) fuel _ = r'
  intro hfirst
  cases hfirst with
  | none => exact .none
  | @some s s' h =>
      obtain ⟨⟨halike, hlast⟩, -⟩ := h
      simp only [Option.bind_eq_bind, Option.bind_some, halike.stored]
      by_cases hstored : s.stored = true
      · simp only [hstored, if_true]
        exact .some ⟨rfl, .inl rfl⟩
      · simp only [hstored, Bool.false_eq_true, if_false]
        have hsecond := whileLoop_rel (fun s => s.src + 1 ≤ size) (compressLast x source)
          (fun s => s.src + 1 ≤ size) (compressLast y source')
          (TogetherLast source source' before before' size)
          (fun s s' h => by
            obtain ⟨closed, group, hs, hs'⟩ := h
            simp only [hs'.src.trans hs.src.symm])
          (fun s s' h hcond => compressLast_together hsource h (of_decide_eq_true hcond)) hlast fuel
        revert hsecond
        generalize whileLoop _ (compressLast x source) fuel _ = r
        generalize whileLoop _ (compressLast y source') fuel _ = r'
        intro hsecond
        cases hsecond with
        | none => exact .none
        | @some s s' h =>
            obtain ⟨hboth, hends⟩ := h
            have hend : ¬ s.src + 1 ≤ size := of_decide_eq_false hends
            have hle : s.src ≤ size := by
              obtain ⟨closed, group, hs, -⟩ := hboth
              exact hs.src_le
            exact compressEnd_same hboth (by omega) fuel

theorem bytes_same (hsource : SameBytes source source' size) : source'.bytes 0 size = source.bytes 0 size := by
  have hheld : Holds source' 0 (source.bytes 0 size) := by
    apply (Mem.holds_bytes source 0 size).of_agrees
    intro i _ hi
    exact hsource i (by simpa using hi)
  have hbytes := hheld.bytes_eq
  rwa [Mem.length_bytes] at hbytes

/-- **The compressed text depends on the bytes only**: whatever version of the code has compressed them
and whatever was in the scratch memory, in the destination and after them, the result is the same,
byte for byte. -/
theorem qlzCompress_same (x y : Bool) {source source' : Mem} (before before' : Mem)
    (hashtable hashtable' : ℕ → ℕ → ℕ) (hsize : 5 ≤ size) (hmax : size ≤ 0xffffffff - 400)
    (hsource : ∀ i < size, source' i = source i) :
    ∃ m m' r, Returns (fun fuel => qlzCompress x source size fuel before hashtable) (m, r) ∧
      Returns (fun fuel => qlzCompress y source' size fuel before' hashtable') (m', r) ∧
      ∀ i < r, m' i = m i := by
  obtain ⟨n, hn, hbase, -⟩ := headerlen_spec size
  obtain ⟨m, len, hcore, -⟩ := qlzCompressCore_spec (x := x) source (before.from' (2 * n + 1)) hashtable
    resetState (by omega : 0 < size)
  obtain ⟨m', len', hcore', -⟩ := qlzCompressCore_spec (x := y) source' (before'.from' (2 * n + 1))
    hashtable' resetState (by omega : 0 < size)
  obtain ⟨hlen, hresult⟩ := hcore.rel hcore' fun fuel => qlzCompressCore_same hsource hashtable hashtable' fuel
  dsimp only at hlen hresult
  subst hlen
  have hmap := hcore.map (finish x source size before (2 * n + 1))
  have hmap' := hcore'.map (finish y source' size before' (2 * n + 1))
  simp only [qlzCompress_eq source before hashtable (by omega : 0 < size) hmax hbase,
    qlzCompress_eq source' before' hashtable' (by omega : 0 < size) hmax hbase]
  -- both results hold the same bytes
  have hsame : ∀ {d d' : Mem} {r : ℕ} {l : List UInt8}, Holds d 0 l → Holds d' 0 l → r ≤ l.length →
      ∀ i < r, d' i = d i := by
    intro d d' r l hd hd' hr i hi
    have h := hd.getElem (i := i) (by omega)
    have h' := hd'.getElem (i := i) (by omega)
    rw [Nat.zero_add] at h h'
    exact h'.trans h.symm
  have hlong : ∀ {d d' : Mem} {r c : ℕ} {l : List UInt8}, Holds d (2 * n + 1) l → Holds d' (2 * n + 1) l →
      r ≤ 2 * n + 1 + l.length → ∀ i < r,
      writeHeader y size (2 * n + 1) r c d' i = writeHeader x size (2 * n + 1) r c d i := by
    intro d d' r c l hd hd' hr
    obtain ⟨hhead, hrest⟩ := writeHeader_spec x size r c d hn
    obtain ⟨hhead', hrest'⟩ := writeHeader_spec y size r c d' hn
    refine hsame (l := header n c r size ++ l) (Holds.append_iff.mpr ⟨hhead, ?_⟩)
      (Holds.append_iff.mpr ⟨hhead', ?_⟩) (by simpa using hr)
    · rw [Nat.zero_add, length_header]
      exact hd.of_agrees fun i hi _ => hrest i hi
    · rw [Nat.zero_add, length_header]
      exact hd'.of_agrees fun i hi _ => hrest' i hi
  obtain rfl | ⟨l, hl, hl', hr, hmin⟩ := hresult
  · simp only [finish, if_true] at hmap hmap'
    refine ⟨_, _, _, hmap, hmap', ?_⟩
    rw [bytes_same hsource]
    exact hlong (Mem.holds_writeBytes _) (Mem.holds_writeBytes _) (by simp; omega)
  · have hpos : len' ≠ 0 := by omega
    simp only [finish, hpos, if_false] at hmap hmap'
    exact ⟨_, _, _, hmap, hmap', hlong (Mem.holds_splice hl) (Mem.holds_splice hl') (by omega)⟩

/-- Five bytes, with different bytes behind them. -/
theorem qlzCompress_same_five :
    ∃ m m' r, Returns (fun fuel => qlzCompress true (fun _ => 9) 5 fuel (fun _ => 0) fun _ _ => 3) (m, r) ∧
      Returns (fun fuel => qlzCompress false (fun i => if i < 5 then 9 else 1) 5 fuel (fun _ => 7)
        fun _ k => k) (m', r) ∧
      ∀ i < r, m' i = m i :=
  qlzCompress_same true false _ _ _ _ (by norm_num) (by norm_num) fun i hi => if_pos hi

end Oce.UtilCxx.QuickLz
