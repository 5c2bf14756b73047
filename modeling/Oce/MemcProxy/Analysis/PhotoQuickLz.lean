import Oce.MemcProxy.Analysis.PhotoRoundTrip
import Oce.UtilCxx.Analysis.QuickLzRoundTrip

/-!
# The cache of photos with its compression

`quicklz.cpp` in the place of the library that compresses the values. The clients run on machines of
their own, each with its own version of the code and its own memory; what one of them stores is for
all of them to read.
-/

set_option autoImplicit false

namespace Oce.MemcProxy.PhotoCache

open Oce.Base
open Oce.UtilCxx.QuickLz (qlzCompress qlzDecompress qlzSizeDecompressed qlzCompress_spec)

/-- The first bytes of what a call returns. -/
noncomputable def returned (f : ℕ → Option (Mem × ℕ)) : List Byte :=
  ((result f).map fun p => p.1.bytes 0 p.2).getD []

/-- A text in memory; what follows it makes no difference. -/
def inMemory (text : List Byte) : Mem := Mem.ofBytes text fun _ => 0

/-- `quicklz.cpp` as a library: `scratch` is in the scratch memory, and `garbage` in the buffers. -/
noncomputable def quickLz (x86 : Bool) (scratch : ℕ → ℕ → ℕ) (garbage : Mem) : QuickLz where
  compress data := returned fun fuel => qlzCompress x86 (inMemory data) data.length fuel garbage scratch
  sizeDecompressed text := qlzSizeDecompressed x86 (inMemory text)
  decompress text := returned fun fuel => qlzDecompress x86 (inMemory text) fuel garbage

theorem returned_eq {f : ℕ → Option (Mem × ℕ)} {m : Mem} {r : ℕ} (h : Returns f (m, r)) :
    returned f = m.bytes 0 r := by
  rw [returned, h.result_eq]
  rfl

theorem inMemory_bytes (m : Mem) {n i : ℕ} (h : i < n) : inMemory (m.bytes 0 n) i = m i := by
  have hin := (Mem.holds_ofBytes (m.bytes 0 n) fun _ => 0).getElem (i := i) (by simpa using h)
  have hm := (Mem.holds_bytes m 0 n).getElem (i := i) (by simpa using h)
  rw [Nat.zero_add] at hin hm
  exact hin.trans hm.symm

section Between

variable (x86 x86' : Bool) (scratch scratch' : ℕ → ℕ → ℕ) (garbage garbage' : Mem)

/-- **What one client compresses another gives back.** -/
theorem quickLz_between {data : List Byte} (hpos : 0 < data.length) (hmax : data.length ≤ 0xffffffff - 400) :
    (quickLz x86' scratch' garbage').sizeDecompressed ((quickLz x86 scratch garbage).compress data) =
        data.length ∧
      (quickLz x86' scratch' garbage').decompress ((quickLz x86 scratch garbage).compress data) = data := by
  obtain ⟨m, r, hreturns, hcompressed, -⟩ := qlzCompress_spec (x := x86) (inMemory data) garbage scratch
    hpos hmax
  have htext := hcompressed.of_agrees fun i hi => inMemory_bytes m hi
  obtain ⟨m', hreturns', hsame, -⟩ := htext.decompress (x := x86') hpos garbage'
  have hout : (quickLz x86 scratch garbage).compress data = m.bytes 0 r := returned_eq hreturns
  rw [hout]
  refine ⟨htext.sizeDecompressed, (returned_eq hreturns').trans ?_⟩
  have hheld : Holds m' 0 data := by
    apply (Mem.holds_ofBytes data fun _ => 0).of_agrees
    intro i _ hi
    exact hsame i (by omega)
  exact hheld.bytes_eq

/-- **A value that one client has stored is read by another** as it was, whichever processor either runs on
and whatever is in their memories: as it is if compression would not have made it shorter, else with
the two bytes of the buffer behind it, and not at all if the buffer is too small. -/
theorem unpack_pack_between {data : List Byte} (hmax : data.length ≤ 0xffffffff - 400) :
    unpack (quickLz x86' scratch' garbage') (entryOf (pack (quickLz x86 scratch garbage) data)) =
      if ((quickLz x86 scratch garbage).compress data).length < data.length then
        (if data.length + 2 > 16 * 1024 then [] else data ++ [9, 0])
      else data := by
  unfold pack compress entryOf
  dsimp only
  by_cases hshort : ((quickLz x86 scratch garbage).compress data).length < data.length
  · obtain ⟨hsize, hback⟩ := quickLz_between x86 x86' scratch scratch' garbage garbage' (by omega) hmax
    rw [if_pos hshort, if_pos hshort]
    unfold unpack decompress
    dsimp only
    rw [if_pos rfl, if_pos (by decide), hsize, hback, List.take_length]
  · rw [if_neg hshort, if_neg hshort]
    unfold unpack
    dsimp only
    rw [if_neg Bool.false_ne_true, if_neg (by decide)]

end Between

/-- Two clients on different processors, and a value in which everything repeats. -/
theorem unpack_pack_between_repeats :
    unpack (quickLz false (fun _ _ => 7) fun _ => 1)
        (entryOf (pack (quickLz true (fun _ _ => 0) fun _ => 0) (List.replicate 300 65))) =
      if ((quickLz true (fun _ _ => 0) fun _ => 0).compress (List.replicate 300 65)).length <
          (List.replicate 300 (65 : Byte)).length then
        (if (List.replicate 300 (65 : Byte)).length + 2 > 16 * 1024 then []
        else List.replicate 300 65 ++ [9, 0])
      else List.replicate 300 65 :=
  unpack_pack_between true false _ _ _ _ (by rw [List.length_replicate]; norm_num)

end Oce.MemcProxy.PhotoCache
