import Mathlib.Logic.Function.Basic
import Oce.Base.Mem
import Oce.Base.Run

/-!
# The compression of values

`quicklz.cpp` as it is set in `quicklz.h`: level 3, no streaming, not memory safe. The file has
two versions of each access to memory, one for processors that read and write words anywhere
(`x86 = true`) and one for the others, and is compiled for either.

A pointer is its distance from the beginning of the text that it points into; the pointers that an
earlier call left in the scratch memory are any numbers.
-/

set_option autoImplicit false

namespace Oce.UtilCxx.QuickLz

open Oce.Base

def MINOFFSET : ℕ := 2
def UNCONDITIONAL_MATCHLEN : ℕ := 6
def UNCOMPRESSED_END : ℕ := 4
def CWORD_LEN : ℕ := 4
def QLZ_POINTERS : ℕ := 16
def QLZ_HASH_VALUES : ℕ := 4096

/-! ## Words -/

/-- SOURCE: quicklz.cpp:53-60 -/
def hashFunc (i : ℕ) : ℕ := ((i >>> 12) ^^^ i) &&& (QLZ_HASH_VALUES - 1)

/-- SOURCE: quicklz.cpp:62-84 -/
def fastRead (x86 : Bool) (m : Mem) (src bytes : ℕ) : ℕ :=
  if 1 ≤ bytes ∧ bytes ≤ 4 then m.readLe src (if x86 then 4 else bytes) else 0

/-- Three bytes are written as four where words may be written. SOURCE: quicklz.cpp:86-129 -/
def fastWrite (x86 : Bool) (m : Mem) (f dst bytes : ℕ) : Mem :=
  if 1 ≤ bytes ∧ bytes ≤ 4 then
    m.writeLe dst f (if x86 ∧ bytes = 3 then 4 else bytes)
  else m

/-- `n` bytes within one memory, from the first one on; words of four are taken three bytes apart.
SOURCE: quicklz.cpp:131-151 -/
def memcpyUp (x86 : Bool) (m : Mem) (dst src n : ℕ) : Mem :=
  if x86 then
    (List.range (max 1 ((n + MINOFFSET) / (MINOFFSET + 1)))).foldl (fun m i =>
      m.writeLe (dst + (MINOFFSET + 1) * i) (m.readLe (src + (MINOFFSET + 1) * i) 4) 4) m
  else (List.range n).foldl (fun m i => m.writeBytes (dst + i) [m (src + i)]) m

/-! ## Compression -/

/-- The state of `qlz_compress_core`. `stored` is set when it has given up. -/
structure Compressor where
  src : ℕ
  dst : ℕ
  cwordPtr : ℕ
  cwordVal : ℕ
  destination : Mem
  hashtable : ℕ → ℕ → ℕ
  hashCounter : ℕ → UInt8
  stored : Bool

/-- How long two places agree: `while(*(o + m) == *(src + m) && m < remaining) m++`, where `left`
is what is left up to `remaining`. -/
def matchEnd (source : Mem) (o src : ℕ) : ℕ → ℕ → ℕ
  | 0, m => m
  | left + 1, m => if source (o + m) = source (src + m) then matchEnd source o src left (m + 1) else m

/-- The match that the loops have found so far. -/
structure Match where
  offset2 : ℕ
  matchlen : ℕ

section Core

variable (x86 : Bool) (source : Mem) (size : ℕ)

/-- The three bytes at `o` are those in `fetch`. -/
def sameThree (o fetch : ℕ) : Bool := (fastRead x86 source o 3 ^^^ fetch) &&& 0xffffff = 0

/-- What a match at `src` may have at most. SOURCE: quicklz.cpp:293 -/
def remaining (src : ℕ) : ℕ :=
  if size - 1 - UNCOMPRESSED_END - src + 1 > 255 then 255 else size - 1 - UNCOMPRESSED_END - src + 1

/-- The first entry of the table. SOURCE: quicklz.cpp:301-313 -/
def firstMatch (s : Compressor) (fetch : ℕ) : Match :=
  let hash := hashFunc fetch
  let offset2 := s.hashtable hash 0
  if offset2 + MINOFFSET < s.src ∧ s.hashCounter hash > 0 ∧ sameThree x86 source offset2 fetch then
    if source (offset2 + 3) = source (s.src + 3) then
      ⟨offset2, matchEnd source offset2 s.src (remaining size s.src - 4) 4⟩
    else ⟨offset2, 3⟩
  else ⟨offset2, 0⟩

/-- One of the others. SOURCE: quicklz.cpp:314-337 -/
def nextMatch (s : Compressor) (fetch : ℕ) (best : Match) (k : ℕ) : Match :=
  let o := s.hashtable (hashFunc fetch) k
  if sameThree x86 source o fetch ∧ o + MINOFFSET < s.src then
    let m := matchEnd source o s.src (remaining size s.src - 3) 3
    if m > best.matchlen ∨ (m = best.matchlen ∧ o > best.offset2) then ⟨o, m⟩ else best
  else best

/-- SOURCE: quicklz.cpp:299-338 -/
def findMatch (s : Compressor) (fetch : ℕ) : Match :=
  let c := (s.hashCounter (hashFunc fetch)).toNat
  (List.range' 1 (min QLZ_POINTERS c - 1)).foldl (nextMatch x86 source size s fetch)
    (firstMatch x86 source size s fetch)

/-- A place is entered under its hash, in place of the oldest one there. SOURCE: quicklz.cpp:339-341 -/
def remember (s : Compressor) (p : ℕ) : Compressor :=
  let hash := hashFunc (fastRead x86 source p 3)
  let c := s.hashCounter hash
  { s with
    hashtable := Function.update s.hashtable hash
      (Function.update (s.hashtable hash) (c.toNat &&& (QLZ_POINTERS - 1)) p)
    hashCounter := Function.update s.hashCounter hash (c + 1) }

/-- `f` goes to `dst` in `bytes` bytes. -/
def Compressor.put (s : Compressor) (f bytes : ℕ) : Compressor :=
  { s with destination := fastWrite x86 s.destination f s.dst bytes, dst := s.dst + bytes }

/-- SOURCE: quicklz.cpp:360-389 -/
def Compressor.putMatch (s : Compressor) (offset matchlen : ℕ) : Compressor :=
  if matchlen = 3 ∧ offset ≤ 63 then s.put x86 (offset <<< 2) 1
  else if matchlen = 3 ∧ offset ≤ 16383 then s.put x86 (offset <<< 2 ||| 1) 2
  else if matchlen ≤ 18 ∧ offset ≤ 1023 then
    s.put x86 ((matchlen - 3) <<< 2 ||| offset <<< 6 ||| 2) 2
  else if matchlen ≤ 33 then s.put x86 ((matchlen - 2) <<< 2 ||| offset <<< 7 ||| 3) 3
  else s.put x86 ((matchlen - 3) <<< 7 ||| offset <<< 15 ||| 3) 4

/-- `*dst = *src`. SOURCE: quicklz.cpp:393-396 -/
def Compressor.putByte (s : Compressor) : Compressor :=
  { s with
    destination := s.destination.writeBytes s.dst [source s.src]
    src := s.src + 1
    dst := s.dst + 1
    cwordVal := s.cwordVal >>> 1 }

/-- The control word is written and the next one begun. SOURCE: quicklz.cpp:206-210 -/
def Compressor.nextCword (s : Compressor) : Compressor :=
  { s with
    destination := fastWrite x86 s.destination (s.cwordVal >>> 1 ||| 1 <<< 31) s.cwordPtr CWORD_LEN
    cwordPtr := s.dst
    dst := s.dst + CWORD_LEN
    cwordVal := 1 <<< 31 }

/-- What is sent for the next bytes of the source. SOURCE: quicklz.cpp:289-398 -/
def compressToken (s : Compressor) : Compressor :=
  let best := findMatch x86 source size s (fastRead x86 source s.src 3)
  let s := remember x86 source s s.src
  if best.matchlen > 2 ∧ s.src - best.offset2 < 131071 then
    let start := s.src
    let s := (List.range' 1 (best.matchlen - 1)).foldl (fun s u => remember x86 source s (start + u)) s
    { s with cwordVal := s.cwordVal >>> 1 ||| 1 <<< 31, src := start + best.matchlen }.putMatch x86
      (start - best.offset2) best.matchlen
  else s.putByte source

/-- The result would be too long. SOURCE: quicklz.cpp:203 -/
def Compressor.tooLong (s : Compressor) : Bool :=
  s.src > 3 * (size >>> 2) ∧ s.dst > s.src - (s.src >>> 5)

/-- One round of the loop. SOURCE: quicklz.cpp:198-431 -/
def compressRound (s : Compressor) : Compressor :=
  if s.cwordVal &&& 1 = 1 then
    if s.tooLong size then { s with stored := true }
    else compressToken x86 source size (s.nextCword x86)
  else compressToken x86 source size s

/-- A match may begin here: `src <= last_matchstart`. -/
def Compressor.mayMatch (s : Compressor) : Bool :=
  s.src + UNCONDITIONAL_MATCHLEN + UNCOMPRESSED_END + 1 ≤ size

/-- One round of the loop for the last bytes. SOURCE: quicklz.cpp:433-469 -/
def compressLast (s : Compressor) : Compressor :=
  if s.cwordVal &&& 1 = 1 then (s.nextCword x86).putByte source else s.putByte source

/-- The state before the first round. SOURCE: quicklz.cpp:187-193 -/
def Compressor.init (destination : Mem) (hashtable : ℕ → ℕ → ℕ) (hashCounter : ℕ → UInt8) : Compressor :=
  { src := 0, dst := CWORD_LEN, cwordPtr := 0, cwordVal := 1 <<< 31, destination, hashtable, hashCounter,
    stored := false }

/-- `while((cword_val & 1) != 1) cword_val = (cword_val >> 1)`. SOURCE: quicklz.cpp:471-472 -/
def shiftCword (fuel cwordVal : ℕ) : Option ℕ :=
  whileLoop (fun w => w &&& 1 ≠ 1) (fun w => w >>> 1) fuel cwordVal

/-- What is left to do after the loops. SOURCE: quicklz.cpp:471-477 -/
def compressEnd (fuel : ℕ) (s : Compressor) : Option (Mem × ℕ) :=
  (shiftCword fuel s.cwordVal).map fun w =>
    (fastWrite x86 s.destination (w >>> 1 ||| 1 <<< 31) s.cwordPtr CWORD_LEN, if s.dst < 9 then 9 else s.dst)

/-- SOURCE: quicklz.cpp:185-478 -/
def qlzCompressCore (fuel : ℕ) (destination : Mem) (hashtable : ℕ → ℕ → ℕ) (hashCounter : ℕ → UInt8) :
    Option (Mem × ℕ) := do
  let s ← whileLoop (fun s => s.mayMatch size && !s.stored) (compressRound x86 source size) fuel
    (.init destination hashtable hashCounter)
  if s.stored then return (s.destination, 0)
  let s ← whileLoop (fun s => s.src + 1 ≤ size) (compressLast x86 source) fuel s
  compressEnd x86 fuel s

/-- SOURCE: quicklz.cpp:48-51 -/
def resetState : ℕ → UInt8 := fun _ => 0

/-- A memory from `base` on is worked on by itself. -/
def within (base : ℕ) (m : Mem) (f : Mem → Option (Mem × ℕ)) : Option (Mem × ℕ) :=
  (f (m.from' base)).map fun (m', r) => (m.splice base m', r)

/-- The first byte: `01SSLLHC`. SOURCE: quicklz.cpp:738-753 -/
def headerByte (h c : ℕ) : ℕ := h ||| c ||| 3 <<< 2 ||| 1 <<< 6 ||| 0 <<< 4

/-- The header of a text of `r` bytes that stands for `size` bytes. SOURCE: quicklz.cpp:738-753 -/
def writeHeader (base r compressed : ℕ) (destination : Mem) : Mem :=
  if base = 3 then
    destination.writeBytes 0 [UInt8.ofNat (headerByte 0 compressed), UInt8.ofNat r, UInt8.ofNat size]
  else
    fastWrite x86 (fastWrite x86 (destination.writeBytes 0 [UInt8.ofNat (headerByte 2 compressed)]) r 1 4)
      size 5 4

/-- The destination and how many of its bytes are the result. SOURCE: quicklz.cpp:676-759 -/
def qlzCompress (fuel : ℕ) (destination : Mem) (hashtable : ℕ → ℕ → ℕ) : Option (Mem × ℕ) :=
  if size = 0 ∨ size > 0xffffffff - 400 then some (destination, 0)
  else
    let base := if size < 216 then 3 else 9
    (within base destination fun m => qlzCompressCore x86 source size fuel m hashtable resetState).map
      fun (destination, n) =>
        if base + n = base then
          let r := size + base
          (writeHeader x86 size base r 0 (destination.writeBytes base (source.bytes 0 size)), r)
        else (writeHeader x86 size base (base + n) 1 destination, base + n)

end Core

/-! ## Decompression -/

/-- The state of `qlz_decompress_core`. -/
structure Decompressor where
  src : ℕ
  dst : ℕ
  cwordVal : ℕ
  destination : Mem
  returned : Bool

def bitlut : List ℕ := [4, 0, 1, 0, 2, 0, 1, 0, 3, 0, 1, 0, 2, 0, 1, 0]

/-- Offset, length and number of bytes of the match that begins a word. SOURCE: quicklz.cpp:563-592 -/
def readMatch (fetch : ℕ) : ℕ × ℕ × ℕ :=
  if fetch &&& 3 = 0 then ((fetch &&& 0xff) >>> 2, 3, 1)
  else if fetch &&& 2 = 0 then ((fetch &&& 0xffff) >>> 2, 3, 2)
  else if fetch &&& 1 = 0 then ((fetch &&& 0xffff) >>> 6, (fetch >>> 2 &&& 15) + 3, 2)
  else if fetch &&& 127 ≠ 3 then (fetch >>> 7 &&& 0x1ffff, (fetch >>> 2 &&& 0x1f) + 2, 3)
  else (fetch >>> 15, (fetch >>> 7 &&& 255) + 3, 4)

/-- `while(dst <= last_destination_byte)`, for the `n` bytes there are. SOURCE: quicklz.cpp:631-646 -/
def decompressLast (source : Mem) : ℕ → Decompressor → Decompressor
  | 0, s => s
  | n + 1, s =>
    let s := if s.cwordVal = 1 then { s with src := s.src + CWORD_LEN, cwordVal := 1 <<< 31 } else s
    decompressLast source n
      { s with
        destination := s.destination.writeBytes s.dst [source s.src]
        dst := s.dst + 1
        src := s.src + 1
        cwordVal := s.cwordVal >>> 1 }

section Core

variable (x86 : Bool) (source : Mem) (size : ℕ)

/-- The next control word, when one is used up. SOURCE: quicklz.cpp:501-509 -/
def Decompressor.loadCword (s : Decompressor) : Decompressor :=
  if s.cwordVal = 1 then
    { s with cwordVal := fastRead x86 source s.src CWORD_LEN, src := s.src + CWORD_LEN }
  else s

/-- SOURCE: quicklz.cpp:518-611 -/
def Decompressor.copyMatch (s : Decompressor) : Decompressor :=
  let (offset, matchlen, bytes) := readMatch (fastRead x86 source s.src 4)
  { s with
    cwordVal := s.cwordVal >>> 1
    src := s.src + bytes
    destination := memcpyUp x86 s.destination s.dst (s.dst - offset) matchlen
    dst := s.dst + matchlen }

/-- Four bytes are copied, and those count that come before the next match. SOURCE: quicklz.cpp:615-624 -/
def Decompressor.copyBytes (s : Decompressor) : Decompressor :=
  let n := bitlut.getD (s.cwordVal &&& 0xf) 0
  { s with
    destination := s.destination.writeBytes s.dst (source.bytes s.src 4)
    dst := s.dst + n
    src := s.src + n
    cwordVal := s.cwordVal >>> n }

/-- One round of the loop. SOURCE: quicklz.cpp:497-655 -/
def decompressRound (s : Decompressor) : Decompressor :=
  let s := s.loadCword x86 source
  if s.cwordVal &&& 1 = 1 then s.copyMatch x86 source
  else if s.dst + UNCONDITIONAL_MATCHLEN + UNCOMPRESSED_END + 1 < size then s.copyBytes source
  else { decompressLast source (size - s.dst) s with returned := true }

/-- SOURCE: quicklz.cpp:480-656 -/
def qlzDecompressCore (fuel : ℕ) (destination : Mem) : Option (Mem × ℕ) :=
  (whileLoop (fun s => !s.returned) (decompressRound x86 source size) fuel ⟨0, 0, 1, destination, false⟩).map
    fun s => (s.destination, size)

/-- SOURCE: quicklz.cpp:661 -/
def headerWidth : ℕ := if (source 0).toNat &&& 2 = 2 then 4 else 1

/-- SOURCE: quicklz.cpp:658-665 -/
def qlzSizeDecompressed : ℕ :=
  let n := headerWidth source
  fastRead x86 source (1 + n) n &&& (0xffffffff >>> ((4 - n) * 8))

/-- SOURCE: quicklz.cpp:667-674 -/
def qlzSizeCompressed : ℕ :=
  let n := headerWidth source
  fastRead x86 source 1 n &&& (0xffffffff >>> ((4 - n) * 8))

/-- The destination and how many of its bytes are the result. SOURCE: quicklz.cpp:761-820 -/
def qlzDecompress (fuel : ℕ) (destination : Mem) : Option (Mem × ℕ) :=
  let headerlen := 2 * headerWidth source + 1
  let dsiz := qlzSizeDecompressed x86 source
  if (source 0).toNat &&& 1 = 1 then
    qlzDecompressCore x86 (source.from' headerlen) dsiz fuel destination
  else some (destination.writeBytes 0 (source.bytes headerlen dsiz), dsiz)

end Core

end Oce.UtilCxx.QuickLz
