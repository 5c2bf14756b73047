import Oce.Base.Mem
import Oce.FeedDB.Model.Records

/-!
# Writing the dirty blocks of a file

`DataFile::Flush` goes through a range of the dirty bitmap, clears the bits of the blocks that
are in memory and hands those blocks to `IOExecutor::execute`. The executor copies them one
behind the other into its buffer, makes one request of each run of consecutive indexes, and
submits the requests in batches. A request that is submitted is a patch of the file; which of
a batch is written first is open.

The bytes of a block are a function of the place in it. The configuration `flush_count_cfg` can
hold nothing but what `updateConfig` accepts.
-/

set_option autoImplicit false

namespace Oce.FeedDB

open Oce.Base

/-! ## The executor -/

/-- Requests of a batch. SOURCE: IOExecutor.h:20 -/
def aioMaxIO : ℕ := 1000

/-- Bytes of the buffer. SOURCE: IOExecutor.h:21 -/
def maxBuffer : ℕ := 32 * 1024 * 1024

/-- A block in memory: its index and its bytes. -/
structure CachedBlock where
  index : ℕ
  buf : ℕ → UInt8

/-- What `io_prep_pwrite` prepares: `nbytes` bytes from place `pos` of the buffer go to `offset`
of the file. -/
structure Iocb where
  pos : ℕ
  nbytes : ℕ
  offset : ℕ
  deriving DecidableEq, Repr

/-- The request as a patch of the file. -/
def Iocb.patch (buffer : ℕ → UInt8) (io : Iocb) : Patch UInt8 where
  lo := io.offset
  len := io.nbytes
  value := fun k => buffer (io.pos + k)

namespace IOExecutor

/-- The buffer with the blocks copied into it. SOURCE: IOExecutor.cpp:34-39 -/
def buffer (caches : List CachedBlock) : ℕ → UInt8 := fun o =>
  match caches[o / blockSize]? with
  | none => 0
  | some cache => cache.buf (o % blockSize)

/-- How many of the next blocks go on from index `prev` without a gap.
SOURCE: IOExecutor.cpp:47-52 -/
def runLength (prev : ℕ) : List CachedBlock → ℕ
  | [] => 0
  | cache :: rest => if cache.index ≠ prev + 1 then 0 else runLength cache.index rest + 1

/-- The request for the run that begins with block `i` of the list.
SOURCE: IOExecutor.cpp:53-57 -/
def prepare (i : ℕ) (cache : CachedBlock) (rest : List CachedBlock) : Iocb where
  pos := i * blockSize
  nbytes := (runLength cache.index rest + 1) * blockSize
  offset := (cache.index + 1) * blockSize

/-- The batches that are submitted for the blocks from place `i` on, `iocbSeq` being the requests
that wait. SOURCE: IOExecutor.cpp:46-84 -/
def executeLoop : ℕ → ℕ → List CachedBlock → List Iocb → List (List Iocb)
  | fuel + 1, i, cache :: rest, iocbSeq =>
    let seq := iocbSeq ++ [prepare i cache rest]
    let count := runLength cache.index rest + 1
    let rest' := rest.drop (runLength cache.index rest)
    if seq.length = aioMaxIO ∨ rest' = [] then seq :: executeLoop fuel (i + count) rest' []
    else executeLoop fuel (i + count) rest' seq
  | _, _, _, _ => []

/-- SOURCE: IOExecutor.cpp:27-91 -/
def execute (caches : List CachedBlock) : List (List Iocb) :=
  if caches = [] ∨ caches.length * blockSize > maxBuffer then []
  else executeLoop caches.length 0 caches []

end IOExecutor

/-! ## The data file -/

/-- The blocks in memory, the dirty bitmap and the bytes on disk. SOURCE: File.h:186-192 -/
structure DataFile where
  blocks : ℕ → Option (ℕ → UInt8)
  dirtyBitmap : ℕ → BitVec 8
  bytes : ℕ → UInt8

namespace DataFile

/-- SOURCE: File.h:171-181 -/
def dirty (f : DataFile) (index : ℕ) : Bool :=
  f.dirtyBitmap (index / 8) &&& BitVec.twoPow 8 (index % 8) ≠ 0

/-- SOURCE: File.h:159-165 -/
def setClean (f : DataFile) (index : ℕ) : DataFile :=
  { f with
    dirtyBitmap := Function.update f.dirtyBitmap (index / 8)
      (f.dirtyBitmap (index / 8) &&& ~~~(BitVec.twoPow 8 (index % 8))) }

/-- The next `n` blocks from index `i` on: the file with their bits cleared, and those found.
SOURCE: File.cpp:614-630 -/
def flushLoop : ℕ → ℕ → DataFile → DataFile × List CachedBlock
  | 0, _, f => (f, [])
  | n + 1, i, f =>
    if (i : ℤ) < blockCount then
      if f.dirty i then
        match f.blocks i with
        | none => flushLoop n (i + 1) f
        | some buf =>
          let r := flushLoop n (i + 1) (f.setClean i)
          (r.1, ⟨i, buf⟩ :: r.2)
      else flushLoop n (i + 1) f
    else (f, [])

/-- The file with the bits cleared, and the patches that are submitted. SOURCE: File.cpp:613-652 -/
def flush (f : DataFile) (index count : ℕ) : DataFile × List (Patch UInt8) :=
  let r := flushLoop count index f
  (r.1, (IOExecutor.execute r.2).flatten.map (Iocb.patch (IOExecutor.buffer r.2)))

end DataFile

/-! ## The configuration -/

/-- SOURCE: Cache.cpp:867-876, Cache.h:118 -/
structure FlushCount where
  value : ℤ
  accepted : 0 < value ∧ value % 1000 = 0 ∧ value ≤ 50000

namespace FlushCount

/-- `FLUSH_PER_TIME`. SOURCE: Cache.h:43 -/
def perTime : FlushCount := ⟨10000, by decide⟩

/-- The part of `updateConfig` for `flush_count_cfg`; a text that is no number counts as 0.
SOURCE: Cache.cpp:867-876 -/
def updateConfig (cfg : FlushCount) (number : Option ℤ) : FlushCount :=
  let tmp := number.getD 0
  if h : 0 < tmp ∧ tmp % 1000 = 0 ∧ tmp ≤ 50000 then ⟨tmp, h⟩ else cfg

end FlushCount

end Oce.FeedDB
