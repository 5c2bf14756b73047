import Mathlib.Logic.Function.Basic
import Oce.Base.Run
import Oce.FeedDB.Model.Block

/-!
# The data node: block cache, data files and logs

`CacheManager` with the `DataFile`s and `LogFile`s it owns. A data file is an array of
blocks on disk, the blocks of it that are in memory, and a dirty bit for each; a log file
is the list of its records, and a second list while a flush is going on. A pointer to a
cached block is written through by `store`.

`put`, `get`, `remove` and `removeAll` run under the lock of their block and are single
steps here. The loops of `get` and `remove` follow `pre` pointers for as long as there are
any; `fuel` bounds the number of blocks they visit. Fields of a record that the code
leaves uninitialised are 0; where a task looks at such a field (`asyncPutWith`), it may be
anything.
-/

set_option autoImplicit false

namespace Oce.FeedDB

open Function Oce.Base

/-- A block of the node: its file and its index there. -/
structure BlockId where
  fileId : ℤ
  blockIndex : ℤ
  deriving DecidableEq, Repr

/-- The block an info names. -/
def BlockInfo.id (blk : BlockInfo) : BlockId := ⟨blk.fileId, blk.blockIndex⟩

/-- The block an info names as the one before it. -/
def BlockInfo.preId (blk : BlockInfo) : BlockId := ⟨blk.preFileId, blk.preBlockIndex⟩

/-- The value of a pointer to no block. -/
def BlockId.none : BlockId := ⟨0, -1⟩

/-- The pointer names no block: the test `fileId==0 || blockIndex==-1`. -/
def BlockId.isNone (id : BlockId) : Bool := id.fileId = 0 ∨ id.blockIndex = -1

/-- The block before this one in its user's chain. -/
def Block.pre (b : Block) : BlockId := ⟨b.head.preFileId, b.head.preBlockIndex⟩

/-- The block after this one in its user's chain. -/
def Block.next (b : Block) : BlockId := ⟨b.head.nextFileId, b.head.nextBlockIndex⟩

/-- SOURCE: Cache.h:113-129, File.h:85-193 -/
structure Node where
  files : List ℤ
  cache : BlockId → Option Block
  dirty : BlockId → Bool
  disk : BlockId → Block
  log : ℤ → List FeedItemBlockInfo
  logOld : ℤ → List FeedItemBlockInfo

namespace Node

/-- The write through a pointer to a cached block. -/
def store (n : Node) (id : BlockId) (b : Block) : Node :=
  { n with cache := update n.cache id (some b) }

/-- SOURCE: File.h:151-158 -/
def setDirty (n : Node) (id : BlockId) : Node :=
  { n with dirty := update n.dirty id true }

/-- The files after `fileId` is located; `none` is the null pointer: files below the
newest one are not made again. SOURCE: Cache.cpp:529-562 -/
def locateFile (files : List ℤ) (fileId : ℤ) : Option (List ℤ) :=
  if fileId ∈ files then some files
  else match files.getLast? with
    | none => some [fileId]
    | some high => if fileId < high then none else some (files ++ [fileId])

/-- SOURCE: Cache.cpp:529-562 -/
def locateDataFile (n : Node) (fileId : ℤ) : Option Node :=
  (locateFile n.files fileId).map fun files => { n with files := files }

/-- The index, an `unsigned int`, lies in a file. SOURCE: File.cpp:458 -/
def InFile (id : BlockId) : Prop := 0 ≤ id.blockIndex ∧ id.blockIndex < blockCount

instance (id : BlockId) : Decidable (InFile id) :=
  inferInstanceAs (Decidable (0 ≤ id.blockIndex ∧ id.blockIndex < blockCount))

/-- SOURCE: File.cpp:457-512 -/
def locate (n : Node) (id : BlockId) (load : Bool) : Option (Block × Node) :=
  if InFile id then
    match n.cache id with
    | some b => some (b, n)
    | none =>
      let b := if load then (n.disk id).reload else Block.init
      some (b, n.store id b)
  else none

/-- `locateDataFile(fileId)` followed by `Locate(blockIndex, load)`. -/
def find (n : Node) (id : BlockId) (load : Bool) : Option (Block × Node) :=
  (n.locateDataFile id.fileId).bind fun n => n.locate id load

/-- The node after a block was located by a reader. -/
def touch (n : Node) (id : BlockId) : Node :=
  match n.find id true with
  | none => n
  | some (_, n) => n

/-- What `put` does to the block it found: the block after it, and whether its dirty bit
is set. SOURCE: Cache.cpp:135-178 -/
def putBlock (cache : Block) (data : FeedItemBlockInfo) (overwrite : Bool) : Bool × Block :=
  let blk := data.blk
  if cache.head.userId ≠ 0 ∧ cache.head.userId ≠ uint32 blk.userId then (false, cache)
  -- records that only change a pointer
  else if blk.curCount = -1 then (true, cache.setPre blk.preFileId blk.preBlockIndex)
  else if blk.curCount = -2 then (true, cache.setNext blk.preFileId blk.preBlockIndex)
  else
    let r := if uint32 blk.curCount ≤ UInt32.ofNat recordPerBlock then
      cache.putData blk data.item overwrite else (false, cache)
    -- only the first record of a block carries the block before it
    if blk.curCount = 1 then (r.1, r.2.setPre blk.preFileId blk.preBlockIndex) else r

/-- SOURCE: Cache.cpp:106-179 -/
def put (n : Node) (data : FeedItemBlockInfo) (overwrite : Bool) : Node :=
  -- the first record of a block is written without loading the block
  match n.find data.blk.id (data.blk.curCount ≠ 1) with
  | none => n
  | some (cache, n) =>
    let r := putBlock cache data overwrite
    let n := n.store data.blk.id r.2
    if r.1 then n.setDirty data.blk.id else n

/-- `locateLogFile(fileId)->Log(data)`, for a file that can be located. -/
def logTo (n : Node) (data : FeedItemBlockInfo) : Node :=
  match n.locateDataFile data.blk.fileId with
  | none => n
  | some n =>
    { n with
      log := update n.log data.blk.fileId (n.log data.blk.fileId ++ [data]) }

/-- A record that is not written by a client: no item, and only the fields given. -/
def specialRecord (feed userId count : ℤ) (id target : BlockId) : FeedItemBlockInfo where
  item := ⟨feed, 0, 0, 0, 0, 0⟩
  blk := ⟨0, userId, count, count, id.fileId, id.blockIndex, target.fileId, target.blockIndex, 0⟩

/-- `changeNextPtr` with `sync`. SOURCE: Cache.cpp:235-258 -/
def changeNextPtr (n : Node) (userId : ℤ) (id next : BlockId) : Node :=
  if id.isNone then n
  else (n.logTo (specialRecord 0 userId (-2) id next)).put (specialRecord 0 userId (-2) id next) false

/-- `changePrePtr` with `sync`. SOURCE: Cache.cpp:260-282 -/
def changePrePtr (n : Node) (userId : ℤ) (id pre : BlockId) : Node :=
  if id.isNone then n
  else (n.logTo (specialRecord 0 userId (-1) id pre)).put (specialRecord 0 userId (-1) id pre) false

/-- SOURCE: Cache.cpp:181-193 -/
def syncPut (n : Node) (data : FeedItemBlockInfo) (log : Bool) : Node :=
  let n := if log then n.logTo data else n
  let n := n.put data false
  if data.blk.curCount = 1 then n.changeNextPtr data.blk.userId data.blk.preId data.blk.id else n

/-- The items the loop of `get` copies, for the blocks from `id` on and a space of `count`
items; `none` when the loop has not ended after `fuel` blocks. SOURCE: Cache.cpp:298-334 -/
def getLoop (userId : ℤ) : ℕ → Node → BlockId → ℕ → Option (List FeedItem)
  | 0, _, _, _ => none
  | fuel + 1, n, id, count =>
    if count = 0 ∨ id.isNone then some []
    else match n.find id true with
      | none => some []
      | some (cache, n) =>
        if userId ≠ 0 ∧ cache.head.userId ≠ uint32 userId then some []
        else
          let data := cache.getData count
          (getLoop userId fuel n cache.pre (count - data.length)).map (data ++ ·)

/-- SOURCE: Cache.cpp:283-335 -/
def get (n : Node) (blk : BlockInfo) (count fuel : ℕ) : Option (List FeedItem) :=
  getLoop blk.userId fuel n blk.id count

/-- SOURCE: Cache.cpp:337-365 -/
def removeAll (n : Node) (userId : ℤ) (id : BlockId) (log : Bool) : Node :=
  match n.find id true with
  | none => n
  | some (cache, n) =>
    let n := if log then n.logTo (specialRecord 0 userId (-3) id .none) else n
    n.store id cache.removeAll

/-- What the loop of `remove` found: the block it removed the feed from, and whether that
block, now empty, is to be taken out of its chain. -/
inductive Removed where
  | nothing
  | done (id : BlockId) (deleteBlock : Bool)
  deriving DecidableEq, Repr

/-- SOURCE: Cache.cpp:377-426 -/
def removeLoop (feed : ℤ) (depth : Bool) : ℕ → Node → BlockId → Removed × Node
  | 0, n, _ => (.nothing, n)
  | fuel + 1, n, id =>
    if id.isNone then (.nothing, n)
    else match n.find id true with
      | none => (.nothing, n)
      | some (cache, n) =>
        if (cache.remove feed).1 then
          let cache := (cache.remove feed).2
          (.done id (cache.isEmpty ∧ cache.next.fileId ≠ 0 ∧ cache.next.blockIndex ≠ -1),
            (n.store id cache).setDirty id)
        else if depth then removeLoop feed depth fuel n cache.pre
        else (.nothing, n)

/-- The emptied block leaves its chain; in recovery only its own pointers are cleared.
SOURCE: Cache.cpp:444-476 -/
def deleteBlock (n : Node) (id : BlockId) (log : Bool) : Node :=
  match n.find id true with
  | none => n
  | some (cache, n) =>
    let userId := int32 cache.head.userId
    let n := if log then
      (n.changePrePtr userId cache.next cache.pre).changeNextPtr userId cache.pre cache.next else n
    (n.changePrePtr userId id .none).changeNextPtr userId id .none

/-- With `support_remove_cfg_` on; off, the code returns at once. SOURCE: Cache.cpp:367-477 -/
def remove (n : Node) (blk : BlockInfo) (feed : ℤ) (depth log : Bool) (fuel : ℕ) : Node :=
  match removeLoop feed depth fuel n blk.id with
  | (.nothing, n) => n
  | (.done id delete, n) =>
    let n := if log then n.logTo (specialRecord (-feed) blk.userId 0 id ⟨0, 0⟩) else n
    if delete then n.deleteBlock id log else n

/-- `PutTask::handle` for one record. SOURCE: Cache.h:140-148 -/
def handleTask (n : Node) (data : FeedItemBlockInfo) (overwrite : Bool) (fuel : ℕ) : Node :=
  if data.item.feed < 0 then n.remove data.blk (-data.item.feed) true true fuel
  else n.put data overwrite

/-- `changeNextPtr` without `sync`: the task of its record looks at the feed, which the code does not
set. `garbage` is what the memory holds there. SOURCE: Cache.cpp:235-258 -/
def changeNextPtrAsync (garbage : ℤ) (n : Node) (userId : ℤ) (id next : BlockId) (fuel : ℕ) : Node :=
  if id.isNone then n
  else (n.logTo (specialRecord garbage userId (-2) id next)).handleTask
    (specialRecord garbage userId (-2) id next) false fuel

/-- `asyncPut` of one record with the tasks it queues handled at once.
SOURCE: Cache.cpp:195-208 -/
def asyncPutWith (garbage : ℤ) (n : Node) (data : FeedItemBlockInfo) (overwrite : Bool)
    (fuel : ℕ) : Node :=
  let n := (n.logTo data).handleTask data overwrite fuel
  if data.blk.curCount = 1 then
    n.changeNextPtrAsync garbage data.blk.userId data.blk.preId data.blk.id fuel
  else n

/-- `asyncPut` where the memory of a pointer record was cleared. -/
def asyncPut (n : Node) (data : FeedItemBlockInfo) (overwrite : Bool) (fuel : ℕ) : Node :=
  n.asyncPutWith 0 data overwrite fuel

/-- A cleared pointer record is put. -/
theorem asyncPut_eq (n : Node) (data : FeedItemBlockInfo) (overwrite : Bool) (fuel : ℕ) :
    n.asyncPut data overwrite fuel =
      if data.blk.curCount = 1 then
        ((n.logTo data).handleTask data overwrite fuel).changeNextPtr data.blk.userId data.blk.preId
          data.blk.id
      else (n.logTo data).handleTask data overwrite fuel := rfl

/-- `asyncRemove` with its task handled at once. SOURCE: Cache.cpp:488-499 -/
def asyncRemove (n : Node) (blk : BlockInfo) (feed : ℤ) (fuel : ℕ) : Node :=
  n.handleTask ⟨⟨-feed, 0, 0, 0, 0, 0⟩, blk⟩ false fuel

/-! ## Files -/

/-- Blocks one execution of the IO buffer holds. SOURCE: IOExecutor.h:21 -/
def maxFlush : ℕ := 32 * 1024 * 1024 / blockSize

/-- The dirty blocks of a range of a file. SOURCE: File.cpp:615-632 -/
def dirtys (n : Node) (fileId : ℤ) (index count : ℕ) : List BlockId :=
  ((List.range count).map fun i => (⟨fileId, (index + i : ℕ)⟩ : BlockId)).filter fun id =>
    id.blockIndex < blockCount ∧ n.dirty id ∧ (n.cache id).isSome

/-- The bits are cleared first; more blocks than the buffer holds are not written.
SOURCE: File.cpp:613-652, IOExecutor.cpp:34-38 -/
def flush (n : Node) (fileId : ℤ) (index count : ℕ) : Node :=
  let ids := n.dirtys fileId index count
  { n with
    dirty := fun id => n.dirty id && !decide (id ∈ ids)
    disk := fun id =>
      if id ∈ ids ∧ ids.length ≤ maxFlush then (n.cache id).getD (n.disk id) else n.disk id }

/-- Clean blocks leave the memory: of those given, each that is clean. Which ones the scan
of the file reaches before it has enough is left open. SOURCE: File.cpp:659-683 -/
def evict (n : Node) (ids : List BlockId) : Node :=
  { n with cache := fun id => if id ∈ ids ∧ n.dirty id = false then none else n.cache id }

/-- SOURCE: File.cpp:336-352 -/
def createNewFile (n : Node) (fileId : ℤ) : Node :=
  { n with
    logOld := update n.logOld fileId (n.log fileId)
    log := update n.log fileId [] }

/-- SOURCE: File.cpp:354-358 -/
def deleteOldFile (n : Node) (fileId : ℤ) : Node :=
  { n with logOld := update n.logOld fileId [] }

/-! ## Recovery -/

/-- A node as the process finds it: nothing in memory. -/
def started (files : List ℤ) (disk : BlockId → Block) (log logOld : ℤ → List FeedItemBlockInfo) :
    Node where
  files := files
  cache := fun _ => none
  dirty := fun _ => false
  disk := disk
  log := log
  logOld := logOld

/-- The process starts again: the memory is gone, the log files of each data file are
joined. SOURCE: File.cpp:210-242 -/
def crash (n : Node) : Node where
  files := []
  cache := fun _ => .none
  dirty := fun _ => false
  disk := n.disk
  log := fun f => n.logOld f ++ n.log f
  logOld := fun _ => []

/-- A block taken from the file read as a whole, for one index of `LocateAll` or
`LocateBatch`. SOURCE: File.cpp:699-740 -/
def locateFrom (n : Node) (id : BlockId) : Node :=
  if (n.cache id).isSome ∨ (n.disk id).head.userId = 0 then n else n.store id (n.disk id)

/-- One turn of the loop of `Restore`. SOURCE: File.cpp:274-288 -/
def restoreRecord (n : Node) (data : FeedItemBlockInfo) : Node :=
  let n := if data.item.feed < 0 then n.remove data.blk (-data.item.feed) false false 1
    else n.syncPut data false
  if data.blk.curCount = -3 then n.removeAll data.blk.userId data.blk.id false else n

/-- SOURCE: File.cpp:253-298 -/
def restore (n : Node) (records : List FeedItemBlockInfo) : Node :=
  records.foldl restoreRecord n

end Node

/-!
## Reading a data file as a whole before its log is replayed

`preLoad` goes through the data files with one buffer of a file's size. A file with a long log
is read into the buffer by `loadAllData`, which reads as many blocks as the head on disk says
are in use, and `Restore(buf)` takes the blocks its log names from there before it replays the
log. What the read does not fill still holds what the files before left there; the buffer is
not cleared, and how many blocks were read is not looked at.
-/

/-- The buffer of `preLoad`, by block. -/
abbrev Buffer := ℕ → Block

/-- What is known of a data file: `used_block_count` of the head on disk, the blocks that are
allocated, and the blocks a read from its start gets. -/
structure FileExtent where
  usedBlockCount : ℕ
  actualSize : ℕ
  readable : ℕ
  deriving DecidableEq

/-- How `preLoad` recovers a file. SOURCE: Cache.cpp:71-89 -/
inductive PreloadMode where
  | all
  | batch
  | direct
  deriving DecidableEq

/-- The blocks that were read, none for an incomplete read, and the buffer.
SOURCE: File.cpp:736-767 -/
def loadAllData (disk : BlockId → Block) (fileId : ℤ) (ext : FileExtent) (buf : Buffer) :
    ℕ × Buffer :=
  if ext.usedBlockCount = 0 ∨ ext.actualSize = 0 then (0, buf)
  else
    let c := min ext.usedBlockCount ext.readable
    (if c = ext.usedBlockCount then c else 0,
      fun i => if i < c then disk ⟨fileId, i⟩ else buf i)

namespace Node

/-- A block of the buffer is put in memory, unless the block is there or has no owner.
SOURCE: File.cpp:699-712, 719-733 -/
def locateBuf (n : Node) (id : BlockId) (buf : Buffer) : Node :=
  if (n.cache id).isSome ∨ (buf id.blockIndex.toNat).head.userId = 0 then n
  else n.store id (buf id.blockIndex.toNat)

/-- `none` is an access outside of `blocks_`. SOURCE: File.cpp:696-713 -/
def locateBatch (n : Node) (fileId : ℤ) (buf : Buffer) (indexs : List ℤ) : Option Node :=
  indexs.foldlM (fun n index =>
    if InFile ⟨fileId, index⟩ then some (n.locateBuf ⟨fileId, index⟩ buf) else none) n

/-- SOURCE: File.cpp:715-734 -/
def locateAll (n : Node) (fileId : ℤ) (buf : Buffer) (count : ℕ) : Node :=
  (List.range count).foldl (fun n index => n.locateBuf ⟨fileId, index⟩ buf) n

/-- `Restore(buf)`, of a file that is located. SOURCE: File.cpp:253-298 -/
def restoreBuf (n : Node) (fileId : ℤ) (buf : Buffer) (records : List FeedItemBlockInfo) :
    Option Node :=
  (n.locateBatch fileId buf (records.map fun r => r.blk.blockIndex)).map fun n => n.restore records

/-- One file of the loop of `preLoad`. SOURCE: Cache.cpp:66-91 -/
def preLoadFile (mode : PreloadMode) (fileId : ℤ) (ext : FileExtent)
    (records : List FeedItemBlockInfo) : Node × Buffer → Option (Node × Buffer)
  | (n, buf) =>
    match n.locateDataFile fileId with
    | none => some (n, buf)
    | some n =>
      let r := loadAllData n.disk fileId ext buf
      match mode with
      | .all => some ((n.locateAll fileId r.2 r.1).restore records, r.2)
      | .batch => (n.restoreBuf fileId r.2 records).map fun n => (n, r.2)
      | .direct => some (n.restore records, buf)

end Node

end Oce.FeedDB
