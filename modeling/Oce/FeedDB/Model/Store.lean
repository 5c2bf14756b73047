import Oce.FeedDB.Model.Node
import Oce.FeedDB.Model.Records

/-!
# A data node with its tasks, its flush cycle and its recovery

`asyncPut` appends a record to the log and then queues a task that puts it into memory, a
pool of threads executes the tasks, and a timer goes through the blocks of one file: it
renames the log to `.log.old`, writes the dirty blocks range by range, and deletes
`.log.old`. `StoreOp` is a step of any of them, so an interleaving is a list of steps. The
call of `asyncPut` for the pointer record that follows the first record of a block is a call
like any other.

`dropped`, `place` and `full` are not in the source: the records that went with a deleted
`.log.old`, oldest first; the place that the record of a task has among all that were appended
to the log of its file; and the places of the records whose task found their block full and
without their feed.
-/

set_option autoImplicit false

namespace Oce.FeedDB

open Oce.Base

section Node

namespace Node

/-- The record's block is full and does not have its feed. -/
def turnsAway (n : Node) (data : FeedItemBlockInfo) : Bool :=
  (n.find data.blk.id (data.blk.curCount ≠ 1)).any fun r =>
    decide (r.1.curCount = recordPerBlock ∧ r.1.find data.item.feed = none)

/-- One file of the loop of `preLoad`: the blocks of `ids` are taken from the file read as a
whole, then the log is replayed. SOURCE: Cache.cpp:66-91 -/
def recoverFile (n : Node) (fileId : ℤ) (ids : List BlockId) (records : List FeedItemBlockInfo) :
    Node :=
  match n.locateDataFile fileId with
  | none => n
  | some n => (ids.foldl locateFrom n).restore records

/-- The records of a file's log when the process starts: `.log.old` comes first.
SOURCE: File.cpp:210-242 -/
def recoveryLog (n : Node) (fileId : ℤ) : List FeedItemBlockInfo := n.logOld fileId ++ n.log fileId

/-- The files of the list are recovered. The log of a file was read before any file was
recovered or when it was located, so what the recovery itself logs is not replayed. -/
def recoverFiles (n : Node) (preload : ℤ → List BlockId) (files : List ℤ) : Node :=
  files.foldl (fun m f => m.recoverFile f (preload f) (n.recoveryLog f)) n.crash

/-- The process dies and starts again. `preload` are the blocks of each file that are read
in advance. SOURCE: Cache.cpp:17-93 -/
def recover (n : Node) (preload : ℤ → List BlockId) : Node := n.recoverFiles preload n.files

/-- The process dies and the log of one file is replayed, each block read from the file when a
record asks for it. SOURCE: Cache.cpp:86-89, File.cpp:253-298 -/
def restart (n : Node) (fileId : ℤ) : Node := n.crash.recoverFile fileId [] (n.recoveryLog fileId)

/-- `FeedDBDataI::modify` on data node number `index`, with its task handled at once.
SOURCE: FeedDBDataI.cpp:77-90 -/
def modify (n : Node) (index : ℤ) (feed : FeedItem) (blkInfo : BlockInfo) (fuel : ℕ) : Node :=
  if blkInfo.serverId ≠ index then n else n.asyncPut ⟨feed, blkInfo⟩ true fuel

/-- The recovery just before record `i` of the log of a file is replayed. -/
def recoverUpTo (n : Node) (preload : ℤ → List BlockId) (fileId : ℤ) (i : ℕ) : Node :=
  (n.recoverFiles preload (n.files.takeWhile fun f => decide (f ≠ fileId))).recoverFile fileId
    (preload fileId) ((n.recoveryLog fileId).take i)

end Node

/-- A `PutTask` of one record. SOURCE: Cache.h:132-153 -/
structure PutTask where
  data : FeedItemBlockInfo
  overwrite : Bool
  deriving DecidableEq, Repr

/-- A task that was not executed yet, with the place of its record if that was logged. -/
structure WaitingTask extends PutTask where
  place : Option ℕ
  deriving DecidableEq, Repr

/-- The node, the calls of `asyncPut` that have logged and not queued, the queue, and the
file the timer flushes with the index of the next block. -/
structure Store where
  node : Node
  calling : List WaitingTask
  tasks : List WaitingTask
  cycle : Option (ℤ × ℕ)
  dropped : ℤ → List FeedItemBlockInfo
  full : List (ℤ × ℕ)

namespace Store

/-- Everything that was appended to the log of a file. -/
def history (s : Store) (fileId : ℤ) : List FeedItemBlockInfo :=
  s.dropped fileId ++ s.node.recoveryLog fileId

/-- The task of the record at a place of the history of a file was not executed yet. -/
def Pending (s : Store) (fileId : ℤ) (i : ℕ) : Prop :=
  ∃ t ∈ s.calling ++ s.tasks, t.data.blk.fileId = fileId ∧ t.place = some i

/-- The place of the next record of a file, none if it cannot be logged. -/
def nextPlace (s : Store) (fileId : ℤ) : Option ℕ :=
  (s.node.locateDataFile fileId).map fun _ => (s.history fileId).length

/-- The store when the process starts without logs. -/
def start (files : List ℤ) (disk : BlockId → Block) : Store where
  node := .started files disk (fun _ => []) fun _ => []
  calling := []
  tasks := []
  cycle := none
  dropped := fun _ => []
  full := []

end Store

/-- The steps of clients, task threads and the timer. -/
inductive StoreOp where
  | log (task : PutTask)
  | queue (i : ℕ)
  | removeFeed (blk : BlockInfo) (feed : ℤ)
  | handle (i : ℕ) (fuel : ℕ)
  | createNewFile (fileId : ℤ)
  | flush (count : ℕ)
  | deleteOldFile
  deriving DecidableEq

namespace StoreOp

/-- SOURCE: Cache.cpp:195-205, 488-499, 684-784, Cache.h:140-148 -/
def step (s : Store) : StoreOp → Store
  | log task =>
    { s with
      node := s.node.logTo task.data
      calling := s.calling ++ [⟨task, s.nextPlace task.data.blk.fileId⟩] }
  | queue i =>
    match s.calling[i]? with
    | none => s
    | some task => { s with calling := s.calling.eraseIdx i, tasks := s.tasks ++ [task] }
  | removeFeed blk feed => 
    { s with tasks := s.tasks ++ [⟨⟨⟨⟨-feed, 0, 0, 0, 0, 0⟩, blk⟩, false⟩, none⟩] }
  | handle i fuel =>
    match s.tasks[i]? with
    | none => s
    | some task =>
      { s with
        node := s.node.handleTask task.data task.overwrite fuel
        tasks := s.tasks.eraseIdx i
        full :=
          if s.node.turnsAway task.data then
            task.place.toList.map (fun i => (task.data.blk.fileId, i)) ++ s.full
          else s.full }
  | createNewFile fileId =>
    if s.cycle = none ∧ fileId ∈ s.node.files then
      { s with node := s.node.createNewFile fileId, cycle := some (fileId, 0) }
    else s
  | flush count =>
    match s.cycle with
    | none => s
    | some (fileId, index) =>
      if (index : ℤ) < blockCount then
        { s with node := s.node.flush fileId index count, cycle := some (fileId, index + count) }
      else s
  | deleteOldFile =>
    match s.cycle with
    | none => s
    | some (fileId, index) =>
      if (index : ℤ) < blockCount then s
      else
        { s with
          node := s.node.deleteOldFile fileId
          cycle := none
          dropped := Function.update s.dropped fileId (s.dropped fileId ++ s.node.logOld fileId) }

end StoreOp

/-!
## The log files of a data file when the process starts

A flush renames `<id>.log` to `<id>.log.old` and begins a new `<id>.log`. If the process dies
before `.log.old` is deleted, `LogFile::Init` joins the two: it appends `.log` to `.log.old`,
deletes `.log`, and renames `.log.old` to `.log`. The process may die between the three steps
and start over with what they left.
-/

/-- The two files; `none` is a file that is not there. -/
structure LogDir where
  log : Option (List FeedItemBlockInfo)
  old : Option (List FeedItemBlockInfo)
  deriving DecidableEq

namespace LogDir

/-- `CombineFile(log, old)`: nothing is done when one of them cannot be opened.
SOURCE: File.cpp:41-68 -/
def combineFile (d : LogDir) : LogDir :=
  match d.log, d.old with
  | some src, some dst => { d with old := some (dst ++ src) }
  | _, _ => d

/-- `DeleteFile(log)`. -/
def deleteFile (d : LogDir) : LogDir := { d with log := none }

/-- `RenameFile(old, log)`. -/
def renameFile (d : LogDir) : LogDir :=
  match d.old with
  | none => d
  | some records => ⟨some records, none⟩

/-- SOURCE: File.cpp:216-220 -/
def joinSteps : List (LogDir → LogDir) := [combineFile, deleteFile, renameFile]

/-- The first `k` steps of the join, if there is anything to join. -/
def joinUpTo (d : LogDir) (k : ℕ) : LogDir :=
  if d.old.isSome then (joinSteps.take k).foldl (fun d f => f d) d else d

/-- The file that is opened, made if it is not there, and read as a whole.
SOURCE: File.cpp:210-242 -/
def init (d : LogDir) : List FeedItemBlockInfo := (d.joinUpTo joinSteps.length).log.getD []

/-- What is read after starts that died, each after so many steps of the join. -/
def initAfter (d : LogDir) (crashes : List ℕ) : List FeedItemBlockInfo :=
  (crashes.foldl joinUpTo d).init

end LogDir

/-!
## The requests of a data node and what else happens to it

A `Request` is one call of `put`, `get`, `remove` or of one of the pointer updates. `Action`
adds what the node does by itself, a flush, an eviction, the two steps of the log files and a
restart with recovery, so a run is a list of actions.
-/

namespace Node

/-- The node after the loop of `get`, which loads every block it reads.
SOURCE: Cache.cpp:298-334 -/
def getLoopNode (userId : ℤ) : ℕ → Node → BlockId → ℕ → Node
  | 0, n, _, _ => n
  | fuel + 1, n, id, count =>
    if count = 0 ∨ id.isNone then n
    else match n.find id true with
      | none => n
      | some (cache, n) =>
        if userId ≠ 0 ∧ cache.head.userId ≠ uint32 userId then n
        else getLoopNode userId fuel n cache.pre (count - (cache.getData count).length)

end Node

/-- A call of the data node. -/
inductive Request where
  | put (data : FeedItemBlockInfo) (overwrite : Bool)
  | get (blk : BlockInfo) (count fuel : ℕ)
  | remove (blk : BlockInfo) (feed : ℤ) (depth log : Bool) (fuel : ℕ)
  | changeNextPtr (userId : ℤ) (id next : BlockId)
  | changePrePtr (userId : ℤ) (id pre : BlockId)
  deriving DecidableEq

namespace Request

/-- The user a call is made for. -/
def userId : Request → ℤ
  | put data _ => data.blk.userId
  | get blk _ _ => blk.userId
  | remove blk _ _ _ _ => blk.userId
  | changeNextPtr userId _ _ => userId
  | changePrePtr userId _ _ => userId

/-- The node after a call. -/
def step (n : Node) : Request → Node
  | put data overwrite => n.put data overwrite
  | get blk count fuel => n.getLoopNode blk.userId fuel blk.id count
  | remove blk feed depth log fuel => n.remove blk feed depth log fuel
  | changeNextPtr userId id next => n.changeNextPtr userId id next
  | changePrePtr userId id pre => n.changePrePtr userId id pre

/-- The items a call returns. -/
def answer (n : Node) : Request → Option (List FeedItem)
  | get blk count fuel => n.get blk count fuel
  | _ => some []

end Request

/-- What can happen to a data node. -/
inductive Action where
  | request (r : Request)
  | flush (fileId : ℤ) (index count : ℕ)
  | evict (ids : List BlockId)
  | createNewFile (fileId : ℤ)
  | deleteOldFile (fileId : ℤ)
  | recover (preload : ℤ → List BlockId)

/-- The node after an action. -/
def Action.step (n : Node) : Action → Node
  | request r => r.step n
  | flush fileId index count => n.flush fileId index count
  | evict ids => n.evict ids
  | createNewFile fileId => n.createNewFile fileId
  | deleteOldFile fileId => n.deleteOldFile fileId
  | recover preload => n.recover preload

end Node

end Oce.FeedDB
