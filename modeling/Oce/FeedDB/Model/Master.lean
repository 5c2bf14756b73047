import Mathlib.Logic.Function.Basic
import Oce.Base.Int32
import Oce.Base.OrdMap
import Oce.Base.Run
import Oce.FeedDB.Model.Records

/-!
# The master: block allocation and the hash database

`DataNodeManager` hands out the blocks of the data nodes. It keeps one `DataNode` per
server, the file being filled and the number of its blocks in use, and stores it under
key 0 of a hash database whose other keys are user ids. A value of that database is the
sequence of 32-bit words the code casts to `BlockData` or to an array of `DataNode`.

An operation is one critical section of the code, so an interleaving of any number of
clients is a list of operations. `moveBlock` holds no lock while the data node copies the
block, so it is two operations, and `moving` lists the calls that have done the first.
A master that stops inside `get` or `newBlock`, with the block allocated and no record
written, leaves what the first half of `moveBlock` leaves.

`_dataNodes.at` throws for an unknown server; the result `outOfRange` is that exception.
Where the code leaves its arrays or the range of an `int` there is no result, `none`: a user's
mutex is looked for at the remainder of the user's id, which is negative for most negative ids,
and the nodes are written through a buffer of 100.
`handedOut` is not in the source: it logs the blocks `allocFreeBlockInNodeNoLock` gives
out, latest first.
-/

set_option autoImplicit false

namespace Oce.FeedDB

open Oce.Base

/-- What the master knows of a user's newest block. SOURCE: DataNodeManager.h:18-24 -/
structure BlockData where
  serverId : ℤ
  curCount : ℤ
  totalCount : ℤ
  fileId : ℤ
  blockIndex : ℤ
  deriving DecidableEq, Repr

/-- The file a server fills and how much of it is used. SOURCE: FeedDB.ice:89-93 -/
structure DataNode where
  serverId : ℤ
  fileId : ℤ
  usedBlockCount : ℤ
  deriving DecidableEq, Repr

/-- A block of the cluster: its server, file and index. -/
structure BlockPos where
  serverId : ℤ
  fileId : ℤ
  blockIndex : ℤ
  deriving DecidableEq, Repr

/-- The block an info names. -/
def BlockInfo.pos (info : BlockInfo) : BlockPos := ⟨info.serverId, info.fileId, info.blockIndex⟩

/-- The block an info names as the one before it. -/
def BlockInfo.prePos (info : BlockInfo) : BlockPos :=
  ⟨info.serverId, info.preFileId, info.preBlockIndex⟩

namespace BlockData

/-- The words of a stored `BlockData`. -/
def toWords (d : BlockData) : List ℤ :=
  [d.serverId, d.curCount, d.totalCount, d.fileId, d.blockIndex]

/-- `*((BlockData*)res)`. -/
def ofWords (w : List ℤ) : BlockData :=
  ⟨w.getD 0 0, w.getD 1 0, w.getD 2 0, w.getD 3 0, w.getD 4 0⟩

@[simp] theorem ofWords_toWords (d : BlockData) : ofWords d.toWords = d := rfl

/-- The block the record names. -/
def pos (d : BlockData) : BlockPos := ⟨d.serverId, d.fileId, d.blockIndex⟩

end BlockData

namespace DataNode

/-- The words of a stored `DataNode`. -/
def toWords (n : DataNode) : List ℤ := [n.serverId, n.fileId, n.usedBlockCount]

/-- The array of `size/sizeof(DataNode)` nodes at the start of a stored value. -/
def arrayOfWords : List ℤ → List DataNode
  | a :: b :: c :: w => ⟨a, b, c⟩ :: arrayOfWords w
  | _ => []

@[simp] theorem arrayOfWords_flatMap (l : List DataNode) :
    arrayOfWords (l.flatMap toWords) = l := by
  induction l with
  | nil => rfl
  | cons n l ih => simp [toWords, arrayOfWords, ih]

end DataNode

/-- The hash database. SOURCE: DataNodeManager.h:27-41 -/
abbrev HashDB := ℤ → Option (List ℤ)

namespace HashDB

/-- SOURCE: DataNodeManager.cpp:38-43 -/
def put (db : HashDB) (key : ℤ) (words : List ℤ) : HashDB :=
  Function.update db key (some words)

/-- SOURCE: DataNodeManager.cpp:45-47 -/
def remove (db : HashDB) (key : ℤ) : HashDB := Function.update db key none

/-- SOURCE: DataNodeManager.cpp:49-59 -/
def get (db : HashDB) (key : ℤ) : Option BlockData := (db key).map BlockData.ofWords

/-- SOURCE: DataNodeManager.cpp:61-75 -/
def loadDataNode (db : HashDB) : OrdMap ℤ DataNode :=
  match db 0 with
  | none => .empty
  | some words =>
    OrdMap.empty.insertAll ((DataNode.arrayOfWords words).map fun n => (n.serverId, n))

/-- What is stored: an empty table is not written. -/
def storeDataNode (db : HashDB) (nodes : OrdMap ℤ DataNode) : HashDB :=
  if nodes.entries = [] then db else db.put 0 (nodes.values.flatMap DataNode.toWords)

/-- SOURCE: DataNodeManager.h:47 -/
def maxDataNode : ℕ := 100

/-- The nodes are copied into an array of `maxDataNode`. SOURCE: DataNodeManager.cpp:77-91 -/
def flushDataNode (db : HashDB) (nodes : OrdMap ℤ DataNode) : Option HashDB :=
  if nodes.entries.length ≤ maxDataNode then some (db.storeDataNode nodes) else none

end HashDB

/-- The locals of a call of `moveBlock` that waits for the data node.
SOURCE: DataNodeManager.cpp:335-344 -/
structure MoveCall where
  blkInfoOld : BlockInfo
  newBlkInfo : BlockInfo
  newBlk : BlockData
  deriving DecidableEq, Repr

/-- SOURCE: DataNodeManager.h:43-80 -/
structure DataNodeManager where
  hashDB : HashDB
  dataNodes : OrdMap ℤ DataNode
  curNode : ℤ
  curCount : ℤ
  moving : List MoveCall
  handedOut : List BlockPos

/-- The exception of `_dataNodes.at`. -/
inductive OutOfRange where
  | outOfRange
  deriving DecidableEq, Repr

/-- What an operation returns: a block, the null pointer, an exception, or the request
to the data node to copy a block. -/
inductive Reply where
  | block (info : BlockInfo)
  | null
  | thrown (e : OutOfRange)
  | copy (blkInfoFrom blkInfoTo : BlockInfo)
  deriving DecidableEq, Repr

/-- SOURCE: DataNodeManager.h:46 -/
def allocCount : ℤ := 10000

namespace DataNodeManager

/-- The node table of a fresh cluster: file 1, no block used.
SOURCE: DataNodeManager.cpp:105-127 -/
def freshNodes (nNodes : ℕ) : OrdMap ℤ DataNode :=
  OrdMap.empty.insertAll
    ((List.range (if nNodes = 0 then 1 else nNodes)).map fun (i : ℕ) => ((i : ℤ), ⟨i, 1, 0⟩))

/-- A start of the master on the database it left behind. `curNode` and `curCount` are
the uninitialised members of the object. SOURCE: DataNodeManager.cpp:95-132 -/
def init (m : DataNodeManager) (cluster : ℕ) (curNode curCount : ℤ) : Option DataNodeManager :=
  let nodes := m.hashDB.loadDataNode
  if nodes.entries = [] then
    (m.hashDB.flushDataNode (freshNodes cluster)).map fun db =>
      { m with
        hashDB := db
        dataNodes := freshNodes cluster
        curNode := curNode
        curCount := curCount
        moving := [] }
  else some { m with dataNodes := nodes, curNode := curNode, curCount := curCount, moving := [] }

/-- SOURCE: DataNodeManager.cpp:134-145 -/
def addDataNode (m : DataNodeManager) (serverId : ℤ) : DataNodeManager :=
  match m.dataNodes.find serverId with
  | some _ => m
  | none => { m with dataNodes := m.dataNodes.insert serverId ⟨serverId, 1, 0⟩ }

/-- One iteration of the search for the least used server. -/
def leastUsed (best : ℤ × ℤ × ℤ) (e : ℤ × DataNode) : ℤ × ℤ × ℤ :=
  let (f, c, index) := best
  if e.2.fileId < f ∨ e.2.fileId = f ∧ e.2.usedBlockCount < c then
    (e.2.fileId, e.2.usedBlockCount, e.1)
  else (f, c, index)

/-- SOURCE: DataNodeManager.cpp:147-167 -/
def findDataNode (m : DataNodeManager) : ℤ :=
  match m.dataNodes.entries with
  | [] => -1
  | e :: l => (l.foldl leastUsed (e.2.fileId, e.2.usedBlockCount, 0)).2.2

/-- The table after a node changed, as it is stored, and the block the change handed out. -/
def handOut (m : DataNodeManager) (nodeId : ℤ) (node : DataNode) (blk : BlockData) :
    DataNodeManager :=
  let nodes := m.dataNodes.insert nodeId node
  { m with
    dataNodes := nodes
    hashDB := m.hashDB.storeDataNode nodes
    handedOut := blk.pos :: m.handedOut }

/-- A block is handed out if the table can be written. -/
def tryHandOut (m : DataNodeManager) (nodeId : ℤ) (node : DataNode) (blk : BlockData) :
    Option (Except OutOfRange BlockData × DataNodeManager) :=
  (m.hashDB.flushDataNode (m.dataNodes.insert nodeId node)).map fun _ =>
    (.ok blk, m.handOut nodeId node blk)

/-- SOURCE: DataNodeManager.cpp:169-189 -/
def allocFreeBlockInNodeNoLock (m : DataNodeManager) (nodeId : ℤ) :
    Option (Except OutOfRange BlockData × DataNodeManager) :=
  match m.dataNodes.find nodeId with
  | none => some (.error .outOfRange, m)
  | some node =>
    if node.usedBlockCount < blockCount then
      m.tryHandOut nodeId { node with usedBlockCount := node.usedBlockCount + 1 }
        ⟨node.serverId, 1, 1, node.fileId, node.usedBlockCount⟩
    else if IsInt (node.fileId + 1) then
      -- the file is full: the first block of the next one
      m.tryHandOut nodeId { node with fileId := node.fileId + 1, usedBlockCount := 1 }
        ⟨node.serverId, 1, 1, node.fileId + 1, 0⟩
    else none

/-- SOURCE: DataNodeManager.cpp:191-195 -/
def allocFreeBlockInNode (m : DataNodeManager) (nodeId : ℤ) :
    Option (Except OutOfRange BlockData × DataNodeManager) :=
  m.allocFreeBlockInNodeNoLock nodeId

/-- The node that the next new user's block comes from. SOURCE: DataNodeManager.cpp:202-205 -/
def nextNode (m : DataNodeManager) : ℤ :=
  if m.curNode < 0 ∨ m.curCount ≥ allocCount then m.findDataNode else m.curNode

/-- The master with its cursor on that node. -/
def moveCursor (m : DataNodeManager) : DataNodeManager :=
  { m with
    curNode := m.nextNode
    curCount := if m.curNode < 0 ∨ m.curCount ≥ allocCount then 0 else m.curCount }

/-- The result `none` of the block is `false`. SOURCE: DataNodeManager.cpp:197-212 -/
def allocFreeBlock (m : DataNodeManager) :
    Option (Except OutOfRange (Option BlockData) × DataNodeManager) :=
  if m.dataNodes.entries = [] then some (.ok none, m)
  else
    let m := m.moveCursor
    if m.curNode < 0 then some (.ok none, m)
    else
      match allocFreeBlockInNodeNoLock { m with curCount := m.curCount + 1 } m.curNode with
      | none => none
      | some r => some (r.1.map some, r.2)

/-- The info of a block without a block before it; `userId` is set by the callers, and
`weight` by `putBatch`. SOURCE: DataNodeManager.cpp:214-226 -/
def blockDataToBlockInfo (key : ℤ) (blk : BlockData) : BlockInfo where
  serverId := blk.serverId
  userId := key
  totalCount := blk.totalCount
  curCount := blk.curCount
  fileId := blk.fileId
  blockIndex := blk.blockIndex
  preFileId := 0
  preBlockIndex := -1
  weight := 0

/-- The info of a block that follows the block `old`. -/
def infoAfter (key : ℤ) (blk old : BlockData) : BlockInfo :=
  { blockDataToBlockInfo key blk with preFileId := old.fileId, preBlockIndex := old.blockIndex }

/-- The stored record of a user. -/
def putBlock (m : DataNodeManager) (key : ℤ) (blk : BlockData) : DataNodeManager :=
  { m with hashDB := m.hashDB.put key blk.toWords }

/-- SOURCE: DataNodeManager.h:45 -/
def mutexCount : ℤ := 10000000

/-- `_blockMutexs[key%MUTEX_COUNT]` is in the array. Before the array lie the mutex of the nodes,
at index -1, and the node table.
SOURCE: DataNodeManager.cpp:241, 301, 307, 427, DataNodeManager.h:74-79 -/
def HasMutex (key : ℤ) : Prop := 0 ≤ key.tmod mutexCount

instance (key : ℤ) : Decidable (HasMutex key) := inferInstanceAs (Decidable (_ ≤ _))

/-- The first record of a user. -/
def getFirst (m : DataNodeManager) (key : ℤ) : Option (Reply × DataNodeManager) :=
  match m.allocFreeBlock with
  | none => none
  | some (.error e, m') => some (.thrown e, m')
  | some (.ok none, m') => some (.null, m')
  | some (.ok (some newBlk), m') =>
    some (.block (blockDataToBlockInfo key newBlk), m'.putBlock key newBlk)

/-- A block that follows the block `blkOld` of the user, with the counts that `counts` gives it. -/
def getNext (m : DataNodeManager) (key : ℤ) (blkOld : BlockData)
    (counts : BlockData → Option BlockData) : Option (Reply × DataNodeManager) :=
  match m.allocFreeBlockInNode blkOld.serverId with
  | none => none
  | some (.error e, m') => some (.thrown e, m')
  | some (.ok newBlk, m') =>
    match counts newBlk with
    | none => none
    | some blk => some (.block (infoAfter key blk blkOld), m'.putBlock key blk)

/-- One record more in the counts, if that is an `int`. -/
def countOne (blk blkOld : BlockData) : Option BlockData :=
  if IsInt (blkOld.totalCount + 1) then some { blk with totalCount := blkOld.totalCount + 1 }
  else none

/-- SOURCE: DataNodeManager.cpp:239-298 -/
def get (m : DataNodeManager) (key : ℤ) (write : Bool) : Option (Reply × DataNodeManager) :=
  if ¬ HasMutex key then none
  else if key = 0 then some (.null, m)
  else match m.hashDB.get key with
    | none => if write then m.getFirst key else some (.null, m)
    | some blkOld =>
      if write then
        if blkOld.curCount < recordPerBlock then
          match countOne { blkOld with curCount := blkOld.curCount + 1 } blkOld with
          | none => none
          | some blk => some (.block (blockDataToBlockInfo key blk), m.putBlock key blk)
        else m.getNext key blkOld fun newBlk => countOne newBlk blkOld
      else some (.block (blockDataToBlockInfo key blkOld), m)

/-- SOURCE: DataNodeManager.cpp:300-304 -/
def remove (m : DataNodeManager) (key : ℤ) : Option DataNodeManager :=
  if ¬ HasMutex key then none else some { m with hashDB := m.hashDB.remove key }

/-- SOURCE: DataNodeManager.cpp:306-333 -/
def newBlock (m : DataNodeManager) (key : ℤ) : Option (Reply × DataNodeManager) :=
  if ¬ HasMutex key then none
  else if key = 0 then some (.null, m)
  else match m.hashDB.get key with
    | none => some (.null, m)
    | some blkOld =>
      m.getNext key blkOld fun newBlk =>
        some { newBlk with totalCount := blkOld.totalCount, curCount := blkOld.curCount }

/-- `moveBlock` up to its call of the data node. SOURCE: DataNodeManager.cpp:335-348 -/
def moveBlock (m : DataNodeManager) (blkInfoOld : BlockInfo) : Option (Reply × DataNodeManager) :=
  match m.allocFreeBlockInNode blkInfoOld.serverId with
  | none => none
  | some (.error e, m') => some (.thrown e, m')
  | some (.ok newBlk, m') =>
    let newBlkInfo := { blkInfoOld with fileId := newBlk.fileId, blockIndex := newBlk.blockIndex }
    some (.copy blkInfoOld newBlkInfo,
      { m' with moving := m'.moving ++ [⟨blkInfoOld, newBlkInfo, newBlk⟩] })

/-- `moveBlock` after its call of the data node, for the `i`-th call that waits; when the
call throws, no record is written. SOURCE: DataNodeManager.cpp:349-355 -/
def moveBlockReturns (m : DataNodeManager) (i : ℕ) (moved : Bool) : Reply × DataNodeManager :=
  match m.moving[i]? with
  | none => (.null, m)
  | some c =>
    let m' := { m with moving := m.moving.eraseIdx i }
    if moved then (.block c.newBlkInfo, m'.putBlock c.newBlkInfo.userId c.newBlk)
    else (.null, m')

/-- One entry of the sequence; the loop takes a lock of its own for each.
SOURCE: DataNodeManager.cpp:421-438 -/
def decTotalCount (m : DataNodeManager) (key count : ℤ) : Option DataNodeManager :=
  if key = 0 then some m
  else if ¬ HasMutex key then none
  else match m.hashDB.get key with
    | none => some m
    | some blkOld =>
      let blk := { blkOld with totalCount := blkOld.totalCount - count }
      if IsInt blk.totalCount then some (m.putBlock key blk) else none

end DataNodeManager

/-- The critical sections of the master, and its restart. -/
inductive MasterOp where
  | getBlock (userId : ℤ) (write : Bool)
  | newBlock (userId : ℤ)
  | removeBlock (userId : ℤ)
  | moveBlock (blkInfoOld : BlockInfo)
  | moveBlockReturns (i : ℕ) (moved : Bool)
  | decTotalCount (userId count : ℤ)
  | addNode (serverId : ℤ)
  | restart (cluster : ℕ) (curNode curCount : ℤ)

namespace MasterOp

/-- SOURCE: FeedDBMasterI.cpp:23-89 -/
def step (m : DataNodeManager) : MasterOp → Option (Reply × DataNodeManager)
  | getBlock userId write => m.get userId write
  | newBlock userId => m.newBlock userId
  | removeBlock userId => (m.remove userId).map (.null, ·)
  | moveBlock blkInfoOld => m.moveBlock blkInfoOld
  | moveBlockReturns i moved => some (m.moveBlockReturns i moved)
  | decTotalCount userId count => (m.decTotalCount userId count).map (.null, ·)
  | addNode serverId => some (.null, m.addDataNode serverId)
  | restart cluster curNode curCount => (m.init cluster curNode curCount).map (.null, ·)

/-- The user the operation names. -/
def userId : MasterOp → Option ℤ
  | getBlock userId _ => some userId
  | newBlock userId => some userId
  | removeBlock userId => some userId
  | moveBlock blkInfoOld => some blkInfoOld.userId
  | moveBlockReturns _ _ => none
  | decTotalCount userId _ => some userId
  | addNode _ => none
  | restart _ _ _ => none

end MasterOp

/-- The state after an operation, none once the behaviour of the code is undefined. -/
def masterStep : Option DataNodeManager → MasterOp → Option DataNodeManager :=
  partialStep fun m op => (op.step m).map Prod.snd

/-- The master before its first start: an empty database. -/
def DataNodeManager.uninitialised : DataNodeManager where
  hashDB := fun _ => none
  dataNodes := .empty
  curNode := 0
  curCount := 0
  moving := []
  handedOut := []

/-- A master started on an empty database. -/
def DataNodeManager.fresh (cluster : ℕ) (curNode curCount : ℤ) : Option DataNodeManager :=
  DataNodeManager.uninitialised.init cluster curNode curCount

end Oce.FeedDB
