import Mathlib.Data.List.Nodup
import Oce.FeedDB.Model.Master

/-!
# The block allocator over whole runs

`DataNode.Uses` says which blocks of a server a node table counts as used, and `Covers`
that a table counts every block handed out. The invariant `AllocInv` holds this of the
table in memory and of the one stored under key 0, so a restart, which loads the stored
table, cannot hand out a block again. It is kept by every operation that leaves key 0
to the table (`MasterOp.SparesTable`).

Two results rest on it: with user ids other than 0 no block is handed out twice
(`handedOut_distinct`), and the stored table survives every run that spares key 0. `removeBlock` and `moveBlock` are
the two operations that do not keep out of key 0 by themselves.

All this is about runs that stay in the arrays of the code and in the range of its `int`s
(`MasterOp.Defined`).
-/

set_option autoImplicit false

namespace Oce.FeedDB

open Function Oce.Base

variable {nodes : OrdMap ℤ DataNode} {blocks : List BlockPos} {key nodeId u curNode curCount : ℤ}
  {m m' : DataNodeManager} {node node' : DataNode} {blk : BlockData} {op : MasterOp}
  {reply : Reply} {cluster : ℕ}

/-- The node has given out block `index` of file `fileId`. -/
def DataNode.Uses (n : DataNode) (fileId index : ℤ) : Prop :=
  fileId < n.fileId ∨ fileId = n.fileId ∧ index < n.usedBlockCount

/-- The table counts every block of the list as used. -/
def Covers (nodes : OrdMap ℤ DataNode) (blocks : List BlockPos) : Prop :=
  ∀ b ∈ blocks, ∃ n, nodes.find b.serverId = some n ∧ n.Uses b.fileId b.blockIndex

/-- Every node stands under its own server id and uses at most a whole file. -/
def TableOk (nodes : OrdMap ℤ DataNode) : Prop :=
  ∀ k n, nodes.find k = some n →
    n.serverId = k ∧ 0 ≤ n.usedBlockCount ∧ n.usedBlockCount ≤ blockCount

/-- The invariant of the allocator: both tables are well formed and cover what was handed
out, and what was handed out is distinct and in range. -/
structure AllocInv (m : DataNodeManager) : Prop where
  table : TableOk m.dataNodes
  covers : Covers m.dataNodes m.handedOut
  stored : TableOk m.hashDB.loadDataNode
  storedCovers : Covers m.hashDB.loadDataNode m.handedOut
  distinct : m.handedOut.Nodup
  range : ∀ b ∈ m.handedOut, 0 ≤ b.blockIndex ∧ b.blockIndex < blockCount

/-! ## The stored table -/

theorem Covers.nil (nodes : OrdMap ℤ DataNode) : Covers nodes [] := by
  intro b hb
  cases hb

theorem tableOk_empty : TableOk .empty := by
  intro k n h
  simp at h

/-- Nothing was handed out from an empty table. -/
theorem Covers.nil_of_entries (h : Covers nodes blocks) (hn : nodes.entries = []) : blocks = [] := by
  cases blocks with
  | nil => rfl
  | cons b blocks =>
      obtain ⟨n, hf, -⟩ := h b (by simp)
      rw [OrdMap.find_eq_none_of_nil hn] at hf
      cases hf

/-- A table is read back as it was written. SOURCE: DataNodeManager.cpp:61-91 -/
theorem loadDataNode_storeDataNode (db : HashDB) (hok : TableOk nodes) (hne : nodes.entries ≠ []) :
    (db.storeDataNode nodes).loadDataNode = nodes := by
  have hkeys : nodes.values.map (fun n => (n.serverId, n)) = nodes.entries := by
    unfold OrdMap.values
    rw [List.map_map]
    conv_rhs => rw [← List.map_id nodes.entries]
    refine List.map_congr_left fun e he => ?_
    have := (hok e.1 e.2 (nodes.mem_entries_iff.mp he)).1
    simp only [comp, this, id]
  unfold HashDB.storeDataNode HashDB.loadDataNode
  rw [if_neg hne]
  simp only [HashDB.put, update_self, DataNode.arrayOfWords_flatMap, hkeys]
  exact OrdMap.insertAll_entries nodes

/-- A record under another key leaves the stored table alone. -/
@[simp] theorem loadDataNode_put (db : HashDB) (words : List ℤ) (h : key ≠ 0) :
    (db.put key words).loadDataNode = db.loadDataNode := by
  simp [HashDB.loadDataNode, HashDB.put, update_of_ne h.symm]

@[simp] theorem loadDataNode_remove (db : HashDB) (h : key ≠ 0) :
    (db.remove key).loadDataNode = db.loadDataNode := by
  simp [HashDB.loadDataNode, HashDB.remove, update_of_ne h.symm]

theorem AllocInv.putBlock (h : AllocInv m) (hk : key ≠ 0) (blk : BlockData) :
    AllocInv (m.putBlock key blk) := by
  refine ⟨h.table, h.covers, ?_, ?_, h.distinct, h.range⟩
  · simpa [DataNodeManager.putBlock, hk] using h.stored
  · simpa [DataNodeManager.putBlock, hk] using h.storedCovers

/-- The invariant does not look at the allocation cursor. -/
theorem AllocInv.setCursor (h : AllocInv m) (curNode curCount : ℤ) :
    AllocInv { m with curNode := curNode, curCount := curCount } :=
  ⟨h.table, h.covers, h.stored, h.storedCovers, h.distinct, h.range⟩

/-! ## One allocation -/

/-- `node'` is `node` after it handed out block `blk`, which it had not handed out. -/
structure Advances (node node' : DataNode) (blk : BlockData) : Prop where
  serverId : node'.serverId = node.serverId
  blkServer : blk.serverId = node.serverId
  fresh : ¬ node.Uses blk.fileId blk.blockIndex
  uses : node'.Uses blk.fileId blk.blockIndex
  mono : ∀ f i, node.Uses f i → node'.Uses f i
  used : 0 ≤ node'.usedBlockCount ∧ node'.usedBlockCount ≤ blockCount
  index : 0 ≤ blk.blockIndex ∧ blk.blockIndex < blockCount
  file : node.fileId ≤ blk.fileId ∧ blk.fileId = node'.fileId
  counts : blk.curCount = 1 ∧ blk.totalCount = 1

namespace DataNodeManager

/-- A block of the node can be handed out: the table fits the buffer that it is written through,
and the id of the next file is an `int` if the file is full. -/
def CanAlloc (m : DataNodeManager) (nodeId : ℤ) : Prop :=
  ∀ node ∈ m.dataNodes.find nodeId, m.dataNodes.entries.length ≤ HashDB.maxDataNode ∧
    (node.usedBlockCount < blockCount ∨ IsInt (node.fileId + 1))

instance (m : DataNodeManager) (nodeId : ℤ) : Decidable (m.CanAlloc nodeId) :=
  Option.decidableForallMem _

theorem length_insert_of_find (hf : nodes.find nodeId = some node) (node' : DataNode) :
    (nodes.insert nodeId node').entries.length = nodes.entries.length := by
  rw [(nodes.entries_insert_perm nodeId node').length_eq, (OrdMap.entries_perm_of_find hf).length_eq]
  rfl

/-- With room in the table the block is handed out. -/
theorem tryHandOut_of_find (hf : m.dataNodes.find nodeId = some node)
    (hlen : m.dataNodes.entries.length ≤ HashDB.maxDataNode) (node' : DataNode) (blk : BlockData) :
    m.tryHandOut nodeId node' blk = some (.ok blk, m.handOut nodeId node' blk) := by
  have hlen' : (m.dataNodes.insert nodeId node').entries.length ≤ HashDB.maxDataNode := by
    rwa [length_insert_of_find hf]
  unfold tryHandOut HashDB.flushDataNode
  rw [if_pos hlen']
  rfl

end DataNodeManager

/-- What an allocation does: it throws for an unknown server, and otherwise hands out
the next block of the server and stores the table. SOURCE: DataNodeManager.cpp:169-189 -/
theorem alloc_cases (hcan : m.CanAlloc nodeId) :
    (m.dataNodes.find nodeId = none ∧
      m.allocFreeBlockInNodeNoLock nodeId = some (.error .outOfRange, m)) ∨
    ∃ node node' blk, m.dataNodes.find nodeId = some node ∧
      (TableOk m.dataNodes → Advances node node' blk) ∧
      m.allocFreeBlockInNodeNoLock nodeId = some (.ok blk, m.handOut nodeId node' blk) := by
  unfold DataNodeManager.allocFreeBlockInNodeNoLock
  cases hf : m.dataNodes.find nodeId with
  | none => exact Or.inl ⟨rfl, rfl⟩
  | some node =>
      right
      obtain ⟨hlen, hfile⟩ := hcan node hf
      have hout := DataNodeManager.tryHandOut_of_find hf hlen
      by_cases hu : node.usedBlockCount < blockCount
      · refine ⟨node, { node with usedBlockCount := node.usedBlockCount + 1 },
          ⟨node.serverId, 1, 1, node.fileId, node.usedBlockCount⟩, rfl, ?_, by simp [hu, hout]⟩
        intro hok
        obtain ⟨-, hu0, hu1⟩ := hok nodeId node hf
        refine ⟨rfl, rfl, ?_, ?_, ?_, ⟨?_, ?_⟩, ⟨hu0, hu⟩, ⟨le_rfl, rfl⟩, rfl, rfl⟩
        · simp [DataNode.Uses]
        · exact Or.inr ⟨rfl, Int.lt_succ _⟩
        · intro f i h
          simp only [DataNode.Uses] at h ⊢
          omega
        · show 0 ≤ node.usedBlockCount + 1
          omega
        · show node.usedBlockCount + 1 ≤ blockCount
          omega
      · refine ⟨node, { node with fileId := node.fileId + 1, usedBlockCount := 1 },
          ⟨node.serverId, 1, 1, node.fileId + 1, 0⟩, rfl, ?_, by simp [hu, hfile.resolve_left hu, hout]⟩
        intro hok
        obtain ⟨-, hu0, hu1⟩ := hok nodeId node hf
        refine ⟨rfl, rfl, ?_, ?_, ?_, ⟨by simp, by simp [blockCount]⟩,
          ⟨le_rfl, by simp [blockCount]⟩, ⟨by show node.fileId ≤ node.fileId + 1; omega, rfl⟩, rfl, rfl⟩
        · simp only [DataNode.Uses]
          omega
        · simp [DataNode.Uses]
        · intro f i h
          simp only [DataNode.Uses] at h ⊢
          omega

/-- The table stays well formed when a node advances. -/
theorem TableOk.insert (hok : TableOk nodes) (hf : nodes.find nodeId = some node)
    (ha : Advances node node' blk) : TableOk (nodes.insert nodeId node') := by
  intro k n h
  rw [OrdMap.find_insert] at h
  split at h
  · rename_i hk
    cases h
    exact ⟨by rw [ha.serverId, hk, (hok nodeId node hf).1], ha.used⟩
  · exact hok k n h

/-- The table still covers what it covered, and the block just handed out. -/
theorem Covers.insert (hok : TableOk nodes) (hc : Covers nodes blocks)
    (hf : nodes.find nodeId = some node) (ha : Advances node node' blk) :
    Covers (nodes.insert nodeId node') (blk.pos :: blocks) := by
  have hid : blk.serverId = nodeId := by rw [ha.blkServer, (hok nodeId node hf).1]
  intro b hb
  rcases List.mem_cons.mp hb with rfl | hb
  · exact ⟨node', by simp [BlockData.pos, hid], ha.uses⟩
  · obtain ⟨n, hn, huses⟩ := hc b hb
    by_cases hs : b.serverId = nodeId
    · rw [hs, hf] at hn
      cases hn
      exact ⟨node', by simp [hs], ha.mono _ _ huses⟩
    · exact ⟨n, by rw [OrdMap.find_insert_ne _ _ hs]; exact hn, huses⟩

/-- A block the table does not count as used has not been handed out. -/
theorem Covers.not_mem (hok : TableOk nodes) (hc : Covers nodes blocks)
    (hf : nodes.find nodeId = some node) (ha : Advances node node' blk) : blk.pos ∉ blocks := by
  intro hb
  have hid : blk.serverId = nodeId := by rw [ha.blkServer, (hok nodeId node hf).1]
  obtain ⟨n, hn, huses⟩ := hc blk.pos hb
  simp only [BlockData.pos, hid, hf] at hn
  cases hn
  exact ha.fresh huses

/-- The table a handed out block is written with is the one that is read back. -/
theorem loadDataNode_handOut (hok : TableOk m.dataNodes)
    (hf : m.dataNodes.find nodeId = some node) (ha : Advances node node' blk) :
    (m.handOut nodeId node' blk).hashDB.loadDataNode = m.dataNodes.insert nodeId node' := by
  refine loadDataNode_storeDataNode _ (hok.insert hf ha) fun hnil => ?_
  have h := OrdMap.find_insert_self m.dataNodes nodeId node'
  rw [OrdMap.find_eq_none_of_nil hnil] at h
  cases h

/-- A block is handed out. -/
theorem AllocInv.handOut (h : AllocInv m) (hf : m.dataNodes.find nodeId = some node)
    (ha : Advances node node' blk) : AllocInv (m.handOut nodeId node' blk) := by
  have hload := loadDataNode_handOut h.table hf ha
  have hcov := Covers.insert h.table h.covers hf ha
  refine ⟨h.table.insert hf ha, hcov, by rw [hload]; exact h.table.insert hf ha,
    by rw [hload]; exact hcov, ?_, ?_⟩
  · exact List.nodup_cons.mpr ⟨Covers.not_mem h.table h.covers hf ha, h.distinct⟩
  · intro b hb
    rcases List.mem_cons.mp hb with rfl | hb
    · exact ha.index
    · exact h.range b hb

namespace DataNodeManager

/-- A block for a new user can be handed out, or none is looked for. -/
def CanAllocFirst (m : DataNodeManager) : Prop :=
  m.dataNodes.entries = [] ∨ m.nextNode < 0 ∨ m.CanAlloc m.nextNode

instance (m : DataNodeManager) : Decidable m.CanAllocFirst := inferInstanceAs (Decidable (_ ∨ _))

end DataNodeManager

/-- What `allocFreeBlock` does: it moves its cursor, and then makes one allocation in the server its
cursor names, if there is one. SOURCE: DataNodeManager.cpp:197-212 -/
theorem allocFreeBlock_cases (hcan : m.CanAllocFirst) :
    (∃ curNode curCount, m.allocFreeBlock =
      some (.ok none, { m with curNode := curNode, curCount := curCount })) ∨
    (¬(m.dataNodes.entries = [] ∨ m.nextNode < 0) ∧ m.dataNodes.find m.nextNode = none ∧
      ∃ curNode curCount, m.allocFreeBlock =
        some (.error .outOfRange, { m with curNode := curNode, curCount := curCount })) ∨
    ∃ curNode curCount node node' blk, m.dataNodes.find curNode = some node ∧
      (TableOk m.dataNodes → Advances node node' blk) ∧ m.allocFreeBlock = some (.ok (some blk),
        ({ m with curNode := curNode, curCount := curCount } : DataNodeManager).handOut
          curNode node' blk) := by
  unfold DataNodeManager.allocFreeBlock
  by_cases hnil : m.dataNodes.entries = []
  · exact Or.inl ⟨m.curNode, m.curCount, by simp [hnil]⟩
  rw [if_neg hnil]
  dsimp only
  by_cases hneg : m.moveCursor.curNode < 0
  · rw [if_pos hneg]
    exact Or.inl ⟨_, _, rfl⟩
  rw [if_neg hneg]
  have hnode : m.CanAlloc m.nextNode := (hcan.resolve_left hnil).resolve_left hneg
  have halloc := alloc_cases
    (m := { m.moveCursor with curCount := m.moveCursor.curCount + 1 }) hnode
  change _ ∨ ∃ node node' blk, _ ∧ _ ∧ DataNodeManager.allocFreeBlockInNodeNoLock
    { m.moveCursor with curCount := m.moveCursor.curCount + 1 } m.moveCursor.curNode = _ at halloc
  rcases halloc with ⟨hf, ha⟩ | ⟨node, node', blk, hf, hadv, ha⟩
  · change DataNodeManager.allocFreeBlockInNodeNoLock
      { m.moveCursor with curCount := m.moveCursor.curCount + 1 } m.moveCursor.curNode = _ at ha
    rw [ha]
    exact Or.inr (Or.inl ⟨not_or.mpr ⟨hnil, hneg⟩, hf, m.nextNode, m.moveCursor.curCount + 1, rfl⟩)
  · rw [ha]
    exact Or.inr (Or.inr ⟨m.nextNode, m.moveCursor.curCount + 1, node, node', blk, hf, hadv, rfl⟩)

/-! ## What an operation does -/

/-- The ways an operation can go, with its result and the state it leaves. -/
inductive MasterEffect (m : DataNodeManager) : MasterOp → Reply → DataNodeManager → Prop where
  | idle (op : MasterOp) (reply : Reply) (curNode curCount : ℤ)
      (hreply : reply = .null ∨ reply = .thrown .outOfRange)
      (hdec : ∀ u count, op = .decTotalCount u count → u = 0 ∨ m.hashDB.get u = none) :
      MasterEffect m op reply { m with curNode := curNode, curCount := curCount }
  | read (u : ℤ) (old : BlockData) (hget : m.hashDB.get u = some old) :
      MasterEffect m (.getBlock u false) (.block (DataNodeManager.blockDataToBlockInfo u old)) m
  | count (u : ℤ) (old : BlockData) (hu : u ≠ 0) (hget : m.hashDB.get u = some old)
      (hroom : old.curCount < recordPerBlock) :
      MasterEffect m (.getBlock u true)
        (.block (DataNodeManager.blockDataToBlockInfo u
          { old with curCount := old.curCount + 1, totalCount := old.totalCount + 1 }))
        (m.putBlock u
          { old with curCount := old.curCount + 1, totalCount := old.totalCount + 1 })
  | first (u curNode curCount : ℤ) (node node' : DataNode) (blk : BlockData) (hu : u ≠ 0)
      (hget : m.hashDB.get u = none) (hfind : m.dataNodes.find curNode = some node)
      (hadv : TableOk m.dataNodes → Advances node node' blk) :
      MasterEffect m (.getBlock u true) (.block (DataNodeManager.blockDataToBlockInfo u blk))
        ((({ m with curNode := curNode, curCount := curCount } : DataNodeManager).handOut
          curNode node' blk).putBlock u blk)
  | next (u : ℤ) (old : BlockData) (node node' : DataNode) (blk : BlockData) (hu : u ≠ 0)
      (hget : m.hashDB.get u = some old) (hfull : ¬ old.curCount < recordPerBlock)
      (hfind : m.dataNodes.find old.serverId = some node) (hadv : TableOk m.dataNodes → Advances node node' blk) :
      MasterEffect m (.getBlock u true)
        (.block (DataNodeManager.infoAfter u { blk with totalCount := old.totalCount + 1 } old))
        ((m.handOut old.serverId node' blk).putBlock u
          { blk with totalCount := old.totalCount + 1 })
  | relocate (u : ℤ) (old : BlockData) (node node' : DataNode) (blk : BlockData) (hu : u ≠ 0)
      (hget : m.hashDB.get u = some old)
      (hfind : m.dataNodes.find old.serverId = some node) (hadv : TableOk m.dataNodes → Advances node node' blk) :
      MasterEffect m (.newBlock u)
        (.block (DataNodeManager.infoAfter u
          { blk with totalCount := old.totalCount, curCount := old.curCount } old))
        ((m.handOut old.serverId node' blk).putBlock u
          { blk with totalCount := old.totalCount, curCount := old.curCount })
  | remove (u : ℤ) :
      MasterEffect m (.removeBlock u) .null { m with hashDB := m.hashDB.remove u }
  | copy (info : BlockInfo) (node node' : DataNode) (blk : BlockData)
      (hfind : m.dataNodes.find info.serverId = some node) (hadv : TableOk m.dataNodes → Advances node node' blk) :
      MasterEffect m (.moveBlock info)
        (.copy info { info with fileId := blk.fileId, blockIndex := blk.blockIndex })
        { m.handOut info.serverId node' blk with
          moving := m.moving ++
            [⟨info, { info with fileId := blk.fileId, blockIndex := blk.blockIndex }, blk⟩] }
  | refused (i : ℕ) (c : MoveCall) (hi : m.moving[i]? = some c) :
      MasterEffect m (.moveBlockReturns i false) .null { m with moving := m.moving.eraseIdx i }
  | moved (i : ℕ) (c : MoveCall) (hi : m.moving[i]? = some c) :
      MasterEffect m (.moveBlockReturns i true) (.block c.newBlkInfo)
        (({ m with moving := m.moving.eraseIdx i } : DataNodeManager).putBlock
          c.newBlkInfo.userId c.newBlk)
  | decrease (u count : ℤ) (old : BlockData) (hu : u ≠ 0) (hget : m.hashDB.get u = some old) :
      MasterEffect m (.decTotalCount u count) .null
        (m.putBlock u { old with totalCount := old.totalCount - count })
  | join (serverId : ℤ) (hfind : m.dataNodes.find serverId = none) :
      MasterEffect m (.addNode serverId) .null
        { m with dataNodes := m.dataNodes.insert serverId ⟨serverId, 1, 0⟩ }
  | restart (cluster : ℕ) (curNode curCount : ℤ) (m' : DataNodeManager)
      (hinit : m.init cluster curNode curCount = some m') :
      MasterEffect m (.restart cluster curNode curCount) .null m'

/-- An operation that returns no block and leaves the state as it is. -/
theorem MasterEffect.same (hreply : reply = .null ∨ reply = .thrown .outOfRange)
    (hdec : ∀ u count, op = .decTotalCount u count → u = 0 ∨ m.hashDB.get u = none) :
    MasterEffect m op reply m :=
  .idle op reply m.curNode m.curCount hreply hdec

namespace MasterOp

/-- The operation stays in the arrays of the code and in the range of its `int`s: the user's
mutex is there, the block it asks for can be handed out, and the user's total stays an `int`. -/
def Defined (m : DataNodeManager) : MasterOp → Prop
  | getBlock u write => DataNodeManager.HasMutex u ∧ (u ≠ 0 → write = true →
      (m.hashDB.get u = none → m.CanAllocFirst) ∧
      ∀ d ∈ m.hashDB.get u, IsInt (d.totalCount + 1) ∧
        (d.curCount < recordPerBlock ∨ m.CanAlloc d.serverId))
  | newBlock u => DataNodeManager.HasMutex u ∧ (u ≠ 0 → ∀ d ∈ m.hashDB.get u, m.CanAlloc d.serverId)
  | removeBlock u => DataNodeManager.HasMutex u
  | moveBlock info => m.CanAlloc info.serverId
  | decTotalCount u count => u ≠ 0 → DataNodeManager.HasMutex u ∧
      ∀ d ∈ m.hashDB.get u, IsInt (d.totalCount - count)
  | restart cluster _ _ => m.hashDB.loadDataNode.entries = [] →
      (DataNodeManager.freshNodes cluster).entries.length ≤ HashDB.maxDataNode
  | _ => True

instance (m : DataNodeManager) : (op : MasterOp) → Decidable (op.Defined m)
  | getBlock _ _ => by unfold Defined; infer_instance
  | newBlock _ => by unfold Defined; infer_instance
  | removeBlock _ => by unfold Defined; infer_instance
  | moveBlock _ => by unfold Defined; infer_instance
  | moveBlockReturns _ _ => .isTrue trivial
  | decTotalCount _ _ => by unfold Defined; infer_instance
  | addNode _ => .isTrue trivial
  | restart _ _ _ => by unfold Defined; infer_instance

end MasterOp

/-- The operation has a result, and went one of the listed ways. -/
def Goes (m : DataNodeManager) (op : MasterOp) : Prop :=
  ∃ reply m', op.step m = some (reply, m') ∧ MasterEffect m op reply m'

/-- `getBlock` has a reply and one of the effects. -/
theorem goes_getBlock {write : Bool} (hdef : (MasterOp.getBlock u write).Defined m) :
    Goes m (.getBlock u write) := by
  obtain ⟨hmutex, hdef⟩ := hdef
  change ∃ reply m', m.get u write = some (reply, m') ∧ _
  unfold DataNodeManager.get
  rw [if_neg (not_not_intro hmutex)]
  by_cases hu : u = 0
  · rw [if_pos hu]
    exact ⟨_, _, rfl, .same (by simp) (by simp)⟩
  rw [if_neg hu]
  cases hget : m.hashDB.get u with
  | none =>
      cases write with
      | false => exact ⟨_, _, rfl, .same (by simp) (by simp)⟩
      | true =>
          have hcan := (hdef hu rfl).1 hget
          simp only [if_true]
          unfold DataNodeManager.getFirst
          rcases allocFreeBlock_cases hcan with ⟨n, c, he⟩ | ⟨-, -, n, c, he⟩ |
            ⟨n, c, node, node', blk, hf, hadv, he⟩
          · rw [he]
            exact ⟨_, _, rfl, .idle _ _ n c (by simp) (by simp)⟩
          · rw [he]
            exact ⟨_, _, rfl, .idle _ _ n c (by simp) (by simp)⟩
          · rw [he]
            exact ⟨_, _, rfl, .first u n c node node' blk hu hget hf hadv⟩
  | some old =>
      cases write with
      | false => exact ⟨_, _, rfl, .read u old hget⟩
      | true =>
          obtain ⟨htotal, hcan⟩ := (hdef hu rfl).2 old hget
          by_cases hc : old.curCount < recordPerBlock
          · simp only [if_true, hc, DataNodeManager.countOne, htotal]
            exact ⟨_, _, rfl, .count u old hu hget hc⟩
          · simp only [if_true, hc, if_false]
            unfold DataNodeManager.getNext DataNodeManager.allocFreeBlockInNode
            rcases alloc_cases (hcan.resolve_left hc) with ⟨-, ha⟩ | ⟨node, node', blk, hf, hadv, ha⟩
            · rw [ha]
              exact ⟨_, _, rfl, .same (by simp) (by simp)⟩
            · rw [ha]
              simp only [DataNodeManager.countOne, htotal, if_true]
              exact ⟨_, _, rfl, .next u old node node' blk hu hget hc hf hadv⟩

/-- `newBlock` has a reply and one of the effects. -/
theorem goes_newBlock (hdef : (MasterOp.newBlock u).Defined m) : Goes m (.newBlock u) := by
  obtain ⟨hmutex, hdef⟩ := hdef
  change ∃ reply m', m.newBlock u = some (reply, m') ∧ _
  unfold DataNodeManager.newBlock
  rw [if_neg (not_not_intro hmutex)]
  by_cases hu : u = 0
  · rw [if_pos hu]
    exact ⟨_, _, rfl, .same (by simp) (by simp)⟩
  rw [if_neg hu]
  cases hget : m.hashDB.get u with
  | none => exact ⟨_, _, rfl, .same (by simp) (by simp)⟩
  | some old =>
      dsimp only
      unfold DataNodeManager.getNext DataNodeManager.allocFreeBlockInNode
      rcases alloc_cases (hdef hu old hget) with ⟨-, ha⟩ | ⟨node, node', blk, hf, hadv, ha⟩
      · rw [ha]
        exact ⟨_, _, rfl, .same (by simp) (by simp)⟩
      · rw [ha]
        exact ⟨_, _, rfl, .relocate u old node node' blk hu hget hf hadv⟩

/-- `moveBlock` has a reply and one of the effects. -/
theorem goes_moveBlock {info : BlockInfo} (hdef : (MasterOp.moveBlock info).Defined m) :
    Goes m (.moveBlock info) := by
  change ∃ reply m', m.moveBlock info = some (reply, m') ∧ _
  unfold DataNodeManager.moveBlock DataNodeManager.allocFreeBlockInNode
  rcases alloc_cases hdef with ⟨-, ha⟩ | ⟨node, node', blk, hf, hadv, ha⟩
  · rw [ha]
    exact ⟨_, _, rfl, .same (by simp) (by simp)⟩
  · rw [ha]
    exact ⟨_, _, rfl, .copy info node node' blk hf hadv⟩

theorem goes_moveBlockReturns (m : DataNodeManager) (i : ℕ) (moved : Bool) :
    Goes m (.moveBlockReturns i moved) := by
  change ∃ reply m', some (m.moveBlockReturns i moved) = some (reply, m') ∧ _
  unfold DataNodeManager.moveBlockReturns
  cases hi : m.moving[i]? with
  | none => exact ⟨_, _, rfl, .same (by simp) (by simp)⟩
  | some p =>
      cases moved with
      | false => exact ⟨_, _, rfl, .refused i p hi⟩
      | true => exact ⟨_, _, rfl, .moved i p hi⟩

theorem goes_decTotalCount {count : ℤ} (hdef : (MasterOp.decTotalCount u count).Defined m) :
    Goes m (.decTotalCount u count) := by
  change ∃ reply m', (m.decTotalCount u count).map (Reply.null, ·) = some (reply, m') ∧ _
  unfold DataNodeManager.decTotalCount
  by_cases hu : u = 0
  · rw [if_pos hu]
    refine ⟨_, _, rfl, .same (by simp) fun v _ h => ?_⟩
    cases h
    exact Or.inl hu
  obtain ⟨hmutex, htotal⟩ := hdef hu
  rw [if_neg hu, if_neg (not_not_intro hmutex)]
  cases hget : m.hashDB.get u with
  | none =>
      refine ⟨_, _, rfl, .same (by simp) fun v _ h => ?_⟩
      cases h
      exact Or.inr hget
  | some old =>
      simp only [htotal old hget, if_true]
      exact ⟨_, _, rfl, .decrease u count old hu hget⟩

theorem goes_addNode (m : DataNodeManager) (serverId : ℤ) : Goes m (.addNode serverId) := by
  change ∃ reply m', some (Reply.null, m.addDataNode serverId) = some (reply, m') ∧ _
  unfold DataNodeManager.addDataNode
  cases hf : m.dataNodes.find serverId with
  | some node => exact ⟨_, _, rfl, .same (by simp) (by simp)⟩
  | none => exact ⟨_, _, rfl, .join serverId hf⟩

/-- A start whose servers fit the buffer has a result. -/
theorem init_of_defined (hdef : (MasterOp.restart cluster curNode curCount).Defined m) :
    ∃ m', m.init cluster curNode curCount = some m' := by
  unfold DataNodeManager.init HashDB.flushDataNode
  by_cases hnil : m.hashDB.loadDataNode.entries = []
  · rw [if_pos hnil, if_pos (hdef hnil)]
    exact ⟨_, rfl⟩
  · rw [if_neg hnil]
    exact ⟨_, rfl⟩

theorem goes_restart (hdef : (MasterOp.restart cluster curNode curCount).Defined m) :
    Goes m (.restart cluster curNode curCount) := by
  obtain ⟨m', hm'⟩ := init_of_defined hdef
  exact ⟨.null, m', by rw [MasterOp.step, hm']; rfl, .restart cluster curNode curCount m' hm'⟩

/-- **Every operation that is defined goes one of the listed ways.** -/
theorem goes_step (hdef : op.Defined m) : Goes m op := by
  cases op with
  | getBlock u write => exact goes_getBlock hdef
  | newBlock u => exact goes_newBlock hdef
  | removeBlock u =>
      have hremove : m.remove u = some { m with hashDB := m.hashDB.remove u } :=
        if_neg (not_not_intro hdef)
      exact ⟨.null, _, by rw [MasterOp.step, hremove]; rfl, .remove u⟩
  | moveBlock info => exact goes_moveBlock hdef
  | moveBlockReturns i moved => exact goes_moveBlockReturns m i moved
  | decTotalCount u count => exact goes_decTotalCount hdef
  | addNode serverId => exact goes_addNode m serverId
  | restart cluster curNode curCount => exact goes_restart hdef

/-! ## One operation keeps the invariant -/

/-- The invariant does not look at the calls of `moveBlock` that wait. -/
theorem AllocInv.setMoving (h : AllocInv m) (moving : List MoveCall) :
    AllocInv { m with moving := moving } :=
  ⟨h.table, h.covers, h.stored, h.storedCovers, h.distinct, h.range⟩

theorem AllocInv.remove (h : AllocInv m) (hk : key ≠ 0) :
    AllocInv { m with hashDB := m.hashDB.remove key } := by
  refine ⟨h.table, h.covers, ?_, ?_, h.distinct, h.range⟩
  · simpa [hk] using h.stored
  · simpa [hk] using h.storedCovers

/-- A server that joins is not stored, and nothing was handed out of it. -/
theorem AllocInv.join (h : AllocInv m) {serverId : ℤ} (hf : m.dataNodes.find serverId = none) :
    AllocInv { m with dataNodes := m.dataNodes.insert serverId ⟨serverId, 1, 0⟩ } := by
  refine ⟨fun k n hk => ?_, fun b hb => ?_, h.stored, h.storedCovers, h.distinct, h.range⟩
  · change (m.dataNodes.insert serverId _).find k = some n at hk
    rw [OrdMap.find_insert] at hk
    split at hk
    · rename_i hks
      cases hk
      exact ⟨hks.symm, le_rfl, by simp [blockCount]⟩
    · exact h.table k n hk
  · obtain ⟨n, hn, huses⟩ := h.covers b hb
    have hs : b.serverId ≠ serverId := by
      intro hs
      rw [hs, hf] at hn
      cases hn
    exact ⟨n, by rw [← hn]; exact OrdMap.find_insert_ne _ _ hs, huses⟩

/-- Every server starts with its first file, with nothing used. -/
theorem find_freshNodes (nNodes : ℕ) {k : ℤ}
    (h : (DataNodeManager.freshNodes nNodes).find k = some node) : node = ⟨k, 1, 0⟩ := by
  have hall : ∀ (l : List ℕ) (nodes : OrdMap ℤ DataNode),
      (∀ k node, nodes.find k = some node → node = ⟨k, 1, 0⟩) →
      ∀ k node, (nodes.insertAll (l.map fun (i : ℕ) => ((i : ℤ), ⟨i, 1, 0⟩))).find k = some node →
        node = ⟨k, 1, 0⟩ := by
    intro l
    induction l with
    | nil => exact fun nodes h => h
    | cons i l ih =>
        intro nodes h
        refine ih _ fun k n hk => ?_
        rw [OrdMap.find_insert] at hk
        split at hk
        · rename_i hki
          cases hk
          rw [hki]
        · exact h k n hk
  refine hall _ _ (fun k node hk => ?_) k node h
  rw [OrdMap.find_empty] at hk
  cases hk

/-- The servers a cluster starts with stand under their own ids, with nothing used. -/
theorem tableOk_freshNodes (nNodes : ℕ) : TableOk (DataNodeManager.freshNodes nNodes) := by
  intro k node hk
  rw [find_freshNodes nNodes hk]
  exact ⟨rfl, le_rfl, by simp [blockCount]⟩

theorem freshNodes_ne_nil (nNodes : ℕ) : (DataNodeManager.freshNodes nNodes).entries ≠ [] := by
  intro hnil
  unfold DataNodeManager.freshNodes at hnil
  obtain ⟨k, hk⟩ : ∃ k, (if nNodes = 0 then 1 else nNodes) = k + 1 := by
    split
    · exact ⟨0, rfl⟩
    · exact ⟨nNodes - 1, by omega⟩
  have hlast := OrdMap.find_insert_self
    (OrdMap.empty.insertAll ((List.range k).map fun (i : ℕ) => ((i : ℤ), (⟨i, 1, 0⟩ : DataNode))))
    (k : ℤ) ⟨k, 1, 0⟩
  have heq : OrdMap.empty.insertAll ((List.range (k + 1)).map fun (i : ℕ) =>
      ((i : ℤ), (⟨i, 1, 0⟩ : DataNode))) =
      (OrdMap.empty.insertAll ((List.range k).map fun (i : ℕ) =>
        ((i : ℤ), (⟨i, 1, 0⟩ : DataNode)))).insert (k : ℤ) ⟨k, 1, 0⟩ := by
    simp [List.range_succ, OrdMap.insertAll]
  rw [hk, heq] at hnil
  rw [OrdMap.find_eq_none_of_nil hnil] at hlast
  cases hlast

/-- The two ways of a start: it stores a table that it makes, or it loads the one that is stored. -/
theorem init_cases (hinit : m.init cluster curNode curCount = some m') :
    (m.hashDB.loadDataNode.entries = [] ∧ m' = { m with
      hashDB := m.hashDB.storeDataNode (DataNodeManager.freshNodes cluster)
      dataNodes := DataNodeManager.freshNodes cluster
      curNode := curNode
      curCount := curCount
      moving := [] }) ∨
    (m.hashDB.loadDataNode.entries ≠ [] ∧ m' = { m with
      dataNodes := m.hashDB.loadDataNode
      curNode := curNode
      curCount := curCount
      moving := [] }) := by
  unfold DataNodeManager.init HashDB.flushDataNode at hinit
  by_cases hnil : m.hashDB.loadDataNode.entries = []
  · left
    rw [if_pos hnil] at hinit
    split at hinit
    · exact ⟨hnil, (Option.some.inj hinit).symm⟩
    · cases hinit
  · right
    rw [if_neg hnil] at hinit
    exact ⟨hnil, (Option.some.inj hinit).symm⟩

/-- A start loads the stored table, or, when nothing was ever handed out, makes a new one. -/
theorem AllocInv.init (h : AllocInv m) (hinit : m.init cluster curNode curCount = some m') :
    AllocInv m' := by
  rcases init_cases hinit with ⟨hnil, rfl⟩ | ⟨-, rfl⟩
  · have hout := h.storedCovers.nil_of_entries hnil
    have hload := loadDataNode_storeDataNode m.hashDB (tableOk_freshNodes cluster)
      (freshNodes_ne_nil cluster)
    refine ⟨tableOk_freshNodes cluster, ?_, ?_, ?_, h.distinct, h.range⟩
    · simpa [hout] using Covers.nil _
    · simpa [hload] using tableOk_freshNodes cluster
    · simpa [hout] using Covers.nil _
  · exact ⟨h.stored, h.storedCovers, h.stored, h.storedCovers, h.distinct, h.range⟩

theorem allocInv_uninitialised : AllocInv DataNodeManager.uninitialised :=
  ⟨tableOk_empty, Covers.nil _, tableOk_empty, Covers.nil _, List.nodup_nil, by
    intro b hb
    cases hb⟩

/-- The operation writes no user record under key 0, and does not remove that key. -/
def MasterOp.SparesTable (m : DataNodeManager) : MasterOp → Prop
  | .removeBlock userId => userId ≠ 0
  | .moveBlockReturns i moved => moved = true → ∀ c ∈ m.moving[i]?, c.newBlkInfo.userId ≠ 0
  | _ => True

instance (m : DataNodeManager) : (op : MasterOp) → Decidable (op.SparesTable m)
  | .removeBlock _ => by unfold MasterOp.SparesTable; infer_instance
  | .moveBlockReturns _ _ => by unfold MasterOp.SparesTable; infer_instance
  | .getBlock _ _ | .newBlock _ | .moveBlock _ | .decTotalCount _ _ | .addNode _ | .restart _ _ _ =>
    .isTrue trivial

/-- Every operation that spares the table keeps the allocator sound. -/
theorem AllocInv.effect (h : AllocInv m) (heff : MasterEffect m op reply m')
    (hop : op.SparesTable m) : AllocInv m' := by
  cases heff with
  | idle _ _ curNode curCount => exact h.setCursor curNode curCount
  | read => exact h
  | count u old hu _ _ => exact h.putBlock hu _
  | first u n c node node' blk hu _ hf hadv =>
      exact ((h.setCursor n c).handOut hf (hadv h.table)).putBlock hu _
  | next u old node node' blk hu _ _ hf hadv => exact (h.handOut hf (hadv h.table)).putBlock hu _
  | relocate u old node node' blk hu _ hf hadv => exact (h.handOut hf (hadv h.table)).putBlock hu _
  | remove u => exact h.remove hop
  | copy info node node' blk hf hadv => exact (h.handOut hf (hadv h.table)).setMoving _
  | refused i p _ => exact h.setMoving _
  | moved i p hi => exact (h.setMoving _).putBlock (hop rfl p hi) _
  | decrease u count old hu _ => exact h.putBlock hu _
  | join serverId hf => exact h.join hf
  | restart cluster curNode curCount m' hinit => exact h.init hinit

/-! ## The users' records in the database -/

@[simp] theorem get_put_self (db : HashDB) (key : ℤ) (d : BlockData) :
    (db.put key d.toWords).get key = some d := by
  simp [HashDB.get, HashDB.put]

theorem get_put_ne (db : HashDB) (d : BlockData) (h : u ≠ key) :
    (db.put key d.toWords).get u = db.get u := by
  simp [HashDB.get, HashDB.put, update_of_ne h]

theorem get_remove_ne (db : HashDB) (h : u ≠ key) : (db.remove key).get u = db.get u := by
  simp [HashDB.get, HashDB.remove, update_of_ne h]

@[simp] theorem get_remove_self (db : HashDB) (key : ℤ) : (db.remove key).get key = none := by
  simp [HashDB.get, HashDB.remove]

/-- Storing the node table leaves the users' records alone. -/
theorem get_storeDataNode (db : HashDB) (nodes : OrdMap ℤ DataNode) (h : u ≠ 0) :
    (db.storeDataNode nodes).get u = db.get u := by
  unfold HashDB.storeDataNode
  split
  · rfl
  · simp [HashDB.get, HashDB.put, update_of_ne h]

theorem get_handOut (m : DataNodeManager) (nodeId : ℤ) (node' : DataNode) (blk : BlockData)
    (h : u ≠ 0) : (m.handOut nodeId node' blk).hashDB.get u = m.hashDB.get u :=
  get_storeDataNode m.hashDB _ h

section Init

variable {m m' : DataNodeManager} {cluster : ℕ} {curNode curCount : ℤ}
  (hinit : m.init cluster curNode curCount = some m')

include hinit

/-- A start leaves the users' records alone. -/
theorem get_init (h : u ≠ 0) : m'.hashDB.get u = m.hashDB.get u := by
  rcases init_cases hinit with ⟨-, rfl⟩ | ⟨-, rfl⟩
  · exact get_storeDataNode m.hashDB _ h
  · rfl

theorem handedOut_init : m'.handedOut = m.handedOut := by
  rcases init_cases hinit with ⟨-, rfl⟩ | ⟨-, rfl⟩ <;> rfl

theorem moving_init : m'.moving = [] := by
  rcases init_cases hinit with ⟨-, rfl⟩ | ⟨-, rfl⟩ <;> rfl

end Init

/-- The first start of a master makes a table and stores it. -/
theorem fresh_eq (hinit : DataNodeManager.fresh cluster curNode curCount = some m) :
    m.dataNodes = DataNodeManager.freshNodes cluster ∧ m.hashDB.loadDataNode = m.dataNodes := by
  rcases init_cases hinit with ⟨-, rfl⟩ | ⟨hne, -⟩
  · exact ⟨rfl, loadDataNode_storeDataNode _ (tableOk_freshNodes cluster) (freshNodes_ne_nil cluster)⟩
  · exact absurd rfl hne

/-- The state after the step that starts a master. -/
theorem masterStep_restart :
    masterStep (some m) (.restart cluster curNode curCount) = m.init cluster curNode curCount := by
  rw [masterStep, partialStep_some, MasterOp.step, Option.map_map]
  exact Option.map_id'

/-! ## The blocks that the clients are given -/

/-- The counts of the stored records and of the moves that wait are at least 1, and no move waits
for user 0. -/
structure CountsInv (m : DataNodeManager) : Prop where
  stored : ∀ u d, u ≠ 0 → m.hashDB.get u = some d → 1 ≤ d.curCount
  waiting : ∀ c ∈ m.moving, c.newBlkInfo.userId ≠ 0 ∧ 1 ≤ c.newBlk.curCount

/-- The user whose record is stored gets a count of at least 1. -/
theorem CountsInv.put (h : CountsInv m) {d : BlockData} (hself : m'.hashDB.get u = some d)
    (hcount : 1 ≤ d.curCount) (hget : ∀ v, v ≠ 0 → v ≠ u → m'.hashDB.get v = m.hashDB.get v)
    (hmov : ∀ c ∈ m'.moving, c ∈ m.moving) : CountsInv m' := by
  refine ⟨fun v e hv he => ?_, fun c hc => h.waiting c (hmov c hc)⟩
  by_cases hvu : v = u
  · subst hvu
    rw [hself] at he
    cases he
    exact hcount
  · exact h.stored v e hv (hget v hv hvu ▸ he)

/-- An operation that names no user, or a user other than 0, spares the table. -/
theorem MasterOp.sparesTable_of_userId (hm : CountsInv m) (h : op.userId ≠ some 0) :
    op.SparesTable m := by
  cases op with
  | removeBlock userId => simpa [MasterOp.userId, MasterOp.SparesTable] using h
  | moveBlockReturns i moved => exact fun _ p hp => (hm.waiting p (List.mem_of_getElem? hp)).1
  | _ => trivial

/-- The counts are kept by every operation of a nonzero user. -/
theorem CountsInv.effect (hok : TableOk m.dataNodes) (hm : CountsInv m)
    (heff : MasterEffect m op reply m') (h : op.userId ≠ some 0) : CountsInv m' := by
  cases heff with
  | idle | join => exact ⟨hm.stored, hm.waiting⟩
  | read => exact hm
  | count u old hu hget _ =>
      have hold := hm.stored u old hu hget
      exact hm.put (get_put_self _ _ _) (by show 1 ≤ old.curCount + 1; omega)
        (fun v _ hv => get_put_ne _ _ hv) fun _ hc => hc
  | first u n c node node' blk hu _ hf hadv =>
      exact hm.put (get_put_self _ _ _) (by rw [(hadv hok).counts.1])
        (fun v hv0 hv => (get_put_ne _ _ hv).trans (get_handOut _ _ _ _ hv0)) fun _ hc => hc
  | next u old node node' blk hu _ _ hf hadv =>
      exact hm.put (get_put_self _ _ _) (by rw [(hadv hok).counts.1])
        (fun v hv0 hv => (get_put_ne _ _ hv).trans (get_handOut _ _ _ _ hv0)) fun _ hc => hc
  | relocate u old node node' blk hu hget hf hadv =>
      exact hm.put (get_put_self _ _ _) (hm.stored u old hu hget)
        (fun v hv0 hv => (get_put_ne _ _ hv).trans (get_handOut _ _ _ _ hv0)) fun _ hc => hc
  | remove u =>
      refine ⟨fun v e hv he => ?_, hm.waiting⟩
      by_cases hvu : v = u
      · subst hvu
        rw [get_remove_self] at he
        cases he
      · exact hm.stored v e hv ((get_remove_ne _ hvu).symm.trans he)
  | copy info node node' blk hf hadv =>
      refine ⟨fun v e hv he => hm.stored v e hv ((get_handOut m _ _ blk hv).symm.trans he), ?_⟩
      intro c hc
      rcases List.mem_append.mp hc with hc | hc
      · exact hm.waiting c hc
      · rw [List.mem_singleton.mp hc]
        exact ⟨fun h0 => h (congrArg some h0), by rw [(hadv hok).counts.1]⟩
  | refused i c _ => exact ⟨hm.stored, fun c hc => hm.waiting c (List.mem_of_mem_eraseIdx hc)⟩
  | moved i c hi =>
      exact hm.put (get_put_self _ _ _) (hm.waiting c (List.mem_of_getElem? hi)).2
        (fun v _ hv => get_put_ne _ _ hv) fun _ hc => List.mem_of_mem_eraseIdx hc
  | decrease u count old hu hget =>
      exact hm.put (get_put_self _ _ _) (hm.stored u old hu hget)
        (fun v _ hv => get_put_ne _ _ hv) fun _ hc => hc
  | restart cluster curNode curCount m' hinit =>
      refine ⟨fun v e hv he => hm.stored v e hv (get_init hinit hv ▸ he), fun c hc => ?_⟩
      rw [moving_init hinit] at hc
      cases hc

/-- The block that the result of an operation opens: a client sees that a block is new by its
count of 1, and a block that `newBlock` returns or a data node is told to copy to is new. -/
def MasterOp.opens : MasterOp → Reply → Option BlockPos
  | .getBlock _ true, .block info => if info.curCount = 1 then some info.pos else none
  | .newBlock _, .block info => some info.pos
  | .moveBlock _, .copy _ blkInfoTo => some blkInfoTo.pos
  | _, _ => none

@[simp] theorem MasterOp.opens_null (op : MasterOp) : op.opens .null = none := by
  cases op with
  | getBlock _ write => cases write <;> rfl
  | _ => rfl

@[simp] theorem MasterOp.opens_thrown (op : MasterOp) (e : OutOfRange) :
    op.opens (.thrown e) = none := by
  cases op with
  | getBlock _ write => cases write <;> rfl
  | _ => rfl

/-- The block that the result opens is the one the allocator handed out. -/
theorem MasterEffect.handedOut_eq (hok : TableOk m.dataNodes) (hm : CountsInv m)
    (heff : MasterEffect m op reply m') :
    m'.handedOut = (op.opens reply).toList ++ m.handedOut := by
  cases heff with
  | idle _ _ curNode curCount hreply hdec =>
      rcases hreply with rfl | rfl
      · rw [MasterOp.opens_null]
        rfl
      · rw [MasterOp.opens_thrown]
        rfl
  | read => rfl
  | count u old hu hget _ =>
      have hold := hm.stored u old hu hget
      have hne : ¬ old.curCount + 1 = 1 := by omega
      simp [MasterOp.opens, DataNodeManager.blockDataToBlockInfo, hne, DataNodeManager.putBlock]
  | first u n c node node' blk hu _ hf hadv =>
      have hopens : (MasterOp.getBlock u true).opens
          (.block (DataNodeManager.blockDataToBlockInfo u blk)) = some blk.pos :=
        if_pos (hadv hok).counts.1
      rw [hopens]
      rfl
  | next u old node node' blk hu _ _ hf hadv => 
      have hopens : (MasterOp.getBlock u true).opens (.block (DataNodeManager.infoAfter u
          { blk with totalCount := old.totalCount + 1 } old)) = some blk.pos :=
        if_pos (hadv hok).counts.1
      rw [hopens]
      rfl
  | relocate u old node node' blk hu hget hf hadv => rfl
  | remove u => rfl
  | copy info node node' blk hf hadv =>
      have hserver : info.serverId = blk.serverId := by rw [(hadv hok).blkServer, (hok _ _ hf).1]
      simp [MasterOp.opens, DataNodeManager.handOut, BlockInfo.pos, BlockData.pos, hserver]
  | refused | moved | decrease | join => rfl
  | restart cluster curNode curCount m' hinit => exact handedOut_init hinit

/-- The results of a run, as long as it has any. -/
def masterReplies : DataNodeManager → List MasterOp → List (MasterOp × Reply)
  | _, [] => []
  | m, op :: ops =>
    match op.step m with
    | none => []
    | some r => (op, r.1) :: masterReplies r.2 ops

/-- The blocks that the results of a run open, in their order. -/
def openedBlocks (m : DataNodeManager) (ops : List MasterOp) : List BlockPos :=
  (masterReplies m ops).filterMap fun p => p.1.opens p.2

/-- The state of the allocator proofs. -/
def ClientsInv (m : DataNodeManager) : Prop := AllocInv m ∧ CountsInv m

/-- A defined operation with a user id other than 0, as one step of the run. -/
theorem ClientsInv.step (h : ClientsInv m) (hid : op.userId ≠ some 0) (hdef : op.Defined m) :
    ∃ reply m', op.step m = some (reply, m') ∧ ClientsInv m' ∧
      m'.handedOut = (op.opens reply).toList ++ m.handedOut := by
  obtain ⟨reply, m', hstep, heff⟩ := goes_step hdef
  refine ⟨reply, m', hstep, ⟨?_, h.2.effect h.1.table heff hid⟩, heff.handedOut_eq h.1.table h.2⟩
  exact h.1.effect heff (MasterOp.sparesTable_of_userId h.2 hid)

/-- A run whose operations are defined has a last state, and the allocator's log of it is what the
results opened. -/
theorem ClientsInv.run (h : ClientsInv m) {ops : List MasterOp}
    (hids : ∀ op ∈ ops, op.userId ≠ some 0)
    (hdef : StepsMeet masterStep (WhenLive fun m op => op.Defined m) (some m) ops) :
    ∃ m', runOps masterStep (some m) ops = some m' ∧ ClientsInv m' ∧
      m'.handedOut = (openedBlocks m ops).reverse ++ m.handedOut := by
  induction ops generalizing m with
  | nil => exact ⟨m, rfl, h, rfl⟩
  | cons op ops ih =>
      obtain ⟨reply, m₁, hstep, h₁, hout₁⟩ := h.step (hids op (by simp)) (hdef.1 m rfl)
      have hmaster : masterStep (some m) op = some m₁ := by
        rw [masterStep, partialStep_some, hstep]
        rfl
      obtain ⟨m', hrun, h', hout⟩ := ih h₁ (fun op' hop' => hids op' (List.mem_cons_of_mem _ hop'))
        (hmaster ▸ hdef.2)
      refine ⟨m', by rw [runOps_cons, hmaster, hrun], h', ?_⟩
      have hopened : openedBlocks m (op :: ops) = (op.opens reply).toList ++ openedBlocks m₁ ops := by
        unfold openedBlocks
        rw [masterReplies, hstep]
        cases hopens : op.opens reply with
        | none => simp [hopens]
        | some b => simp [hopens]
      rw [hout, hout₁, hopened, List.reverse_append, List.append_assoc]
      cases op.opens reply <;> rfl

/-! ## No block is handed out twice -/

theorem clientsInv_uninitialised : ClientsInv DataNodeManager.uninitialised := by
  refine ⟨allocInv_uninitialised, fun u d _ hd => ?_, fun c hc => ?_⟩
  · cases hd
  · cases hc

/-- The run has a result, no block is opened twice in it, and every index lies in the file. -/
def HandsOutOnce (ops : List MasterOp) : Prop :=
  (runOps masterStep (some .uninitialised) ops).isSome ∧
    (openedBlocks .uninitialised ops).Nodup ∧
    ∀ b ∈ openedBlocks .uninitialised ops, 0 ≤ b.blockIndex ∧ b.blockIndex < blockCount

/-- **Whatever the clients do, with user ids other than 0 and with restarts in between, no block is
handed out twice and every index lies in the file, as long as the operations stay in the arrays of
the code and in the range of its `int`s.** -/
theorem handedOut_distinct (ops : List MasterOp) (hids : ∀ op ∈ ops, op.userId ≠ some 0)
    (hdef : StepsMeet masterStep (WhenLive fun m op => op.Defined m) (some .uninitialised) ops) :
    HandsOutOnce ops := by
  obtain ⟨m, hrun, ⟨halloc, -⟩, hout⟩ := clientsInv_uninitialised.run hids hdef
  have hlog : m.handedOut = (openedBlocks .uninitialised ops).reverse :=
    hout.trans (List.append_nil _)
  have hdistinct := halloc.distinct
  rw [hlog, List.nodup_reverse] at hdistinct
  refine ⟨by rw [hrun]; rfl, hdistinct, fun b hb => halloc.range b ?_⟩
  rw [hlog]
  exact List.mem_reverse.mpr hb

/-- Two users, a server that joins, a move, a new block, and a restart. -/
theorem handedOut_distinct_joined :
    HandsOutOnce [.restart 1 0 0, .getBlock 1 true, .addNode 1, .moveBlock ⟨0, 1, 1, 1, 1, 0, 0, -1, 0⟩,
      .moveBlockReturns 0 true, .newBlock 1, .restart 1 0 0, .getBlock 2 true] ∧
    openedBlocks .uninitialised [.restart 1 0 0, .getBlock 1 true, .addNode 1,
      .moveBlock ⟨0, 1, 1, 1, 1, 0, 0, -1, 0⟩, .moveBlockReturns 0 true, .newBlock 1, .restart 1 0 0,
      .getBlock 2 true] = [⟨0, 1, 0⟩, ⟨0, 1, 1⟩, ⟨0, 1, 2⟩, ⟨0, 1, 3⟩] :=
  ⟨handedOut_distinct _ (by decide) (by decide), by decide⟩

/-- A block for user -1 is asked for: `_blockMutexs[-1]` is the mutex of the nodes, which the
allocator locks again. -/
theorem getBlock_negative : ¬ HandsOutOnce [.restart 1 0 0, .getBlock (-1) true] := by
  intro h
  exact absurd h.1 (by decide)

end Oce.FeedDB
