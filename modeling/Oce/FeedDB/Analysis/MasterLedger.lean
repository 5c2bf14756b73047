import Oce.FeedDB.Analysis.MasterAllocation
import Mathlib.Data.List.Induction

/-!
# Counting the records of the blocks

The master never sees a block: it believes the counts it stores. The `Ledger` kept beside
it counts what it really did: the records it directed to each block, with those a
relocation carried over, the writes of each user, and what `decTotalCount` took off.

As long as the stored `curCount` is at least what the block holds, no block is
over-filled. `get`, `newBlock` and `decTotalCount` keep it so. `moveBlock` stores a record
with both counts 1 whatever the block it moved holds, so it keeps the two in step only
for a user with exactly one record.
-/

set_option autoImplicit false

namespace Oce.FeedDB

open Function Oce.Base

variable {m m' : DataNodeManager} {cluster : ℕ} {curNode curCount u : ℤ} {op : MasterOp}
  {reply : Reply} {ops : List MasterOp} {d : BlockData}

/-!
## The stored node table

The node table lives under key 0 of the database that holds the users' records. An
operation that spares key 0 leaves there the table it found or writes the table it has in
memory, so after a run of such operations the stored table is the node table of the run
at some moment, and by the allocator's invariant it covers every block handed out.

`get`, `newBlock` and `decTotalCount` refuse user 0. `remove` and `moveBlock` do not:
the first deletes the table and the second writes a user's record over it.
-/

/-- The run has a result, and the table stored under key 0 after it is the node table of the run,
now or at an earlier moment, still covers every block handed out, and is not empty, so that a
restart loads it and makes no new one. -/
def NodeTableSurvives (ops : List MasterOp) : Prop :=
  ∃ m ∈ runOps masterStep (some .uninitialised) ops,
    (∃ k ≤ ops.length, ∃ m' ∈ runOps masterStep (some .uninitialised) (ops.take k),
      m.hashDB.loadDataNode = m'.dataNodes) ∧
    Covers m.hashDB.loadDataNode m.handedOut ∧
    m.hashDB.loadDataNode.entries ≠ []

theorem entries_insert_ne_nil (nodes : OrdMap ℤ DataNode) (k : ℤ) (n : DataNode) :
    (nodes.insert k n).entries ≠ [] := by
  intro hnil
  have h := OrdMap.find_insert_self nodes k n
  rw [OrdMap.find_eq_none_of_nil hnil] at h
  cases h

/-- A start finds a table that is not empty and keeps it, or stores the one it makes. -/
theorem loadDataNode_init (hinit : m.init cluster curNode curCount = some m') :
    m'.hashDB.loadDataNode = m.hashDB.loadDataNode ∨
      (m'.hashDB.loadDataNode = m'.dataNodes ∧ m'.dataNodes.entries ≠ []) := by
  rcases init_cases hinit with ⟨-, rfl⟩ | ⟨-, rfl⟩
  · exact Or.inr ⟨loadDataNode_storeDataNode m.hashDB (tableOk_freshNodes cluster)
      (freshNodes_ne_nil cluster), freshNodes_ne_nil cluster⟩
  · exact Or.inl rfl

/-- The stored table after an operation that spares it is the one before, or the table in
memory, which is then not empty. -/
theorem MasterEffect.storedTable (h : AllocInv m) (heff : MasterEffect m op reply m')
    (hop : op.SparesTable m) :
    m'.hashDB.loadDataNode = m.hashDB.loadDataNode ∨
      (m'.hashDB.loadDataNode = m'.dataNodes ∧ m'.dataNodes.entries ≠ []) := by
  cases heff with
  | idle => exact Or.inl rfl
  | read => exact Or.inl rfl
  | count u old hu => exact Or.inl (loadDataNode_put _ _ hu)
  | first u n c node node' blk hu _ hf hadv =>
      right
      have hload := loadDataNode_handOut (m := { m with curNode := n, curCount := c }) h.table hf (hadv h.table)
      exact ⟨(loadDataNode_put _ _ hu).trans hload, entries_insert_ne_nil _ _ _⟩
  | next u old node node' blk hu _ _ hf hadv =>
      right
      have hload := loadDataNode_handOut h.table hf (hadv h.table)
      exact ⟨(loadDataNode_put _ _ hu).trans hload, entries_insert_ne_nil _ _ _⟩
  | relocate u old node node' blk hu _ hf hadv =>
      right
      have hload := loadDataNode_handOut h.table hf (hadv h.table)
      exact ⟨(loadDataNode_put _ _ hu).trans hload, entries_insert_ne_nil _ _ _⟩
  | remove u => exact Or.inl (loadDataNode_remove _ hop)
  | copy info node node' blk hf hadv =>
      exact Or.inr ⟨loadDataNode_handOut h.table hf (hadv h.table), entries_insert_ne_nil _ _ _⟩
  | refused => exact Or.inl rfl
  | moved i p hi => exact Or.inl (loadDataNode_put _ _ (hop rfl p hi))
  | decrease u count old hu => exact Or.inl (loadDataNode_put _ _ hu)
  | join => exact Or.inl rfl
  | restart cluster curNode curCount m' hinit => exact loadDataNode_init hinit

/-- The operation spares key 0, and its behaviour is defined. -/
def SparesDefined (m : DataNodeManager) (op : MasterOp) : Prop := op.SparesTable m ∧ op.Defined m

instance (m : DataNodeManager) (op : MasterOp) : Decidable (SparesDefined m op) :=
  inferInstanceAs (Decidable (_ ∧ _))

/-- A step that meets the condition, with all that is known of it. -/
theorem AllocInv.step (h : AllocInv m) (hop : SparesDefined m op) :
    ∃ m' ∈ masterStep (some m) op, AllocInv m' ∧
      (m'.hashDB.loadDataNode = m.hashDB.loadDataNode ∨
        (m'.hashDB.loadDataNode = m'.dataNodes ∧ m'.dataNodes.entries ≠ [])) := by
  obtain ⟨reply, m', hstep, heff⟩ := goes_step hop.2
  refine ⟨m', ?_, h.effect heff hop.1, heff.storedTable h hop.1⟩
  rw [masterStep, partialStep_some, hstep]
  rfl

/-- The invariant holds after every run that leaves key 0 to the table. -/
theorem allocInv_run
    (hops : StepsMeet masterStep (WhenLive SparesDefined) (some .uninitialised) ops) :
    ∃ m ∈ runOps masterStep (some .uninitialised) ops, AllocInv m := by
  refine partial_run_invariant (fun m op h hop => ?_) allocInv_uninitialised hops
  obtain ⟨m', hm', h', -⟩ := h.step hop
  exact ⟨m', hm', h'⟩

/-- A master that was started has stored the table it made. -/
theorem nodeTableSurvives_start
    (hdef : (MasterOp.restart cluster curNode curCount).Defined .uninitialised) :
    NodeTableSurvives [.restart cluster curNode curCount] := by
  obtain ⟨m, hinit⟩ := init_of_defined hdef
  obtain ⟨htable, hstored⟩ := fresh_eq hinit
  have hrun : runOps masterStep (some .uninitialised) [.restart cluster curNode curCount] = some m :=
    masterStep_restart.trans hinit
  refine ⟨m, hrun, ⟨1, le_rfl, m, hrun, hstored⟩, (allocInv_uninitialised.init hinit).storedCovers, ?_⟩
  rw [hstored, htable]
  exact freshNodes_ne_nil cluster

/-- One more operation that spares the table. -/
theorem NodeTableSurvives.snoc (h : NodeTableSurvives ops)
    (hrun : runOps masterStep (some .uninitialised) ops = some m) (hinv : AllocInv m)
    (hop : SparesDefined m op) : NodeTableSurvives (ops ++ [op]) := by
  obtain ⟨_, hm, ⟨k, hk, mk, hmk, htable⟩, -, hne⟩ := h
  cases Option.some.inj (hrun.symm.trans hm)
  obtain ⟨m', hm', hinv', hstored⟩ := hinv.step hop
  have hrun' : runOps masterStep (some .uninitialised) (ops ++ [op]) = some m' := by
    rw [runOps_append, hrun]
    exact hm'
  refine ⟨m', hrun', ?_, hinv'.storedCovers, ?_⟩
  · rcases hstored with hsame | ⟨hnew, -⟩
    · refine ⟨k, by rw [List.length_append]; omega, mk, ?_, hsame.trans htable⟩
      rw [List.take_append_of_le_length hk]
      exact hmk
    · exact ⟨(ops ++ [op]).length, le_rfl, m', by rw [List.take_length]; exact hrun', hnew⟩
  · rcases hstored with hsame | ⟨hnew, hne'⟩
    · exact hsame ▸ hne
    · exact hnew ▸ hne'

/-- **The stored table survives every run that removes no block of user 0 and completes no
move for user 0**, and stays in the arrays of the code and in the range of its `int`s. -/
theorem nodeTable_survives (cluster : ℕ) (curNode curCount : ℤ) (ops : List MasterOp)
    (hops : StepsMeet masterStep (WhenLive SparesDefined) (some .uninitialised)
      (.restart cluster curNode curCount :: ops)) :
    NodeTableSurvives (.restart cluster curNode curCount :: ops) := by
  induction ops using List.reverseRecOn with
  | nil => exact nodeTableSurvives_start (hops.1 _ rfl).2
  | append_singleton ops op ih =>
      have hsplit := (stepsMeet_append _ (.restart cluster curNode curCount :: ops) [op]).mp hops
      obtain ⟨m, hm, hinv⟩ := allocInv_run hsplit.1
      exact (ih hsplit.1).snoc hm hinv (hsplit.2.1 m hm)

/-- Requests for user 0 that are refused, and a restart. -/
theorem nodeTable_survives_refused :
    NodeTableSurvives
      [.restart 2 0 0, .getBlock 0 true, .getBlock 1 true, .newBlock 0, .decTotalCount 0 1,
        .restart 2 0 0, .moveBlock ⟨0, 1, 1, 1, 1, 0, 0, -1, 0⟩, .moveBlockReturns 0 true,
        .removeBlock 1] :=
  nodeTable_survives 2 0 0 _ (by decide)

/-- Removing the block of user 0 deletes the table: after the next restart the first block
of file 1 is handed out again. -/
theorem removeBlock_zero_loses_table :
    ¬ NodeTableSurvives [.restart 1 0 0, .getBlock 1 true, .removeBlock 0] ∧
      openedBlocks .uninitialised [.restart 1 0 0, .getBlock 1 true, .removeBlock 0, .restart 1 0 0,
        .getBlock 2 true] = [⟨0, 1, 0⟩, ⟨0, 1, 0⟩] := by
  constructor
  · rintro ⟨m, hm, -, -, hne⟩
    cases hm
    exact hne rfl
  · decide

/-- A move completed for user 0 writes that user's record over the table: the block of
file 1 handed out last is not covered any more. -/
theorem moveBlock_zero_loses_table :
    ¬ NodeTableSurvives
      [.restart 1 0 0, .getBlock 1 true, .moveBlock ⟨0, 0, 1, 1, 1, 0, 0, -1, 0⟩,
        .moveBlockReturns 0 true] := by
  rintro ⟨m, hm, -, hcovers, -⟩
  cases hm
  obtain ⟨n, hn, huses⟩ := hcovers ⟨0, 1, 1⟩ (by decide)
  cases hn
  simp [DataNode.Uses] at huses

/-- User -1 locks the mutex of the nodes in the place of its own, and user -2 writes over the node
table. -/
theorem negative_loses_table :
    ¬ NodeTableSurvives [.restart 1 0 0, .getBlock (-1) true] ∧
      ¬ NodeTableSurvives [.restart 1 0 0, .getBlock (-2) false] := by
  constructor
  · rintro ⟨m, hm, -⟩
    cases hm
  · rintro ⟨m, hm, -⟩
    cases hm

/-- What the master did, counted beside it. -/
structure Ledger where
  records : BlockPos → ℤ
  writes : ℤ → ℤ
  decs : ℤ → ℤ

namespace Ledger

/-- Nothing happened yet. -/
def zero : Ledger := ⟨fun _ => 0, fun _ => 0, fun _ => 0⟩

/-- A record of user `u` was directed to block `b`. -/
def write (l : Ledger) (u : ℤ) (b : BlockPos) : Ledger :=
  { l with
    records := update l.records b (l.records b + 1)
    writes := update l.writes u (l.writes u + 1) }

/-- The records of block `old` were carried over to block `new`. -/
def carry (l : Ledger) (old new : BlockPos) : Ledger :=
  { l with records := update l.records new (l.records old) }

/-- `count` was taken off the records of user `u`. -/
def dec (l : Ledger) (u count : ℤ) : Ledger :=
  { l with decs := update l.decs u (l.decs u + count) }

/-- The entry an operation with this result makes. A `decTotalCount` of a user without a
block is refused. -/
def after (m : DataNodeManager) (l : Ledger) : MasterOp → Reply → Ledger
  | .getBlock u true, .block info => l.write u info.pos
  | .newBlock _, .block info => l.carry info.prePos info.pos
  | .moveBlockReturns i _, .block info =>
    match m.moving[i]? with
    | some c => l.carry c.blkInfoOld.pos info.pos
    | none => l
  | .decTotalCount u count, _ =>
    if u = 0 ∨ m.hashDB.get u = none then l else l.dec u count
  | _, _ => l

end Ledger

/-- A step of the master with the ledger beside it. -/
def ledgerStep : Option (DataNodeManager × Ledger) → MasterOp → Option (DataNodeManager × Ledger) :=
  partialStep fun s op => (op.step s.1).map fun r => (r.2, s.2.after s.1 op r.1)

/-- No block holds more records than fit, and the stored total of every user is its writes
less what was taken off. -/
def CountsRight (s : DataNodeManager × Ledger) : Prop :=
  (∀ b, s.2.records b ≤ recordPerBlock) ∧
  ∀ u d, u ≠ 0 → s.1.hashDB.get u = some d → d.totalCount = s.2.writes u - s.2.decs u

/-- The run has a result, and its counts are right. -/
def RunCountsRight (ops : List MasterOp) : Prop :=
  ∃ s ∈ runOps ledgerStep (some (.uninitialised, .zero)) ops, CountsRight s

/-- A run of the operations on users' blocks (removing a user's block is none), where a
move that returns was for a block with at most one record, of a user with exactly one. -/
def MovesSingle (s : DataNodeManager × Ledger) : MasterOp → Prop
  | .removeBlock _ => False
  | .moveBlockReturns i moved => moved = true → ∀ c ∈ s.1.moving[i]?,
      c.newBlkInfo.userId ≠ 0 ∧ s.2.records c.blkInfoOld.pos ≤ 1 ∧
        s.2.writes c.newBlkInfo.userId - s.2.decs c.newBlkInfo.userId = 1
  | _ => True

instance (s : DataNodeManager × Ledger) : (op : MasterOp) → Decidable (MovesSingle s op)
  | .removeBlock _ => .isFalse id
  | .moveBlockReturns _ _ => by unfold MovesSingle; infer_instance
  | .getBlock _ _ | .newBlock _ | .moveBlock _ | .decTotalCount _ _ | .addNode _ | .restart _ _ _ =>
    .isTrue trivial

/-- The stored record of a user is right about its block. -/
structure RecordRight (handedOut : List BlockPos) (l : Ledger) (u : ℤ) (d : BlockData) : Prop where
  fill : l.records d.pos ≤ d.curCount
  bound : d.curCount ≤ recordPerBlock
  total : d.totalCount = l.writes u - l.decs u
  handed : d.pos ∈ handedOut

/-- The invariant of the counts: every stored record is right, no two users share a block,
and the blocks of the moves that wait belong to nobody yet. -/
structure LedgerInv (m : DataNodeManager) (l : Ledger) : Prop where
  alloc : AllocInv m
  unused : ∀ b, b ∉ m.handedOut → l.records b = 0
  bound : ∀ b, l.records b ≤ recordPerBlock
  record : ∀ u d, u ≠ 0 → m.hashDB.get u = some d → RecordRight m.handedOut l u d
  absent : ∀ u, u ≠ 0 → m.hashDB.get u = none → l.writes u = l.decs u
  apart : ∀ u v d e, u ≠ 0 → v ≠ 0 → m.hashDB.get u = some d → m.hashDB.get v = some e →
    d.pos = e.pos → u = v
  waiting : ∀ c ∈ m.moving, c.newBlk.pos ∈ m.handedOut ∧ c.newBlkInfo.pos = c.newBlk.pos ∧
    c.newBlk.curCount = 1 ∧ c.newBlk.totalCount = 1
  waitingApart : ∀ c ∈ m.moving, ∀ u d, u ≠ 0 → m.hashDB.get u = some d → d.pos ≠ c.newBlk.pos
  distinct : (m.moving.map fun c => c.newBlk.pos).Nodup

/-- Where no two elements have the same image, the `i`-th has that of no other. -/
theorem ne_of_mem_eraseIdx {α β : Type*} {f : α → β} {l : List α} (h : (l.map f).Nodup) {i : ℕ}
    {a b : α} (hi : l[i]? = some a) (hb : b ∈ l.eraseIdx i) : f a ≠ f b := by
  induction l generalizing i with
  | nil => cases hi
  | cons x l ih =>
      rw [List.map_cons, List.nodup_cons] at h
      cases i with
      | zero =>
          cases hi
          intro he
          exact h.1 (he ▸ List.mem_map_of_mem hb)
      | succ i =>
          rcases List.mem_cons.mp hb with rfl | hb
          · intro he
            exact h.1 (he ▸ List.mem_map_of_mem (List.mem_of_getElem? hi))
          · exact ih h.2 hi hb

/-! ## One operation -/

/-- Nothing is told of the users' records but that they are the same, that more blocks are
handed out and that fewer moves wait. -/
theorem LedgerInv.frame {l : Ledger} (h : LedgerInv m l) (halloc : AllocInv m')
    (hget : ∀ u, u ≠ 0 → m'.hashDB.get u = m.hashDB.get u)
    (hout : ∀ b ∈ m.handedOut, b ∈ m'.handedOut) (hmov : List.Sublist m'.moving m.moving) :
    LedgerInv m' l where
  alloc := halloc
  unused b hb := h.unused b fun hmem => hb (hout b hmem)
  bound := h.bound
  record u d hu hd := by
    have hr := h.record u d hu (hget u hu ▸ hd)
    exact ⟨hr.fill, hr.bound, hr.total, hout _ hr.handed⟩
  absent u hu hd := h.absent u hu (hget u hu ▸ hd)
  apart u v d e hu hv hd he := h.apart u v d e hu hv (hget u hu ▸ hd) (hget v hv ▸ he)
  waiting c hc := by
    obtain ⟨hpos, hrest⟩ := h.waiting c (hmov.subset hc)
    exact ⟨hout _ hpos, hrest⟩
  waitingApart c hc u d hu hd := h.waitingApart c (hmov.subset hc) u d hu (hget u hu ▸ hd)
  distinct := h.distinct.sublist (hmov.map _)

/-- The record of user `u` becomes `d`, and the ledger is changed at `u` and at the block
of `d` only, to values that `d` is right about. -/
theorem LedgerInv.store {l l' : Ledger} (h : LedgerInv m l) (halloc : AllocInv m') (hu : u ≠ 0)
    (hself : m'.hashDB.get u = some d)
    (hget : ∀ v, v ≠ 0 → v ≠ u → m'.hashDB.get v = m.hashDB.get v)
    (hout : ∀ b ∈ m.handedOut, b ∈ m'.handedOut) (hmov : List.Sublist m'.moving m.moving)
    (hrecords : ∀ b, b ≠ d.pos → l'.records b = l.records b)
    (hwrites : ∀ v, v ≠ u → l'.writes v - l'.decs v = l.writes v - l.decs v)
    (hright : RecordRight m'.handedOut l' u d)
    (hothers : ∀ v e, v ≠ 0 → v ≠ u → m.hashDB.get v = some e → e.pos ≠ d.pos)
    (hwait : ∀ c ∈ m'.moving, d.pos ≠ c.newBlk.pos) : LedgerInv m' l' where
  alloc := halloc
  unused b hb := by
    have hne : b ≠ d.pos := fun he => hb (he ▸ hright.handed)
    rw [hrecords b hne]
    exact h.unused b fun hmem => hb (hout b hmem)
  bound b := by
    by_cases hb : b = d.pos
    · have hfill := hright.fill
      have hbound := hright.bound
      rw [hb]
      omega
    · rw [hrecords b hb]
      exact h.bound b
  record v e hv he := by
    by_cases hvu : v = u
    · subst hvu
      rw [hself] at he
      cases he
      exact hright
    · rw [hget v hv hvu] at he
      have hr := h.record v e hv he
      have hne := hothers v e hv hvu he
      refine ⟨?_, hr.bound, ?_, hout _ hr.handed⟩
      · rw [hrecords _ hne]
        exact hr.fill
      · rw [hwrites v hvu]
        exact hr.total
  absent v hv he := by
    have hvu : v ≠ u := by
      rintro rfl
      rw [hself] at he
      cases he
    have hw := hwrites v hvu
    have habs := h.absent v hv (hget v hv hvu ▸ he)
    omega
  apart v w e f hv hw he hf hpos := by
    by_cases hvu : v = u <;> by_cases hwu : w = u
    · rw [hvu, hwu]
    · rw [hvu, hself] at he
      cases he
      exact absurd hpos.symm (hothers w f hw hwu (hget w hw hwu ▸ hf))
    · rw [hwu, hself] at hf
      cases hf
      exact absurd hpos (hothers v e hv hvu (hget v hv hvu ▸ he))
    · exact h.apart v w e f hv hw (hget v hv hvu ▸ he) (hget w hw hwu ▸ hf) hpos
  waiting c hc := by
    obtain ⟨hpos, hrest⟩ := h.waiting c (hmov.subset hc)
    exact ⟨hout _ hpos, hrest⟩
  waitingApart c hc v e hv he := by
    by_cases hvu : v = u
    · rw [hvu, hself] at he
      cases he
      exact hwait c hc
    · exact h.waitingApart c (hmov.subset hc) v e hv (hget v hv hvu ▸ he)
  distinct := h.distinct.sublist (hmov.map _)

/-- A block just handed out is nobody's, and no move waits for it. -/
theorem LedgerInv.fresh {l : Ledger} (h : LedgerInv m l) {b : BlockPos} (hb : b ∉ m.handedOut) :
    l.records b = 0 ∧ (∀ v e, v ≠ 0 → m.hashDB.get v = some e → e.pos ≠ b) ∧
      ∀ c ∈ m.moving, b ≠ c.newBlk.pos := by
  refine ⟨h.unused b hb, fun v e hv he hpos => ?_, fun c hc hpos => ?_⟩
  · exact hb (hpos ▸ (h.record v e hv he).handed)
  · exact hb (hpos ▸ (h.waiting c hc).1)

/-- An operation that does nothing makes no entry. -/
theorem after_idle {l : Ledger} (hreply : reply = .null ∨ reply = .thrown .outOfRange)
    (hdec : ∀ u count, op = .decTotalCount u count → u = 0 ∨ m.hashDB.get u = none) :
    l.after m op reply = l := by
  unfold Ledger.after
  split
  · simp at hreply
  · simp at hreply
  · simp at hreply
  · exact if_pos (hdec _ _ rfl)
  · rfl

/-- What a record directed to the block of `d` leaves. -/
theorem LedgerInv.write {l : Ledger} (h : LedgerInv m l) (halloc : AllocInv m') (hu : u ≠ 0)
    (hself : m'.hashDB.get u = some d)
    (hget : ∀ v, v ≠ 0 → v ≠ u → m'.hashDB.get v = m.hashDB.get v)
    (hout : ∀ b ∈ m.handedOut, b ∈ m'.handedOut) (hmov : List.Sublist m'.moving m.moving)
    (hfill : l.records d.pos + 1 ≤ d.curCount) (hbound : d.curCount ≤ recordPerBlock)
    (htotal : d.totalCount = l.writes u - l.decs u + 1) (hpos : d.pos ∈ m'.handedOut)
    (hothers : ∀ v e, v ≠ 0 → v ≠ u → m.hashDB.get v = some e → e.pos ≠ d.pos)
    (hwait : ∀ c ∈ m'.moving, d.pos ≠ c.newBlk.pos) : LedgerInv m' (l.write u d.pos) := by
  refine h.store halloc hu hself hget hout hmov (fun b hb => ?_) (fun v hv => ?_)
    ⟨?_, hbound, ?_, hpos⟩ hothers hwait
  · exact update_of_ne hb _ _
  · simp only [Ledger.write, update_of_ne hv]
  · simpa only [Ledger.write, update_self] using hfill
  · simp only [Ledger.write, update_self]
    omega

/-- What a relocation of the block `old` to the block of `d` leaves. -/
theorem LedgerInv.carry {l : Ledger} (h : LedgerInv m l) (halloc : AllocInv m') (hu : u ≠ 0)
    (old : BlockPos) (hself : m'.hashDB.get u = some d)
    (hget : ∀ v, v ≠ 0 → v ≠ u → m'.hashDB.get v = m.hashDB.get v)
    (hout : ∀ b ∈ m.handedOut, b ∈ m'.handedOut) (hmov : List.Sublist m'.moving m.moving)
    (hfill : l.records old ≤ d.curCount) (hbound : d.curCount ≤ recordPerBlock)
    (htotal : d.totalCount = l.writes u - l.decs u) (hpos : d.pos ∈ m'.handedOut)
    (hothers : ∀ v e, v ≠ 0 → v ≠ u → m.hashDB.get v = some e → e.pos ≠ d.pos)
    (hwait : ∀ c ∈ m'.moving, d.pos ≠ c.newBlk.pos) : LedgerInv m' (l.carry old d.pos) := by
  refine h.store halloc hu hself hget hout hmov (fun b hb => ?_) (fun v _ => rfl)
    ⟨?_, hbound, htotal, hpos⟩ hothers hwait
  · exact update_of_ne hb _ _
  · simpa only [Ledger.carry, update_self] using hfill

/-- A move that is sent waits with a block that was just handed out. -/
theorem LedgerInv.copied {l : Ledger} (h : LedgerInv m l) {info : BlockInfo}
    {node node' : DataNode} {blk : BlockData}
    (halloc : AllocInv { m.handOut info.serverId node' blk with
      moving := m.moving ++
        [⟨info, { info with fileId := blk.fileId, blockIndex := blk.blockIndex }, blk⟩] })
    (hf : m.dataNodes.find info.serverId = some node) (hadv : Advances node node' blk) :
    LedgerInv { m.handOut info.serverId node' blk with
      moving := m.moving ++
        [⟨info, { info with fileId := blk.fileId, blockIndex := blk.blockIndex }, blk⟩] } l := by
  have hnew := Covers.not_mem h.alloc.table h.alloc.covers hf hadv
  obtain ⟨-, hothers, hwait⟩ := h.fresh hnew
  have hserver : info.serverId = blk.serverId := by
    rw [hadv.blkServer, (h.alloc.table _ _ hf).1]
  have hbase : LedgerInv { m.handOut info.serverId node' blk with moving := m.moving } l :=
    h.frame (halloc.setMoving _) (fun u hu => get_handOut m _ _ _ hu)
      (fun _ hb => List.mem_cons_of_mem _ hb) (List.Sublist.refl _)
  refine ⟨halloc, hbase.unused, hbase.bound, hbase.record, hbase.absent, hbase.apart,
    fun c hc => ?_, fun c hc u d hu hd => ?_, ?_⟩
  · rcases List.mem_append.mp hc with hc | hc
    · exact hbase.waiting c hc
    · rw [List.mem_singleton.mp hc]
      refine ⟨List.mem_cons_self, ?_, hadv.counts⟩
      simp only [BlockInfo.pos, BlockData.pos, hserver]
  · rcases List.mem_append.mp hc with hc | hc
    · exact hbase.waitingApart c hc u d hu hd
    · rw [List.mem_singleton.mp hc]
      exact hothers u d hu ((get_handOut m _ _ blk hu).symm.trans hd)
  · rw [List.map_append, List.nodup_append]
    refine ⟨h.distinct, by simp, fun b hb b' hb' he => ?_⟩
    obtain ⟨c, hc, hcb⟩ := List.mem_map.mp hb
    rw [List.map_singleton, List.mem_singleton] at hb'
    exact hwait c hc (by rw [← hb', ← he, hcb])

/-- **The step lemma of the counts.** -/
theorem LedgerInv.effect {l : Ledger} (h : LedgerInv m l) (heff : MasterEffect m op reply m')
    (hop : MovesSingle (m, l) op) : LedgerInv m' (l.after m op reply) := by
  have hspares : op.SparesTable m := by
    cases op with
    | removeBlock u => exact hop.elim
    | moveBlockReturns i moved => exact fun hm c hc => (hop hm c hc).1
    | _ => trivial
  have halloc := h.alloc.effect heff hspares
  cases heff with
  | idle _ _ curNode curCount hreply hdec =>
      rw [after_idle hreply hdec]
      exact h.frame halloc (fun _ _ => rfl) (fun _ hb => hb) (List.Sublist.refl _)
  | read => exact h
  | count u old hu hget hroom =>
      have hr := h.record u old hu hget
      refine h.write
        (d := { old with curCount := old.curCount + 1, totalCount := old.totalCount + 1 })
        halloc hu (get_put_self _ _ _) (fun v _ hv => get_put_ne _ _ hv) (fun _ hb => hb)
        (List.Sublist.refl _) ?_ hroom ?_ hr.handed (fun v e hv hvu he hpos => ?_)
        (fun c hc => ?_)
      · exact Int.add_le_add_right hr.fill 1
      · rw [← hr.total]
      · exact hvu (h.apart v u e old hv hu he hget hpos)
      · exact h.waitingApart c hc u old hu hget
  | first u n c node node' blk hu hget hf hadv =>
      have hadv := hadv h.alloc.table
      have hnew := Covers.not_mem h.alloc.table h.alloc.covers hf hadv
      obtain ⟨hzero, hothers, hwait⟩ := h.fresh hnew
      have habs := h.absent u hu hget
      refine h.write (d := blk) halloc hu (get_put_self _ _ _) (fun v hv hvu => ?_)
        (fun _ hb => List.mem_cons_of_mem _ hb) (List.Sublist.refl _) ?_ ?_ ?_
        List.mem_cons_self (fun v e hv _ he => hothers v e hv he) hwait
      · exact (get_put_ne _ _ hvu).trans (get_handOut _ _ _ _ hv)
      · rw [hzero, hadv.counts.1]
        decide
      · rw [hadv.counts.1]
        decide
      · rw [hadv.counts.2]
        omega
  | next u old node node' blk hu hget hfull hf hadv =>
      have hadv := hadv h.alloc.table
      have hr := h.record u old hu hget
      have hnew := Covers.not_mem h.alloc.table h.alloc.covers hf hadv
      obtain ⟨hzero, hothers, hwait⟩ := h.fresh hnew
      refine h.write (d := { blk with totalCount := old.totalCount + 1 }) halloc hu
        (get_put_self _ _ _) (fun v hv hvu => ?_) (fun _ hb => List.mem_cons_of_mem _ hb)
        (List.Sublist.refl _) ?_ ?_ ?_ List.mem_cons_self
        (fun v e hv _ he => hothers v e hv he) hwait
      · exact (get_put_ne _ _ hvu).trans (get_handOut _ _ _ _ hv)
      · show l.records blk.pos + 1 ≤ blk.curCount
        rw [hzero, hadv.counts.1]
        decide
      · show blk.curCount ≤ _
        rw [hadv.counts.1]
        decide
      · rw [← hr.total]
  | relocate u old node node' blk hu hget hf hadv =>
      have hadv := hadv h.alloc.table
      have hr := h.record u old hu hget
      have hnew := Covers.not_mem h.alloc.table h.alloc.covers hf hadv
      obtain ⟨-, hothers, hwait⟩ := h.fresh hnew
      have hserver : blk.serverId = old.serverId := by
        rw [hadv.blkServer, (h.alloc.table _ _ hf).1]
      have hpre : (DataNodeManager.infoAfter u
          { blk with totalCount := old.totalCount, curCount := old.curCount } old).prePos =
          old.pos := by
        simp only [DataNodeManager.infoAfter, DataNodeManager.blockDataToBlockInfo,
          BlockInfo.prePos, BlockData.pos, hserver]
      show LedgerInv _ (l.carry (DataNodeManager.infoAfter u _ old).prePos _)
      rw [hpre]
      refine h.carry (d := { blk with totalCount := old.totalCount, curCount := old.curCount })
        halloc hu old.pos (get_put_self _ _ _) (fun v hv hvu => ?_)
        (fun _ hb => List.mem_cons_of_mem _ hb) (List.Sublist.refl _) hr.fill hr.bound hr.total
        List.mem_cons_self (fun v e hv _ he => hothers v e hv he) hwait
      exact (get_put_ne _ _ hvu).trans (get_handOut _ _ _ _ hv)
  | remove u => exact hop.elim
  | copy info node node' blk hf hadv => exact h.copied halloc hf (hadv h.alloc.table)
  | refused i c hi =>
      exact h.frame halloc (fun _ _ => rfl) (fun _ hb => hb) (List.eraseIdx_sublist _ _)
  | moved i c hi =>
      obtain ⟨hu, hrec, hdiff⟩ := hop rfl c hi
      have hc : c ∈ m.moving := List.mem_of_getElem? hi
      obtain ⟨hpos, hinfo, hcur, htot⟩ := h.waiting c hc
      show LedgerInv _ (match m.moving[i]? with
        | some c' => l.carry c'.blkInfoOld.pos c.newBlkInfo.pos
        | none => l)
      rw [hi, hinfo]
      refine h.carry (d := c.newBlk) halloc hu c.blkInfoOld.pos (get_put_self _ _ _)
        (fun v _ hvu => get_put_ne _ _ hvu) (fun _ hb => hb) (List.eraseIdx_sublist _ _)
        (by rw [hcur]; exact hrec) (by rw [hcur]; decide) (by rw [htot]; exact hdiff.symm) hpos
        (fun v e hv _ he => h.waitingApart c hc v e hv he) (fun c' hc' => ?_)
      exact ne_of_mem_eraseIdx h.distinct hi hc'
  | decrease u count old hu hget =>
      have hr := h.record u old hu hget
      show LedgerInv _ (if u = 0 ∨ m.hashDB.get u = none then l else l.dec u count)
      rw [if_neg (by simp [hu, hget])]
      refine h.store (d := { old with totalCount := old.totalCount - count }) halloc hu
        (get_put_self _ _ _) (fun v _ hv => get_put_ne _ _ hv) (fun _ hb => hb)
        (List.Sublist.refl _) (fun _ _ => rfl) (fun v hv => ?_) ⟨hr.fill, hr.bound, ?_, hr.handed⟩
        (fun v e hv hvu he hpos => ?_) (fun c hc => ?_)
      · simp only [Ledger.dec, update_of_ne hv]
      · have := hr.total
        simp only [Ledger.dec, update_self]
        omega
      · exact hvu (h.apart v u e old hv hu he hget hpos)
      · exact h.waitingApart c hc u old hu hget
  | join serverId hf =>
      exact h.frame halloc (fun _ _ => rfl) (fun _ hb => hb) (List.Sublist.refl _)
  | restart cluster curNode curCount m' hinit =>
      refine h.frame halloc (fun u hu => get_init hinit hu) (fun b hb => ?_) ?_
      · rw [handedOut_init hinit]
        exact hb
      · rw [moving_init hinit]
        exact List.nil_sublist _

/-- A master on an empty database has counted nothing. -/
theorem ledgerInv_uninitialised : LedgerInv .uninitialised .zero where
  alloc := allocInv_uninitialised
  unused _ _ := rfl
  bound _ := Int.natCast_nonneg _
  record _ _ _ hd := by cases hd
  absent _ _ _ := rfl
  apart _ _ _ _ _ _ hd _ := by cases hd
  waiting _ hc := by cases hc
  waitingApart _ hc := by cases hc
  distinct := List.nodup_nil

/-- **As long as every move that returns is of a block with at most one record and for a
user with exactly one, no block is over-filled and every total is right.** -/
theorem counts_right (ops : List MasterOp)
    (hops : StepsMeet ledgerStep (WhenLive fun s op => MovesSingle s op ∧ op.Defined s.1)
      (some (.uninitialised, .zero)) ops) : RunCountsRight ops := by
  have hstep : ∀ (s : DataNodeManager × Ledger) (op : MasterOp), LedgerInv s.1 s.2 →
      MovesSingle s op ∧ op.Defined s.1 →
      ∃ t ∈ (op.step s.1).map fun r => (r.2, s.2.after s.1 op r.1), LedgerInv t.1 t.2 := by
    intro s op h hop
    obtain ⟨reply, m', hstep, heff⟩ := goes_step hop.2
    exact ⟨_, by rw [hstep]; rfl, h.effect heff hop.1⟩
  obtain ⟨s, hs, h⟩ := partial_run_invariant hstep ledgerInv_uninitialised hops
  exact ⟨s, hs, h.bound, fun u d hu hd => (h.record u d hu hd).total⟩

/-- A write, a move of the block it filled, a second write and a relocation. -/
theorem counts_right_moved :
    RunCountsRight
      [.restart 1 0 0, .getBlock 1 true, .moveBlock ⟨0, 1, 1, 1, 1, 0, 0, -1, 0⟩,
        .moveBlockReturns 0 true, .getBlock 1 true, .newBlock 1, .decTotalCount 1 1] :=
  counts_right _ (by decide)

/-- A move of a block with two records stores a total of 1, and 62 writes later the block
is over-filled. -/
theorem moveBlock_resets_counts :
    ¬ RunCountsRight
      [.restart 1 0 0, .getBlock 1 true, .getBlock 1 true,
        .moveBlock ⟨0, 1, 2, 2, 1, 0, 0, -1, 0⟩, .moveBlockReturns 0 true] ∧
    (runOps ledgerStep (some (.uninitialised, .zero))
      ([.restart 1 0 0, .getBlock 1 true, .getBlock 1 true,
        .moveBlock ⟨0, 1, 2, 2, 1, 0, 0, -1, 0⟩, .moveBlockReturns 0 true] ++
        List.replicate 62 (.getBlock 1 true))).map (fun s => s.2.records ⟨0, 1, 1⟩) =
      some (recordPerBlock + 1) := by
  constructor
  · rintro ⟨s, hs, -, htotal⟩
    cases hs
    have htotal' := htotal 1 ⟨0, 1, 1, 1, 1⟩ (by decide) (by decide)
    revert htotal'
    decide
  · decide +kernel

end Oce.FeedDB
