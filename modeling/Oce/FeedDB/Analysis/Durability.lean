import Oce.FeedDB.Analysis.FileRecovery

/-!
# Records that were logged are recovered

The invariant of a store is that the item of every record that was logged and not taken
away again is where the recovery will find it: its task is still to come and its record in
the logs, or its block has it in memory (`settled`), and once the cycle has gone past the
block also on disk (`saved`).

The cycle does not wait for tasks: a record whose task is executed after its block was
flushed goes with `.log.old`. Two other ways to lose one are a first record that is logged
for a block after records of the block went with `.log.old`, since its replay starts from
an empty block, and a block that is given more feeds than fit, since the replay may meet
them in another order than the tasks were executed in.
-/

set_option autoImplicit false

namespace Oce.FeedDB

open Function Oce.Base Node

variable {disk : BlockId → Block} {i index count more : ℕ} {n : Node} {f : ℤ}

namespace Store

/-- The block has the feed of the record in memory. -/
def InMemory (s : Store) (r : FeedItemBlockInfo) : Prop :=
  (s.node.cache r.blk.id).isSome ∧ (s.node.view r.blk.id).find r.item.feed ≠ none

/-- For every record of an item that was logged, the recovery finds its feed, or a later
record takes it away, or its block was already full: when its task was executed or, if it
was not yet, when it is replayed. -/
def Durable (s : Store) (preload : ℤ → List BlockId) : Prop :=
  ∀ f i r, (s.history f)[i]? = some r → IsInsert r →
    ((s.node.recover preload).view r.blk.id).find r.item.feed ≠ none ∨
    Removed (s.history f) i r ∨ (f, i) ∈ s.full ∨
    s.Pending f i ∧ ∃ j, i = (s.dropped f).length + j ∧
      (s.node.recoverUpTo preload f j).turnsAway r

/-- The records of a file that were executed fit their blocks as they are on `disk`, each
with those before it. -/
def Roomy (s : Store) (disk : BlockId → Block) (f : ℤ) : Prop :=
  ∀ i < (s.node.recoveryLog f).length, ∀ r ∈ (s.node.recoveryLog f)[i]?, IsInsert r →
    ¬ s.Pending f ((s.dropped f).length + i) → (f, (s.dropped f).length + i) ∉ s.full →
    Removed (s.node.recoveryLog f) i r ∨ RoomAt disk (s.node.recoveryLog f) i r

/-- The records of `.log.old` for the blocks of a range were executed. -/
def Executed (s : Store) (f : ℤ) (index count : ℕ) : Prop :=
  ∀ i < (s.node.logOld f).length, ∀ r ∈ (s.node.logOld f)[i]?, IsInsert r →
    (index : ℤ) ≤ r.blk.blockIndex → r.blk.blockIndex < index + count →
    s.Pending f ((s.dropped f).length + i) → Removed (s.node.recoveryLog f) i r ∨ s.InMemory r

end Store

/-- The records of the step are those of a master: the block is its user's, lies in its
file, and comes after the block before it. No first record is logged for a block of which
records went with `.log.old`, or logged in `.log` when they do; a range is flushed when the
records of `.log.old` for it were executed, and has no more dirty blocks than fit the
buffer; and what is executed or flushed fits its block. -/
def StoreOp.Safe (owner : BlockId → UInt32) (s : Store) : StoreOp → Prop
  | log task => IsInsert task.data →
      uint32 task.data.blk.userId = owner task.data.blk.id ∧ InFile task.data.blk.id ∧
      (task.data.blk.curCount = 1 → task.data.blk.preFileId ≤ task.data.blk.fileId ∧
        ∀ r ∈ s.dropped task.data.blk.fileId, IsInsert r → r.blk.id ≠ task.data.blk.id)
  | removeFeed blk feed => IsInsert ⟨⟨-feed, 0, 0, 0, 0, 0⟩, blk⟩ → uint32 blk.userId = owner blk.id
  | handle i _ => ∀ task ∈ s.tasks[i]?, IsInsert task.data → s.node.turnsAway task.data = false →
      ∀ j < (s.node.recoveryLog task.data.blk.fileId).length,
        task.place = some ((s.dropped task.data.blk.fileId).length + j) →
        Removed (s.node.recoveryLog task.data.blk.fileId) j task.data ∨
          RoomAt s.node.disk (s.node.recoveryLog task.data.blk.fileId) j task.data
  | flush count => ∀ c ∈ s.cycle, (c.2 : ℤ) < blockCount →
      (s.node.dirtys c.1 c.2 count).length ≤ maxFlush ∧ s.Executed c.1 c.2 count ∧
      s.Roomy (s.node.flush c.1 c.2 count).disk c.1
  | deleteOldFile => ∀ c ∈ s.cycle, ∀ d ∈ s.node.log c.1, IsInsert d → d.blk.curCount = 1 →
      ∀ r ∈ s.node.logOld c.1, IsInsert r → r.blk.id ≠ d.blk.id
  | _ => True

section Decidable

variable (s : Store) (r : FeedItemBlockInfo)

instance (f : ℤ) (i : ℕ) : Decidable (s.Pending f i) := inferInstanceAs (Decidable (∃ _ ∈ _, _))

instance : Decidable (s.InMemory r) := inferInstanceAs (Decidable (_ ∧ _))

instance (log : List FeedItemBlockInfo) (i : ℕ) : Decidable (Removed log i r) :=
  inferInstanceAs (Decidable (∃ _ ∈ _, _))

instance (disk : BlockId → Block) (log : List FeedItemBlockInfo) (i : ℕ) :
    Decidable (RoomAt disk log i r) := inferInstanceAs (Decidable (_ ≤ _))

instance (disk : BlockId → Block) (f : ℤ) : Decidable (s.Roomy disk f) :=
  @Nat.decidableBallLT _ _ fun _ _ => Option.decidableForallMem _

instance (f : ℤ) (index count : ℕ) : Decidable (s.Executed f index count) :=
  @Nat.decidableBallLT _ _ fun _ _ => Option.decidableForallMem _

instance (owner : BlockId → UInt32) : (op : StoreOp) → Decidable (op.Safe owner s)
  | .log _ => by unfold StoreOp.Safe; infer_instance
  | .queue _ => .isTrue trivial
  | .removeFeed _ _ => by unfold StoreOp.Safe; infer_instance
  | .handle _ _ => by unfold StoreOp.Safe; infer_instance
  | .createNewFile _ => .isTrue trivial
  | .flush _ => by unfold StoreOp.Safe; infer_instance
  | .deleteOldFile => by unfold StoreOp.Safe; infer_instance

end Decidable

namespace Store

/-- The record went with `.log.old`, or will go with it and its block was flushed. -/
def Flushed (s : Store) (f : ℤ) (i : ℕ) (r : FeedItemBlockInfo) : Prop :=
  i < (s.dropped f).length ∨
  i < (s.dropped f).length + (s.node.logOld f).length ∧
    ∃ k : ℕ, s.cycle = some (f, k) ∧ r.blk.blockIndex < k

/-- The invariant of a store. -/
structure Inv (owner : BlockId → UInt32) (s : Store) : Prop where
  consistent : Consistent owner s.node
  ascending : s.node.files.Pairwise (· < ·)
  fileOf : ∀ f, ∀ d ∈ s.history f, d.blk.fileId = f
  inserts : ∀ f, ∀ d ∈ s.history f, IsInsert d → f ∈ s.node.files ∧
    uint32 d.blk.userId = owner d.blk.id ∧ InFile d.blk.id ∧
    (d.blk.curCount = 1 → d.blk.preFileId ≤ f)
  placed : ∀ t ∈ s.calling ++ s.tasks, ∀ i ∈ t.place,
    (s.history t.data.blk.fileId)[i]? = some t.data
  tasks : ∀ t ∈ s.calling ++ s.tasks, IsInsert t.data → uint32 t.data.blk.userId = owner t.data.blk.id
  old : ∀ f, s.node.logOld f ≠ [] → ∃ k, s.cycle = some (f, k)
  first : ∀ f, ∀ d ∈ s.node.recoveryLog f, IsInsert d → d.blk.curCount = 1 →
    ∀ r ∈ s.dropped f, IsInsert r → r.blk.id ≠ d.blk.id
  settled : ∀ f i r, (s.history f)[i]? = some r → IsInsert r →
    Removed (s.history f) i r ∨ s.Pending f i ∨ (f, i) ∈ s.full ∨ s.InMemory r
  saved : ∀ f i r, (s.history f)[i]? = some r → IsInsert r → s.Flushed f i r →
    Removed (s.history f) i r ∨ (f, i) ∈ s.full ∨
      s.InMemory r ∧ (s.node.disk r.blk.id).find r.item.feed ≠ none
  room : ∀ f, s.Roomy s.node.disk f

end Store

/-! ## Logs that grow and shrink -/

section Logs

variable {l l' : List FeedItemBlockInfo} {i : ℕ} {r : FeedItemBlockInfo}

theorem Removed.append (h : Removed l i r) (l' : List FeedItemBlockInfo) :
    Removed (l ++ l') i r := by
  obtain ⟨d, hd, hrem⟩ := h
  refine ⟨d, ?_, hrem⟩
  rw [List.drop_append]
  exact List.mem_append_left _ hd

/-- A record that comes later. -/
theorem Removed.of_mem {d : FeedItemBlockInfo} (hi : i < l.length) (hd : d ∈ l')
    (hrem : Removes r d) : Removed (l ++ l') i r := by
  refine ⟨d, ?_, hrem⟩
  rw [List.drop_append_of_le_length (by omega)]
  exact List.mem_append_right _ hd

/-- The records after one are the same when others come before. -/
theorem removed_append_left : Removed (l ++ l') (l.length + i) r ↔ Removed l' i r := by
  have hdrop : (l ++ l').drop (l.length + i + 1) = l'.drop (i + 1) := by
    rw [List.drop_append, List.drop_eq_nil_of_le (by omega), List.nil_append]
    congr 1
    omega
  unfold Removed
  rw [hdrop]

theorem RoomAt.mono {disk' : BlockId → Block} {i' : ℕ} (h : RoomAt disk l i r)
    (hsub : ∀ feed, feed ∈ feedsOf disk' (l'.take (i' + 1)) r.blk.id →
      feed ∈ feedsOf disk (l.take (i + 1)) r.blk.id) : RoomAt disk' l' i' r := by
  refine le_trans (List.Subperm.length_le ?_) h
  refine List.subperm_of_subset (List.nodup_dedup _) fun feed hfeed => ?_
  rw [List.mem_dedup] at hfeed ⊢
  exact hsub feed hfeed

/-- More records at the end do not matter. -/
theorem RoomAt.append (h : RoomAt disk l i r) (hi : i < l.length) (l' : List FeedItemBlockInfo) :
    RoomAt disk (l ++ l') i r := by
  refine h.mono fun feed hfeed => ?_
  rw [List.take_append_of_le_length (by omega)] at hfeed
  exact hfeed

/-- Fewer records at the beginning leave more room. -/
theorem RoomAt.of_append_left (h : RoomAt disk (l ++ l') (l.length + i) r) :
    RoomAt disk l' i r := by
  refine h.mono fun feed hfeed => ?_
  have htake : (l ++ l').take (l.length + i + 1) = l ++ l'.take (i + 1) := by
    rw [List.take_append, List.take_of_length_le (by omega)]
    congr 2
    omega
  rw [htake]
  unfold feedsOf at hfeed ⊢
  rw [List.filter_append, List.map_append]
  rcases List.mem_append.mp hfeed with hd | hl
  · exact List.mem_append_left _ hd
  · exact List.mem_append_right _ (List.mem_append_right _ hl)

end Logs

namespace Store

/-! ## Steps that append to the logs -/

variable {owner : BlockId → UInt32} {s s' : Store} {added : ℤ → List FeedItemBlockInfo}

/-- The records that are appended and what the step does beside: the node only grows, and
keeps what it has in memory unless one of the records says otherwise. -/
structure Appends (owner : BlockId → UInt32) (s s' : Store)
    (added : ℤ → List FeedItemBlockInfo) : Prop where
  dropped : s'.dropped = s.dropped
  cycle : s'.cycle = s.cycle
  logOld : s'.node.logOld = s.node.logOld
  log : ∀ f, s'.node.log f = s.node.log f ++ added f
  disk : s'.node.disk = s.node.disk
  files : s.node.files ⊆ s'.node.files
  full : s.full ⊆ s'.full
  kept : ∀ r, IsInsert r → uint32 r.blk.userId = owner r.blk.id → r.blk.fileId ∈ s.node.files →
    s.InMemory r → s'.InMemory r ∨ ∃ d ∈ added r.blk.fileId, Removes r d

theorem Appends.recoveryLog (h : Appends owner s s' added) (f : ℤ) :
    s'.node.recoveryLog f = s.node.recoveryLog f ++ added f := by
  unfold Node.recoveryLog
  rw [h.logOld, h.log, List.append_assoc]

theorem Appends.history (h : Appends owner s s' added) (f : ℤ) :
    s'.history f = s.history f ++ added f := by
  unfold Store.history
  rw [h.dropped, h.recoveryLog, List.append_assoc]

/-- **A step that appends to the logs keeps the invariant**, if what it appends is as the
invariant asks and what it executes is in memory afterwards and fits. -/
theorem Inv.appends (hinv : Inv owner s) (added : ℤ → List FeedItemBlockInfo)
    (h : Appends owner s s' added)
    (hconsistent : Consistent owner s'.node) (hascending : s'.node.files.Pairwise (· < ·))
    (hadded : ∀ f, ∀ d ∈ added f, d.blk.fileId = f ∧ (IsInsert d → f ∈ s'.node.files ∧
      uint32 d.blk.userId = owner d.blk.id ∧ InFile d.blk.id ∧
      (d.blk.curCount = 1 → d.blk.preFileId ≤ f ∧
        ∀ r ∈ s.dropped f, IsInsert r → r.blk.id ≠ d.blk.id)))
    (hwaits : ∀ f i r, (added f)[i]? = some r → IsInsert r → s'.Pending f ((s.history f).length + i))
    (hplaced : ∀ t ∈ s'.calling ++ s'.tasks, ∀ i ∈ t.place,
      (s'.history t.data.blk.fileId)[i]? = some t.data)
    (htasks : ∀ t ∈ s'.calling ++ s'.tasks, IsInsert t.data →
      uint32 t.data.blk.userId = owner t.data.blk.id)
    (hpending : ∀ f i r, (s.history f)[i]? = some r → IsInsert r → s.Pending f i →
      s'.Pending f i ∨ (f, i) ∈ s'.full ∨ s'.InMemory r ∧ ∀ j, i = (s.dropped f).length + j →
        Removed (s.node.recoveryLog f) j r ∨ RoomAt s.node.disk (s.node.recoveryLog f) j r) :
    Inv owner s' where
  consistent := hconsistent
  ascending := hascending
  fileOf f d hd := by
    rw [h.history] at hd
    exact (List.mem_append.mp hd).elim (hinv.fileOf f d) fun hd => (hadded f d hd).1
  inserts f d hd hins := by
    rw [h.history] at hd
    rcases List.mem_append.mp hd with hd | hd
    · obtain ⟨hfile, hrest⟩ := hinv.inserts f d hd hins
      exact ⟨h.files hfile, hrest⟩
    · obtain ⟨hfile, huser, hin, hpre⟩ := (hadded f d hd).2 hins
      exact ⟨hfile, huser, hin, fun h1 => (hpre h1).1⟩
  placed := hplaced
  tasks := htasks
  old f hold := by
    rw [h.logOld] at hold
    rw [h.cycle]
    exact hinv.old f hold
  first f d hd hins h1 := by
    rw [h.dropped]
    rw [h.recoveryLog] at hd
    rcases List.mem_append.mp hd with hd | hd
    · exact hinv.first f d hd hins h1
    · exact (((hadded f d hd).2 hins).2.2.2 h1).2
  settled f i r hr hins := by
    rw [h.history] at hr ⊢
    by_cases hi : i < (s.history f).length
    · rw [List.getElem?_append_left hi] at hr
      have hmem := List.mem_of_getElem? hr
      rcases hinv.settled f i r hr hins with hrem | hpend | hfull | hmemory
      · exact Or.inl (hrem.append _)
      · rcases hpending f i r hr hins hpend with hp | hf | hm
        · exact Or.inr (Or.inl hp)
        · exact Or.inr (Or.inr (Or.inl hf))
        · exact Or.inr (Or.inr (Or.inr hm.1))
      · exact Or.inr (Or.inr (Or.inl (h.full hfull)))
      · obtain ⟨hfile, huser, -, -⟩ := hinv.inserts f r hmem hins
        have hrf := hinv.fileOf f r hmem
        rcases h.kept r hins huser (hrf ▸ hfile) hmemory with hm | ⟨d, hd, hrem⟩
        · exact Or.inr (Or.inr (Or.inr hm))
        · rw [hrf] at hd
          exact Or.inl (.of_mem hi hd hrem)
    · rw [List.getElem?_append_right (by omega)] at hr
      have hwait := hwaits f _ r hr hins
      rw [Nat.add_sub_cancel' (by omega)] at hwait
      exact Or.inr (Or.inl hwait)
  saved f i r hr hins hflushed := by
    have hi : i < (s.history f).length := by
      unfold Store.Flushed at hflushed
      rw [h.dropped, h.logOld] at hflushed
      unfold Store.history Node.recoveryLog
      simp only [List.length_append]
      omega
    rw [h.history, List.getElem?_append_left hi] at hr
    rw [h.history]
    have hmem := List.mem_of_getElem? hr
    have hflushed' : s.Flushed f i r := by
      unfold Store.Flushed at hflushed ⊢
      rwa [h.dropped, h.logOld, h.cycle] at hflushed
    rcases hinv.saved f i r hr hins hflushed' with hrem | hfull | ⟨hmemory, hdisk⟩
    · exact Or.inl (hrem.append _)
    · exact Or.inr (Or.inl (h.full hfull))
    · obtain ⟨hfile, huser, -, -⟩ := hinv.inserts f r hmem hins
      have hrf := hinv.fileOf f r hmem
      rcases h.kept r hins huser (hrf ▸ hfile) hmemory with hm | ⟨d, hd, hrem⟩
      · exact Or.inr (Or.inr ⟨hm, by rw [h.disk]; exact hdisk⟩)
      · rw [hrf] at hd
        exact Or.inl (.of_mem hi hd hrem)
  room f i hi r hr hins hpend hfull := by
    rw [h.recoveryLog] at hr ⊢
    rw [h.dropped] at hpend hfull
    by_cases hold : i < (s.node.recoveryLog f).length
    · rw [Option.mem_def, List.getElem?_append_left hold] at hr
      have hplace : (s.history f)[(s.dropped f).length + i]? = some r := by
        unfold Store.history
        rw [List.getElem?_append_right (by omega), Nat.add_sub_cancel_left]
        exact hr
      rw [h.disk]
      by_cases hp : s.Pending f ((s.dropped f).length + i)
      · rcases hpending f _ r hplace hins hp with hp' | hf | ⟨-, hroom⟩
        · exact absurd hp' hpend
        · exact absurd hf hfull
        · exact (hroom i rfl).imp (fun hrem => hrem.append _) fun ha => ha.append hold _
      · exact (hinv.room f i hold r hr hins hp fun hf => hfull (h.full hf)).imp
          (fun hrem => hrem.append _) fun ha => ha.append hold _
    · rw [Option.mem_def, List.getElem?_append_right (by omega)] at hr
      have hwait := hwaits f _ r hr hins
      have hplace : (s.history f).length + (i - (s.node.recoveryLog f).length) =
          (s.dropped f).length + i := by
        unfold Store.history
        rw [List.length_append]
        omega
      rw [hplace] at hwait
      exact absurd hwait hpend

/-- What is at a place stays there when records are appended. -/
theorem Inv.placed_append (hinv : Inv owner s) (h : ∀ f, s'.history f = s.history f ++ added f)
    {t : WaitingTask} (ht : t ∈ s.calling ++ s.tasks) (hi : i ∈ t.place) :
    (s'.history t.data.blk.fileId)[i]? = some t.data := by
  have hold := hinv.placed t ht i hi
  rw [h, List.getElem?_append_left (List.getElem?_eq_some_iff.mp hold).1]
  exact hold

/-- A call of `asyncPut` logs its record. -/
theorem Inv.log (hinv : Inv owner s) {task : PutTask} (hsafe : (StoreOp.log task).Safe owner s) :
    Inv owner ((StoreOp.log task).step s) := by
  dsimp only [StoreOp.step]
  have hmem : ∀ t, t ∈ (s.calling ++ [⟨task, s.nextPlace task.data.blk.fileId⟩]) ++ s.tasks ↔
      t ∈ s.calling ++ s.tasks ∨ t = ⟨task, s.nextPlace task.data.blk.fileId⟩ := by
    intro t
    simp only [List.mem_append, List.mem_singleton]
    tauto
  have htasks : ∀ t ∈ (s.calling ++ [⟨task, s.nextPlace task.data.blk.fileId⟩]) ++ s.tasks,
      IsInsert t.data → uint32 t.data.blk.userId = owner t.data.blk.id := by
    intro t ht hins
    rcases (hmem t).mp ht with ht | rfl
    · exact hinv.tasks t ht hins
    · exact (hsafe hins).1
  have hpending : ∀ f i, s.Pending f i →
      ∃ t ∈ (s.calling ++ [⟨task, s.nextPlace task.data.blk.fileId⟩]) ++ s.tasks,
        t.data.blk.fileId = f ∧ t.place = some i := by
    rintro f i ⟨t, ht, hplace⟩
    exact ⟨t, (hmem t).mpr (.inl ht), hplace⟩
  rcases Grows.logTo_cases s.node task.data with ⟨hnone, he⟩ | ⟨files, hfiles, he⟩
  · have hplace : s.nextPlace task.data.blk.fileId = none := by
      unfold Store.nextPlace Node.locateDataFile
      rw [hnone]
      rfl
    rw [he]
    refine hinv.appends (fun _ => []) ⟨rfl, rfl, rfl, fun f => (List.append_nil _).symm, rfl,
      List.Subset.refl _, List.Subset.refl _, fun r _ _ _ hm => Or.inl hm⟩ hinv.consistent
      hinv.ascending (fun f d hd => absurd hd List.not_mem_nil) (fun f i r hr => by cases hr)
      (fun t ht i hi => ?_) htasks fun f i r _ _ hp => Or.inl (hpending f i hp)
    rcases (hmem t).mp ht with ht | rfl
    · exact hinv.placed t ht i hi
    · rw [hplace] at hi
      cases hi
  · have hplace : s.nextPlace task.data.blk.fileId =
        some (s.history task.data.blk.fileId).length := by
      unfold Store.nextPlace Node.locateDataFile
      rw [hfiles]
      rfl
    rw [he]
    have happends : Appends owner s
        { s with
          node := { s.node with
            files := files
            log := update s.node.log task.data.blk.fileId
              (s.node.log task.data.blk.fileId ++ [task.data]) }
          calling := s.calling ++ [⟨task, s.nextPlace task.data.blk.fileId⟩] }
        (fun f => if f = task.data.blk.fileId then [task.data] else []) := by
      refine ⟨rfl, rfl, rfl, fun f => ?_, rfl, (locateFile_subset hfiles).1, List.Subset.refl _,
        fun r _ _ _ hm => Or.inl hm⟩
      by_cases hf : f = task.data.blk.fileId
      · subst hf
        simp
      · simp [hf]
    refine hinv.appends _ happends
      ⟨hinv.consistent.cached, hinv.consistent.disk, hinv.consistent.clean,
        hinv.consistent.dirtyCached⟩
      (locateFile_ascending hfiles hinv.ascending) (fun f d hd => ?_) (fun f i r hr hins => ?_)
      (fun t ht i hi => ?_) htasks fun f i r _ _ hp => Or.inl (hpending f i hp)
    · split at hd
      · rename_i hf
        subst hf
        rw [List.mem_singleton.mp hd]
        refine ⟨rfl, fun hins => ?_⟩
        obtain ⟨huser, hin, hpre⟩ := hsafe hins
        exact ⟨(locateFile_subset hfiles).2, huser, hin, hpre⟩
      · cases hd
    · split at hr
      · rename_i hf
        subst hf
        obtain ⟨hi, -⟩ := List.getElem?_eq_some_iff.mp hr
        rw [List.length_singleton] at hi
        obtain rfl : i = 0 := by omega
        exact ⟨_, (hmem _).mpr (.inr rfl), rfl, hplace⟩
      · cases hr
    · rcases (hmem t).mp ht with ht | rfl
      · exact hinv.placed_append happends.history ht hi
      · rw [hplace] at hi
        cases hi
        rw [happends.history, List.getElem?_append_right (le_refl _), Nat.sub_self, if_pos rfl]
        rfl

/-- A step of the tasks alone. -/
theorem Inv.retask (hinv : Inv owner s) {calling tasks : List WaitingTask}
    (htasks : ∀ t ∈ calling ++ tasks, IsInsert t.data →
      uint32 t.data.blk.userId = owner t.data.blk.id)
    (hplaced : ∀ t ∈ calling ++ tasks, t.place = none ∨ t ∈ s.calling ++ s.tasks)
    (hpending : ∀ t ∈ s.calling ++ s.tasks, t ∈ calling ++ tasks) :
    Inv owner { s with calling := calling, tasks := tasks } := by
  refine hinv.appends (fun _ => []) ⟨rfl, rfl, rfl, fun _ => (List.append_nil _).symm, rfl,
    List.Subset.refl _, List.Subset.refl _, fun _ _ _ _ hm => Or.inl hm⟩ hinv.consistent
    hinv.ascending (fun _ _ hd => absurd hd List.not_mem_nil) (fun _ _ _ hr => by cases hr)
    (fun t ht i hi => ?_) htasks ?_
  · rcases hplaced t ht with hnone | hold
    · rw [hnone] at hi
      cases hi
    · exact hinv.placed t hold i hi
  · rintro f i r - - ⟨t, ht, hplace⟩
    exact Or.inl ⟨t, hpending t ht, hplace⟩

theorem Inv.queue (hinv : Inv owner s) (i : ℕ) : Inv owner ((StoreOp.queue i).step s) := by
  dsimp only [StoreOp.step]
  split
  · exact hinv
  · rename_i task htask
    have hmem : ∀ t, t ∈ s.calling.eraseIdx i ++ (s.tasks ++ [task]) ↔ t ∈ s.calling ++ s.tasks := by
      obtain ⟨hi, rfl⟩ := List.getElem?_eq_some_iff.mp htask
      intro t
      have hperm := (List.getElem_cons_eraseIdx_perm hi).mem_iff (a := t)
      simp only [List.mem_append, List.mem_cons, List.not_mem_nil, or_false] at hperm ⊢
      rw [← hperm]
      tauto
    exact hinv.retask (fun t ht => hinv.tasks t ((hmem t).mp ht)) (fun t ht => .inr ((hmem t).mp ht))
      fun t ht => (hmem t).mpr ht

/-- A logged removal. -/
theorem Inv.removeFeed (hinv : Inv owner s) {blk : BlockInfo} {feed : ℤ}
    (hsafe : (StoreOp.removeFeed blk feed).Safe owner s) :
    Inv owner ((StoreOp.removeFeed blk feed).step s) := by
  refine hinv.retask (fun t ht hins => ?_) (fun t ht => ?_) fun t ht => ?_
  · simp only [List.mem_append, List.mem_singleton] at ht
    rcases ht with ht | ht | rfl
    · exact hinv.tasks t (List.mem_append_left _ ht) hins
    · exact hinv.tasks t (List.mem_append_right _ ht) hins
    · exact hsafe hins
  · simp only [List.mem_append, List.mem_singleton] at ht ⊢
    rcases ht with ht | ht | rfl
    · exact .inr (.inl ht)
    · exact .inr (.inr ht)
    · exact .inl rfl
  · rw [← List.append_assoc]
    exact List.mem_append_left _ ht

/-- A thread executes a task. -/
theorem Inv.handle (hown : ∀ id, owner id ≠ 0) (hinv : Inv owner s) {fuel : ℕ}
    (hsafe : (StoreOp.handle i fuel).Safe owner s) : Inv owner ((StoreOp.handle i fuel).step s) := by
  dsimp only [StoreOp.step]
  split
  · exact hinv
  · rename_i task htask
    have htaskIn : task ∈ s.calling ++ s.tasks :=
      List.mem_append_right _ (List.mem_of_getElem? htask)
    obtain ⟨added, hgrows, hkept⟩ :=
      Grows.handleTask hown hinv.consistent task.data task.overwrite fuel
    have hrest : ∀ t ∈ s.calling ++ s.tasks, t ∈ s.calling ++ s.tasks.eraseIdx i ∨ t = task := by
      obtain ⟨hi, rfl⟩ := List.getElem?_eq_some_iff.mp htask
      intro t ht
      have hperm := (List.getElem_cons_eraseIdx_perm hi).mem_iff (a := t)
      simp only [List.mem_append, List.mem_cons] at hperm ht ⊢
      rw [← hperm] at ht
      tauto
    have hmem : ∀ t ∈ s.calling ++ s.tasks.eraseIdx i, t ∈ s.calling ++ s.tasks := by
      intro t ht
      rcases List.mem_append.mp ht with ht | ht
      · exact List.mem_append_left _ ht
      · exact List.mem_append_right _ (List.mem_of_mem_eraseIdx ht)
    have happends : Appends owner s
        { s with
          node := s.node.handleTask task.data task.overwrite fuel
          tasks := s.tasks.eraseIdx i
          full :=
            if s.node.turnsAway task.data then
              task.place.toList.map (fun i => (task.data.blk.fileId, i)) ++ s.full
            else s.full } added := by
      refine ⟨rfl, rfl, hgrows.logOld, hgrows.log, hgrows.disk, hgrows.files, ?_,
        fun r hins huser hfile hm => ?_⟩
      · dsimp only
        split
        · exact List.subset_append_right _ _
        · exact List.Subset.refl _
      · rcases hkept r huser hfile hm.1 hm.2 with hfind | hrem
        · exact Or.inl ⟨hgrows.cached _ hm.1, hfind⟩
        · exact Or.inr hrem
    refine hinv.appends added happends
      (hinv.consistent.handleTask hown fun hins => hinv.tasks task htaskIn hins)
      (hgrows.ascending hinv.ascending) (fun f d hd => ?_) (fun f j r hr hins => ?_)
      (fun t ht j hj => hinv.placed_append happends.history (hmem t ht) hj)
      (fun t ht hins => hinv.tasks t (hmem t ht) hins) fun f j r hr hins hpend => ?_
    · exact ⟨(hgrows.added f d hd).1, fun hins => absurd hins (hgrows.added f d hd).2⟩
    · exact absurd hins (hgrows.added f r (List.mem_of_getElem? hr)).2
    · obtain ⟨t, ht, rfl, hplace⟩ := hpend
      rcases hrest t ht with ht' | rfl
      · exact Or.inl ⟨t, ht', rfl, hplace⟩
      right
      -- the record at the place is that of the task
      obtain rfl : r = t.data := by
        have hdata := hinv.placed t ht j hplace
        rw [hr] at hdata
        exact Option.some.inj hdata
      obtain ⟨hfile, huser, hin, -⟩ := hinv.inserts _ _ (List.mem_of_getElem? hr) hins
      cases haway : s.node.turnsAway t.data with
      | true =>
          left
          simp [hplace]
      | false =>
          right
          have hput : s.node.handleTask t.data t.overwrite fuel = s.node.put t.data t.overwrite :=
            if_neg (by have h0 := hins.1; omega)
          refine ⟨?_, fun k hk => ?_⟩
          · show ((s.node.handleTask t.data t.overwrite fuel).cache _).isSome ∧
              ((s.node.handleTask t.data t.overwrite fuel).view _).find _ ≠ none
            rw [hput]
            exact hinv.consistent.put_takes hown hins huser hfile hin haway _
          · subst hk
            have hlt : k < (s.node.recoveryLog t.data.blk.fileId).length := by
              have hi := (List.getElem?_eq_some_iff.mp hr).1
              unfold Store.history at hi
              rw [List.length_append] at hi
              omega
            exact hsafe t htask hins haway k hlt hplace

/-! ## The flush cycle -/

/-- The log is renamed: the cycle of the file begins, and the logs hold what they held. -/
theorem Inv.createNewFile (hinv : Inv owner s) (fileId : ℤ) :
    Inv owner ((StoreOp.createNewFile fileId).step s) := by
  dsimp only [StoreOp.step]
  split
  swap
  · exact hinv
  rename_i hcond
  have hold : ∀ f, s.node.logOld f = [] := by
    intro f
    by_contra hne
    obtain ⟨k, hk⟩ := hinv.old f hne
    rw [hcond.1] at hk
    cases hk
  have hlog : (s.node.createNewFile fileId).recoveryLog = s.node.recoveryLog := by
    funext f
    unfold Node.createNewFile Node.recoveryLog
    by_cases hf : f = fileId
    · subst hf
      simp [hold f]
    · simp [hf]
  have hhistory : ∀ f, s.dropped f ++ (s.node.createNewFile fileId).recoveryLog f = s.history f := by
    intro f
    rw [hlog]
    rfl
  refine ⟨⟨hinv.consistent.cached, hinv.consistent.disk, hinv.consistent.clean,
    hinv.consistent.dirtyCached⟩, hinv.ascending, fun f => ?_, fun f => ?_, fun t ht i hi => ?_,
    hinv.tasks, fun f hne => ?_, fun f => ?_, fun f => ?_, fun f => ?_, fun f => ?_⟩
  · unfold Store.history
    rw [hhistory]
    exact hinv.fileOf f
  · unfold Store.history
    rw [hhistory]
    exact hinv.inserts f
  · unfold Store.history
    rw [hhistory]
    exact hinv.placed t ht i hi
  · by_cases hf : f = fileId
    · exact ⟨0, by rw [hf]⟩
    · refine absurd ?_ hne
      simp [Node.createNewFile, update_of_ne hf, hold f]
  · rw [hlog]
    exact hinv.first f
  · unfold Store.history
    rw [hhistory]
    exact hinv.settled f
  · unfold Store.history
    rw [hhistory]
    intro i r hr hins hflushed
    refine hinv.saved f i r hr hins (Or.inl ?_)
    rcases hflushed with hi | ⟨-, k, hk, hlt⟩
    · exact hi
    · -- no block has a negative index
      have hzero := (hinv.inserts f r (List.mem_of_getElem? hr) hins).2.2.1.1
      simp only [Option.some.injEq, Prod.mk.injEq] at hk
      have hindex : (0 : ℤ) ≤ r.blk.blockIndex := hzero
      omega
  · unfold Store.Roomy
    simp only [hlog]
    exact hinv.room f

/-- What is in memory is on disk when its range was written. -/
theorem Inv.onDisk_flush (hown : ∀ id, owner id ≠ 0) (hinv : Inv owner s) {g : ℤ}
    (hlen : (s.node.dirtys g index count).length ≤ maxFlush) {r : FeedItemBlockInfo}
    (hmemory : s.InMemory r)
    (hor : (s.node.disk r.blk.id).find r.item.feed ≠ none ∨ InFile r.blk.id ∧ r.blk.fileId = g ∧
      (index : ℤ) ≤ r.blk.blockIndex ∧ r.blk.blockIndex < index + count) :
    ((s.node.flush g index count).disk r.blk.id).find r.item.feed ≠ none := by
  obtain ⟨hwritten, hrest⟩ := disk_flush (n := s.node) hlen
  obtain ⟨hcached, hfind⟩ := hmemory
  by_cases hid : r.blk.id ∈ s.node.dirtys g index count
  · rw [hwritten _ hid]
    exact hfind
  · rw [hrest _ hid]
    rcases hor with hd | ⟨hin, hfile, hlow, hhigh⟩
    · exact hd
    · have hclean : s.node.dirty r.blk.id = false := by
        by_contra hd
        refine hid (mem_dirtys_iff.mpr ⟨hfile, hlow, hhigh, hin.2, by simpa using hd, hcached⟩)
      rw [Block.find, ← hinv.consistent.items_of_clean hown hclean]
      exact hfind

/-- A range of blocks is written. -/
theorem Inv.flush (hown : ∀ id, owner id ≠ 0) (hinv : Inv owner s)
    (hsafe : (StoreOp.flush count).Safe owner s) : Inv owner ((StoreOp.flush count).step s) := by
  dsimp only [StoreOp.step]
  cases hc : s.cycle with
  | none => exact hinv
  | some c =>
      obtain ⟨g, index⟩ := c
      dsimp only
      by_cases hindex : (index : ℤ) < blockCount
      swap
      · rw [if_neg hindex]
        exact hinv
      rw [if_pos hindex]
      obtain ⟨hlen, hexecuted, hroomy⟩ := hsafe (g, index) hc hindex
      have hview := view_flush s.node g index count
      have hdisk := disk_flush (n := s.node) hlen
      refine ⟨hinv.consistent.flush hlen, hinv.ascending, hinv.fileOf, hinv.inserts, hinv.placed, hinv.tasks,
        fun f hne => ?_, hinv.first, fun f i r hr hins => ?_, fun f i r hr hins hflushed => ?_,
        fun f => ?_⟩
      · obtain ⟨k, hk⟩ := hinv.old f hne
        rw [hc] at hk
        simp only [Option.some.injEq, Prod.mk.injEq] at hk
        exact ⟨index + count, by rw [hk.1]⟩
      · rcases hinv.settled f i r hr hins with hrem | hpend | hfull | hm
        · exact Or.inl hrem
        · exact Or.inr (Or.inl hpend)
        · exact Or.inr (Or.inr (Or.inl hfull))
        · exact Or.inr (Or.inr (Or.inr ⟨hm.1, hview ▸ hm.2⟩))
      · have hmemory : ∀ hm : s.InMemory r, ((s.node.disk r.blk.id).find r.item.feed ≠ none ∨
            InFile r.blk.id ∧ r.blk.fileId = g ∧ (index : ℤ) ≤ r.blk.blockIndex ∧
              r.blk.blockIndex < index + count) → _ :=
          fun hm hor => (⟨⟨hm.1, hview ▸ hm.2⟩, hinv.onDisk_flush hown hlen hm hor⟩ :
            ((s.node.cache r.blk.id).isSome ∧
              ((s.node.flush g index count).view r.blk.id).find r.item.feed ≠ none) ∧
            ((s.node.flush g index count).disk r.blk.id).find r.item.feed ≠ none)
        by_cases hbefore : s.Flushed f i r
        · rcases hinv.saved f i r hr hins hbefore with hrem | hfull | ⟨hm, hd⟩
          · exact Or.inl hrem
          · exact Or.inr (Or.inl hfull)
          · exact Or.inr (Or.inr (hmemory hm (Or.inl hd)))
        · -- the record is of this range
          rcases hflushed with hi | ⟨hi, k, hk, hlt⟩
          · exact absurd (Or.inl hi) hbefore
          simp only [Option.some.injEq, Prod.mk.injEq] at hk
          obtain ⟨rfl, rfl⟩ := hk
          have hdropped : (s.dropped g).length ≤ i := by
            by_contra hlt'
            exact hbefore (Or.inl (by omega))
          have hlow : (index : ℤ) ≤ r.blk.blockIndex := by
            by_contra hlt'
            exact hbefore (Or.inr ⟨hi, index, hc, by omega⟩)
          have hhigh : r.blk.blockIndex < index + count := by
            push_cast at hlt
            exact hlt
          obtain ⟨j, rfl⟩ : ∃ j, i = (s.dropped g).length + j := ⟨i - (s.dropped g).length, by omega⟩
          have hj : j < (s.node.logOld g).length := by
            have hi' : (s.dropped g).length + j < (s.dropped g).length + (s.node.logOld g).length := hi
            omega
          have hmem := List.mem_of_getElem? hr
          have hold : (s.node.logOld g)[j]? = some r := by
            have hr' : (s.history g)[(s.dropped g).length + j]? = some r := hr
            unfold Store.history Node.recoveryLog at hr'
            rw [List.getElem?_append_right (by omega), Nat.add_sub_cancel_left,
              List.getElem?_append_left hj] at hr'
            exact hr'
          have hin := (hinv.inserts g r hmem hins).2.2.1
          have hrange : InFile r.blk.id ∧ r.blk.fileId = g ∧ (index : ℤ) ≤ r.blk.blockIndex ∧
              r.blk.blockIndex < index + count := ⟨hin, hinv.fileOf g r hmem, hlow, hhigh⟩
          rcases hinv.settled g _ r hr hins with hrem | hpend | hfull | hm
          · exact Or.inl hrem
          · rcases hexecuted j hj r hold hins hlow hhigh hpend with hrem | hm
            · exact Or.inl (removed_append_left.mpr hrem)
            · exact Or.inr (Or.inr (hmemory hm (Or.inr hrange)))
          · exact Or.inr (Or.inl hfull)
          · exact Or.inr (Or.inr (hmemory hm (Or.inr hrange)))
      · by_cases hf : f = g
        · subst hf
          exact hroomy
        · intro i hi r hr hins hpend hfull
          refine (hinv.room f i hi r hr hins hpend hfull).imp_right fun hroom => ?_
          have hfile := hinv.fileOf f r (List.mem_append_right _ (List.mem_of_getElem? hr))
          refine hroom.mono fun feed hfeed => ?_
          unfold feedsOf at hfeed ⊢
          rw [hdisk.2 r.blk.id fun hid => hf (hfile.symm.trans (mem_dirtys_iff.mp hid).1)] at hfeed
          exact hfeed

/-- The cycle ends and `.log.old` is deleted: its items are on disk. -/
theorem Inv.deleteOldFile (hinv : Inv owner s) (hsafe : StoreOp.deleteOldFile.Safe owner s) :
    Inv owner (StoreOp.deleteOldFile.step s) := by
  dsimp only [StoreOp.step]
  cases hc : s.cycle with
  | none => exact hinv
  | some c =>
      obtain ⟨g, index⟩ := c
      dsimp only
      by_cases hindex : (index : ℤ) < blockCount
      · rw [if_pos hindex]
        exact hinv
      rw [if_neg hindex]
      have hother : ∀ f, f ≠ g → s.node.logOld f = [] := by
        intro f hf
        by_contra hne
        obtain ⟨k, hk⟩ := hinv.old f hne
        rw [hc] at hk
        simp only [Option.some.injEq, Prod.mk.injEq] at hk
        exact hf hk.1.symm
      have hlog : ∀ f, (s.node.deleteOldFile g).recoveryLog f = s.node.log f := by
        intro f
        unfold Node.deleteOldFile Node.recoveryLog
        by_cases hf : f = g
        · subst hf
          simp
        · simp [hf, hother f hf]
      have hdropped : ∀ f, update s.dropped g (s.dropped g ++ s.node.logOld g) f =
          s.dropped f ++ s.node.logOld f := by
        intro f
        by_cases hf : f = g
        · subst hf
          simp
        · simp [hf, hother f hf]
      have hhistory : ∀ f, update s.dropped g (s.dropped g ++ s.node.logOld g) f ++
          (s.node.deleteOldFile g).recoveryLog f = s.history f := by
        intro f
        rw [hlog, hdropped, List.append_assoc]
        rfl
      refine ⟨⟨hinv.consistent.cached, hinv.consistent.disk, hinv.consistent.clean,
        hinv.consistent.dirtyCached⟩, hinv.ascending, fun f => ?_, fun f => ?_, fun t ht i hi => ?_,
        hinv.tasks, fun f hne => ?_, fun f d hd hins h1 r hr hins' => ?_, fun f => ?_,
        fun f i r hr hins hflushed => ?_, fun f i hi r hr hins hpend hfull => ?_⟩
      · unfold Store.history
        rw [hhistory]
        exact hinv.fileOf f
      · unfold Store.history
        rw [hhistory]
        exact hinv.inserts f
      · unfold Store.history
        rw [hhistory]
        exact hinv.placed t ht i hi
      · refine absurd ?_ hne
        by_cases hf : f = g
        · subst hf
          simp [Node.deleteOldFile]
        · simp [Node.deleteOldFile, hf, hother f hf]
      · rw [hlog] at hd
        have hr' : r ∈ s.dropped f ++ s.node.logOld f := by
          rw [← hdropped]
          exact hr
        rcases List.mem_append.mp hr' with hr' | hr'
        · exact hinv.first f d (List.mem_append_right _ hd) hins h1 r hr' hins'
        · by_cases hf : f = g
          · subst hf
            exact hsafe (f, index) hc d hd hins h1 r hr' hins'
          · rw [hother f hf] at hr'
            exact absurd hr' List.not_mem_nil
      · unfold Store.history
        rw [hhistory]
        exact hinv.settled f
      · unfold Store.history at hr ⊢
        rw [hhistory] at hr ⊢
        refine hinv.saved f i r hr hins ?_
        rcases hflushed with hi | ⟨-, k, hk, -⟩
        · dsimp only at hi
          rw [hdropped, List.length_append] at hi
          by_cases hf : f = g
          · subst hf
            have hin := (hinv.inserts f r (List.mem_of_getElem? hr) hins).2.2.1.2
            have hlt : r.blk.blockIndex < blockCount := hin
            exact Or.inr ⟨hi, index, hc, by omega⟩
          · rw [hother f hf] at hi
            exact Or.inl hi
        · cases hk
      · rw [hlog] at hi hr ⊢
        dsimp only at hpend hfull
        rw [hdropped, List.length_append, Nat.add_assoc] at hpend hfull
        have hroom := hinv.room f ((s.node.logOld f).length + i)
          (by unfold Node.recoveryLog; rw [List.length_append]; omega) r
          (by
            unfold Node.recoveryLog
            rw [Option.mem_def, List.getElem?_append_right (by omega), Nat.add_sub_cancel_left]
            exact hr) hins hpend hfull
        exact hroom.imp (fun hrem => removed_append_left.mp hrem) fun ha => ha.of_append_left

/-! ## Whole runs -/

/-- **The step lemma.** -/
theorem Inv.step (hown : ∀ id, owner id ≠ 0) (hinv : Inv owner s) {op : StoreOp}
    (hsafe : op.Safe owner s) : Inv owner (op.step s) := by
  cases op with
  | log task => exact hinv.log hsafe
  | queue i => exact hinv.queue i
  | removeFeed blk feed => exact hinv.removeFeed hsafe
  | handle i fuel => exact hinv.handle hown hsafe
  | createNewFile fileId => exact hinv.createNewFile fileId
  | flush count => exact hinv.flush hown hsafe
  | deleteOldFile => exact hinv.deleteOldFile hsafe

/-- At the start nothing is logged. -/
theorem Inv.start {files : List ℤ} (hfiles : files.Pairwise (· < ·))
    (hdisk : ∀ id, OwnBlock (owner id) (disk id)) : Inv owner (Store.start files disk) := by
  have hnone : ∀ (f : ℤ) (i : ℕ) (r : FeedItemBlockInfo),
      ((Store.start files disk).history f)[i]? ≠ some r := by
    intro f i r hr
    cases hr
  refine ⟨⟨fun _ _ hb => ?_, hdisk, fun _ _ hb => ?_, fun _ hd => ?_⟩, hfiles,
    fun f d hd => absurd hd List.not_mem_nil, fun f d hd => absurd hd List.not_mem_nil,
    fun t ht => absurd ht List.not_mem_nil, fun t ht => absurd ht List.not_mem_nil,
    fun f hne => absurd rfl hne,
    fun f d hd => absurd hd List.not_mem_nil, fun f i r hr => absurd hr (hnone f i r),
    fun f i r hr => absurd hr (hnone f i r), fun f i hi => absurd hi (Nat.not_lt_zero i)⟩
  · cases hb
  · cases hb
  · cases hd

/-- **What the invariant is for.** -/
theorem Inv.durable (hown : ∀ id, owner id ≠ 0) (hinv : Inv owner s)
    (preload : ℤ → List BlockId) : s.Durable preload := by
  have hreplay : Replayable owner s.node := ⟨hinv.consistent.disk, hinv.ascending,
    fun f d hd => hinv.fileOf f d (List.mem_append_right _ hd),
    fun f d hd hins => (hinv.inserts f d (List.mem_append_right _ hd) hins).2⟩
  intro f i r hr hins
  have hmem := List.mem_of_getElem? hr
  obtain ⟨hfile, huser, -, -⟩ := hinv.inserts f r hmem hins
  obtain rfl := hinv.fileOf f r hmem
  by_cases hrem : Removed (s.history r.blk.fileId) i r
  · exact Or.inr (Or.inl hrem)
  by_cases hfull : (r.blk.fileId, i) ∈ s.full
  · exact Or.inr (Or.inr (Or.inl hfull))
  by_cases hi : i < (s.dropped r.blk.fileId).length
  · left
    rcases hinv.saved _ i r hr hins (Or.inl hi) with h | h | ⟨-, hdisk⟩
    · exact absurd h hrem
    · exact absurd h hfull
    · refine hreplay.saved hown preload hfile huser hdisk (fun d hd hd' => hrem ?_)
        fun d hd hdins h1 he => ?_
      · exact .of_mem hi hd hd'
      · unfold Store.history at hr
        rw [List.getElem?_append_left hi] at hr
        exact hinv.first _ d hd hdins h1 r (List.mem_of_getElem? hr) hins he.symm
  · obtain ⟨j, rfl⟩ : ∃ j, i = (s.dropped r.blk.fileId).length + j :=
      ⟨i - (s.dropped r.blk.fileId).length, by omega⟩
    have hr' : (s.node.recoveryLog r.blk.fileId)[j]? = some r := by
      unfold Store.history at hr
      rwa [List.getElem?_append_right (by omega), Nat.add_sub_cancel_left] at hr
    have hrem' : ¬ Removed (s.node.recoveryLog r.blk.fileId) j r := fun h =>
      hrem (removed_append_left.mpr h)
    by_cases hpend : s.Pending r.blk.fileId ((s.dropped r.blk.fileId).length + j)
    · cases haway : (s.node.recoverUpTo preload r.blk.fileId j).turnsAway r with
      | true => exact Or.inr (Or.inr (Or.inr ⟨hpend, j, rfl, haway⟩))
      | false => exact Or.inl (hreplay.replayed hown preload hfile hr' hins hrem' haway)
    · left
      have hroom := (hinv.room r.blk.fileId j (List.getElem?_eq_some_iff.mp hr').1 r hr' hins hpend
        hfull).resolve_left hrem'
      exact hreplay.replayed hown preload hfile hr' hins hrem'
        (hreplay.not_turnsAway hown preload hfile hr' hins hroom)

end Store

/-- Feed 5 of user 7, the first record of block 0 of file 1. -/
def firstRecord : FeedItemBlockInfo := ⟨⟨5, 0, 0, 0, 0, 0⟩, ⟨0, 7, 1, 1, 1, 0, 0, -1, 0⟩⟩

/-- Blocks that are not dirty need not be gone through. -/
theorem dirtys_add (h : ∀ id : BlockId, (index + count : ℕ) ≤ id.blockIndex → n.dirty id = false) :
    n.dirtys f index (count + more) = n.dirtys f index count := by
  unfold Node.dirtys
  rw [List.range_add, List.map_append, List.filter_append]
  refine (congrArg _ (List.filter_eq_nil_iff.mpr fun id hid hcond => ?_)).trans (List.append_nil _)
  obtain ⟨i, hi, rfl⟩ := List.mem_map.mp hid
  obtain ⟨j, -, rfl⟩ := List.mem_map.mp hi
  have hclean := h ⟨f, (index + (count + j) : ℕ)⟩ (by simp only; omega)
  rw [decide_eq_true_eq, hclean] at hcond
  exact absurd hcond.2.1 (by decide)

theorem flush_add (h : ∀ id : BlockId, (index + count : ℕ) ≤ id.blockIndex → n.dirty id = false) :
    n.flush f index (count + more) = n.flush f index count := by
  unfold Node.flush
  rw [dirtys_add h]

/-- Two records of a block whose tasks are executed before the cycle reaches it, the second
one when the log was renamed. -/
def executedInTime : List StoreOp :=
  [.log ⟨firstRecord, false⟩, .queue 0,
    .log ⟨⟨⟨6, 0, 0, 0, 0, 0⟩, ⟨0, 7, 2, 2, 1, 0, 0, -1, 0⟩⟩, false⟩, .queue 0,
    .handle 0 1, .createNewFile 1, .handle 0 1]

/-- When nothing is in memory a flush only moves on. -/
theorem flush_step_of_not_cached {s : Store} (h : ∀ id, s.node.cache id = none)
    (hc : s.cycle = some (f, index)) (hlt : (index : ℤ) < blockCount) (count : ℕ) :
    (StoreOp.flush count).step s = { s with cycle := some (f, index + count) } := by
  dsimp only [StoreOp.step]
  rw [hc]
  dsimp only
  rw [if_pos hlt, flush_of_not_cached h]

/-- A record whose task waits while the log is renamed, every block is flushed and
`.log.old` is deleted. -/
def taskWaits : List StoreOp :=
  [.log ⟨firstRecord, false⟩, .queue 0, .createNewFile 1, .flush 2000000, .deleteOldFile]

end Oce.FeedDB
