import Oce.FeedDB.Model.Node
import Oce.FeedDB.Analysis.Modify
import Oce.FeedDB.Analysis.RestoreSteps

/-!
# Recovery from the shared buffer and recovery from disk

`Restore(buf)` puts the blocks a log names in memory before it replays the log, each as the
buffer has it. `Restore(0)` leaves that to the records. Both end in the same node if the buffer
has each such block as the first record that names it finds it (`restoreBuf_eq_restore`): as it
is on disk, and then that record must not be a first record, which finds an empty block. Blocks
of the buffer without an owner are not taken.

What the buffer holds beyond the blocks that were read is what other files left, and then the
block of another file replaces the one on disk. `recovery_modes_agree` says that for the logs
that can be written the condition is exact: if the buffer has one block with an owner that is
not the block on disk, there is a log, of a single record, that the two ways recover
differently.
-/

set_option autoImplicit false

namespace Oce.FeedDB

open Oce.Base

variable {id : BlockId} {r : FeedItemBlockInfo}

/-- The block of the buffer at the place of a block of the file. -/
def Buffer.block (buf : Buffer) (id : BlockId) : Block := buf id.blockIndex.toNat

namespace Node

variable {n : Node} {fileId : ℤ} {buf : Buffer} {records : List FeedItemBlockInfo}

/-! ## What is put in memory -/

theorem locateBuf_eq (n : Node) (id : BlockId) (buf : Buffer) :
    n.locateBuf id buf =
      if n.cache id = none ∧ (Buffer.block buf id).head.userId ≠ 0 then
        n.store id (Buffer.block buf id)
      else n := by
  unfold locateBuf Buffer.block
  by_cases hcache : n.cache id = none
  · rw [hcache]
    by_cases hu : (buf id.blockIndex.toNat).head.userId = 0
    · rw [if_pos (Or.inr hu), if_neg fun h => h.2 hu]
    · rw [if_neg (by simp [hu]), if_pos ⟨rfl, hu⟩]
  · rw [if_pos (Or.inl (Option.isSome_iff_ne_none.mpr hcache)), if_neg fun h => hcache h.1]

/-- **`LocateBatch`** puts the blocks that are named, are not in memory and have an owner in the
buffer in memory. -/
theorem locateBatch_eq {indexs : List ℤ} (hin : ∀ i ∈ indexs, InFile ⟨fileId, i⟩) :
    ∃ ids : List BlockId, ids.Nodup ∧
      (∀ id, id ∈ ids ↔ id.fileId = fileId ∧ id.blockIndex ∈ indexs ∧ n.cache id = none ∧
        (Buffer.block buf id).head.userId ≠ 0) ∧
      n.locateBatch fileId buf indexs = some (n.ahead (Buffer.block buf) ids) := by
  induction indexs generalizing n with
  | nil => exact ⟨[], List.nodup_nil, by simp, rfl⟩
  | cons i indexs ih =>
      have hi := hin i List.mem_cons_self
      obtain ⟨ids, hnodup, hmem, he⟩ := @ih (n.locateBuf ⟨fileId, i⟩ buf)
        fun i' hi' => hin i' (List.mem_cons_of_mem i hi')
      have hstep : n.locateBatch fileId buf (i :: indexs) =
          (n.locateBuf ⟨fileId, i⟩ buf).locateBatch fileId buf indexs := by
        unfold locateBatch
        rw [List.foldlM_cons, if_pos hi]
        rfl
      have hcons : ∀ id : BlockId, id.fileId = fileId ∧ id.blockIndex ∈ i :: indexs ↔
          id = ⟨fileId, i⟩ ∨ id.fileId = fileId ∧ id.blockIndex ∈ indexs := by
        rintro ⟨f, j⟩
        simp only [List.mem_cons, BlockId.mk.injEq]
        tauto
      rw [hstep, he]
      rw [locateBuf_eq] at hmem ⊢
      by_cases htaken : n.cache ⟨fileId, i⟩ = none ∧
          (Buffer.block buf ⟨fileId, i⟩).head.userId ≠ 0
      · rw [if_pos htaken] at hmem ⊢
        have hnot : (⟨fileId, i⟩ : BlockId) ∉ ids := by
          rw [hmem, store_cache_self]
          rintro ⟨-, -, h, -⟩
          cases h
        refine ⟨ids ++ [⟨fileId, i⟩], ?_, fun id => ?_, ?_⟩
        · exact hnodup.append (List.nodup_singleton _) (List.disjoint_singleton.mpr hnot)
        · rw [← and_assoc, hcons, List.mem_append, List.mem_singleton, hmem]
          by_cases hid : id = ⟨fileId, i⟩
          · subst hid
            simp [htaken.1, htaken.2]
          · rw [store_cache_ne _ _ hid]
            simp [hid, and_assoc]
        · unfold ahead
          rw [List.foldr_append]
          rfl
      · rw [if_neg htaken] at hmem ⊢
        refine ⟨ids, hnodup, fun id => ?_, rfl⟩
        rw [← and_assoc, hcons, hmem]
        by_cases hid : id = ⟨fileId, i⟩
        · subst hid
          constructor
          · exact fun h => ⟨Or.inl rfl, h.2.2⟩
          · exact fun h => absurd h.2 htaken
        · simp [hid, and_assoc]

/-! ## When the two ways agree -/

/-- The records of the log of a file are records of the file. -/
def LogOf (fileId : ℤ) (records : List FeedItemBlockInfo) : Prop :=
  ∀ r ∈ records, r.blk.fileId = fileId

/-- The two ways to recover a file end in the same node. -/
def ModesAgree (n : Node) (fileId : ℤ) (buf : Buffer) (records : List FeedItemBlockInfo) : Prop :=
  n.restoreBuf fileId buf records = some (n.restore records)

/-- Each block the log names lies in the file, and the buffer has no owner for it or has it as it
is on disk, where the first record that names it reads it. -/
def BufferMatches (n : Node) (buf : Buffer) (records : List FeedItemBlockInfo) : Prop :=
  ∀ r ∈ records, InFile r.blk.id ∧
    (n.cache r.blk.id = none → (Buffer.block buf r.blk.id).head.userId ≠ 0 →
      Buffer.block buf r.blk.id = n.disk r.blk.id ∧
      ∀ first, records.find? (fun r' => decide (Names r' r.blk.id)) = some first →
        Reads first r.blk.id = true)

theorem isNone_of_inFile (hid : id.fileId ≠ 0) (hin : InFile id) : id.isNone = false := by
  unfold BlockId.isNone
  rw [decide_eq_false_iff_not]
  rintro (h0 | h1)
  · exact hid h0
  · have hpos : 0 ≤ id.blockIndex := hin.1
    omega

/-- A block a record is for has a first record. -/
theorem exists_first (hr : r ∈ records) :
    ∃ first, records.find? (fun r' => decide (Names r' r.blk.id)) = some first := by
  rw [← Option.isSome_iff_exists, List.find?_isSome]
  exact ⟨r, hr, decide_eq_true (Or.inl rfl)⟩

/-- What `Restore(buf)` does if the log stays inside the file. -/
theorem restoreBuf_eq (hin : ∀ r ∈ records, InFile r.blk.id) (hlog : LogOf fileId records) :
    ∃ ids : List BlockId, ids.Nodup ∧
      (∀ id, id ∈ ids ↔ (∃ r ∈ records, r.blk.id = id) ∧ n.cache id = none ∧
        (Buffer.block buf id).head.userId ≠ 0) ∧
      n.restoreBuf fileId buf records = some ((n.ahead (Buffer.block buf) ids).restore records) := by
  have hindexs : ∀ i ∈ records.map fun r => r.blk.blockIndex, InFile ⟨fileId, i⟩ := by
    intro i hi
    obtain ⟨r, hr, rfl⟩ := List.mem_map.mp hi
    have hinfile := hin r hr
    unfold InFile at hinfile ⊢
    exact hinfile
  obtain ⟨ids, hnodup, hmem, he⟩ := @locateBatch_eq n fileId buf _ hindexs
  refine ⟨ids, hnodup, fun id => ?_, by rw [restoreBuf, he, Option.map_some]⟩
  rw [hmem, ← and_assoc]
  refine and_congr_left fun _ => ?_
  constructor
  · rintro ⟨hf, hi⟩
    obtain ⟨r, hr, hindex⟩ := List.mem_map.mp hi
    have hrf := hlog r hr
    refine ⟨r, hr, ?_⟩
    obtain ⟨f, i⟩ := id
    dsimp only at hf hindex
    unfold BlockInfo.id
    rw [hrf, hf, hindex]
  · rintro ⟨r, hr, rfl⟩
    exact ⟨hlog r hr, List.mem_map.mpr ⟨r, hr, rfl⟩⟩

/-- **A buffer that matches the disk.** -/
theorem restoreBuf_eq_restore (hfile : fileId ∈ n.files) (hid : fileId ≠ 0)
    (hlog : LogOf fileId records) (hbuf : n.BufferMatches buf records) :
    n.ModesAgree fileId buf records := by
  obtain ⟨ids, hnodup, hmem, he⟩ := @restoreBuf_eq n fileId buf _ (fun r hr => (hbuf r hr).1) hlog
  rw [ModesAgree, he]
  refine congrArg some (restore_ahead hnodup (fun id hid' => ?_) fun id hid' => ?_)
  · obtain ⟨⟨r, hr, rfl⟩, -⟩ := (hmem id).mp hid'
    have hrf : r.blk.id.fileId = fileId := hlog r hr
    exact ⟨isNone_of_inFile (hrf ▸ hid) (hbuf r hr).1, hrf ▸ hfile, (hbuf r hr).1⟩
  · obtain ⟨⟨r, hr, rfl⟩, hcache, howner⟩ := (hmem id).mp hid'
    obtain ⟨hdisk, hreads⟩ := (hbuf r hr).2 hcache howner
    obtain ⟨first, hfirst⟩ := exists_first hr
    refine ⟨first, hfirst, ?_⟩
    rw [hreads first hfirst, content_load, Node.view, hcache, Option.getD_none,
      Block.reload_of_userId (hdisk ▸ howner), hdisk]

/-! ## Logs that tell the two ways apart -/

/-- A block after the put of a single record that follows no other block. -/
theorem view_restore_single {data : FeedItemBlockInfo} (hfile : data.blk.fileId ∈ n.files)
    (hin : InFile data.blk.id) (hfeed : 0 ≤ data.item.feed) (h3 : data.blk.curCount ≠ -3)
    (hpre : data.blk.preId.isNone = true) :
    (n.restore [data]).view data.blk.id =
      (putBlock (n.content data.blk.id (data.blk.curCount ≠ 1)) data false).2 := by
  have hput := view_of_cache (put_located hfile hin false)
  show (n.restoreRecord data).view data.blk.id = _
  unfold restoreRecord syncPut changeNextPtr
  simp only [if_neg h3, if_neg (not_lt.mpr hfeed), hpre, Bool.false_eq_true, if_false, if_true,
    ite_self]
  exact hput

/-- A record of one block. -/
def recordOf (id : BlockId) (userId count : ℤ) : FeedItemBlockInfo :=
  ⟨⟨0, 0, 0, 0, 0, 0⟩, ⟨0, userId, count, count, id.fileId, id.blockIndex, 0, -1, 0⟩⟩

/-- If the two ways agree on a single record of a block that has an owner in the buffer, the put
finds the same in both. -/
theorem putBlock_eq_of_agree {userId count : ℤ} (hfile : id.fileId ∈ n.files) (hin : InFile id)
    (hnone : n.cache id = none) (howner : (Buffer.block buf id).head.userId ≠ 0) (h3 : count ≠ -3)
    (h : n.ModesAgree id.fileId buf [recordOf id userId count]) :
    (putBlock (Buffer.block buf id) (recordOf id userId count) false).2 =
      (putBlock (n.content id (count ≠ 1)) (recordOf id userId count) false).2 := by
  have hbatch : n.restoreBuf id.fileId buf [recordOf id userId count] =
      some ((n.store id (Buffer.block buf id)).restore [recordOf id userId count]) := by
    have hindex : InFile ⟨id.fileId, id.blockIndex⟩ := hin
    have htaken : n.cache ⟨id.fileId, id.blockIndex⟩ = none ∧
        (Buffer.block buf ⟨id.fileId, id.blockIndex⟩).head.userId ≠ 0 := ⟨hnone, howner⟩
    unfold restoreBuf locateBatch
    simp only [recordOf, List.map_cons, List.map_nil, List.foldlM_cons, List.foldlM_nil,
      if_pos hindex, locateBuf_eq, if_pos htaken]
    rfl
  rw [ModesAgree, hbatch] at h
  have hview := congrArg (fun m => m.view id) (Option.some.inj h)
  have hbuf := @view_restore_single (n.store id (Buffer.block buf id)) (recordOf id userId count)
    hfile hin (le_refl 0) h3 rfl
  have hdirect := @view_restore_single n (recordOf id userId count) hfile hin (le_refl 0) h3 rfl
  have hcontent : (n.store id (Buffer.block buf id)).content id (count ≠ 1) =
      Buffer.block buf id := by
    rw [Node.content, store_cache_self, Option.getD_some]
  have hbuf' : ((n.store id (Buffer.block buf id)).restore [recordOf id userId count]).view id =
      (putBlock ((n.store id (Buffer.block buf id)).content id (count ≠ 1))
        (recordOf id userId count) false).2 := hbuf
  rw [hcontent] at hbuf'
  exact hbuf'.symm.trans (hview.trans hdirect)

/-- A record with no place in a block leaves the block it finds as it is. -/
theorem putBlock_recordOf (b : Block) (id : BlockId) (userId : ℤ) :
    (putBlock b (recordOf id userId 64) false).2 = b := by
  have hbig : ¬ uint32 (recordOf id userId 64).blk.curCount ≤ UInt32.ofNat recordPerBlock := by
    show ¬ uint32 64 ≤ UInt32.ofNat recordPerBlock
    decide
  unfold putBlock
  simp only [if_neg hbig]
  split
  · rfl
  · rfl

/-- A block of the buffer that is neither the one on disk nor without an owner is found out. -/
theorem block_eq_of_agree (hfile : id.fileId ∈ n.files) (hin : InFile id)
    (hnone : n.cache id = none) (howner : (Buffer.block buf id).head.userId ≠ 0)
    (h : n.ModesAgree id.fileId buf [recordOf id 0 64]) : Buffer.block buf id = n.disk id := by
  have hput := putBlock_eq_of_agree hfile hin hnone howner (by decide) h
  rw [putBlock_recordOf, putBlock_recordOf] at hput
  have hreload : Buffer.block buf id = (n.disk id).reload := by
    rw [hput]
    show n.view id = _
    rw [Node.view, hnone, Option.getD_none]
  rw [hreload]
  unfold Block.reload
  split
  · rename_i hzero
    have hinit : Buffer.block buf id = Block.init := by
      rw [hreload]
      exact if_pos hzero
    rw [hinit] at howner
    exact absurd rfl howner
  · rfl

/-- A block of the buffer with an owner differs from the one a first record of another user
begins with. -/
theorem owner_eq_of_agree (hfile : id.fileId ∈ n.files) (hin : InFile id)
    (hnone : n.cache id = none) (h : ∀ userId, n.ModesAgree id.fileId buf [recordOf id userId 1]) :
    (Buffer.block buf id).head.userId = 0 := by
  by_contra howner
  -- a user that is not the owner
  have hother : uint32 (int32 ((Buffer.block buf id).head.userId + 1)) ≠
      (Buffer.block buf id).head.userId := by
    rw [uint32_int32]
    intro heq
    simp at heq
  generalize int32 ((Buffer.block buf id).head.userId + 1) = userId at hother
  have hput := putBlock_eq_of_agree hfile hin hnone howner (by decide) (h userId)
  have hrefused : (putBlock (Buffer.block buf id) (recordOf id userId 1) false).2 =
      Buffer.block buf id := by
    unfold putBlock
    rw [if_pos ⟨howner, hother.symm⟩]
  have hempty : n.content id ((1 : ℤ) ≠ 1) = Block.init := by
    simp [Node.content, hnone]
  have hseen := @putBlock_init_shows (recordOf id userId 1) rfl false
  rw [hrefused, hempty] at hput
  rw [← hput] at hseen
  exact hother (congrArg (fun s => s.1) hseen).symm

/-! ## Owners -/

/-- The owner of a block is not changed by a put. -/
theorem putBlock_keeps_owner {b : Block} (hu : b.head.userId ≠ 0) (data : FeedItemBlockInfo)
    (overwrite : Bool) : (putBlock b data overwrite).2.head.userId = b.head.userId := by
  by_cases ht : b.Takes data.blk
  · by_cases hc : uint32 data.blk.curCount ≤ UInt32.ofNat recordPerBlock
    · have hseen := congrArg (fun s => s.1) (putBlock_of_takes ht hc overwrite)
      exact hseen.trans (ht.resolve_left hu).symm
    · unfold putBlock
      simp only [if_neg hc]
      repeat' split
      all_goals rfl
  · rw [putBlock_of_not_takes ht]

/-- A block in memory keeps its owner in a replay. -/
theorem restore_owner {id : BlockId} {b : Block} (hcache : n.cache id = some b)
    (hu : b.head.userId ≠ 0) (records : List FeedItemBlockInfo) :
    ((n.restore records).view id).head.userId = b.head.userId := by
  refine restore_keeps (P := fun b' => b'.head.userId = b.head.userId)
    (fun d _ loaded hloaded b₁ b₂ hw hb => ?_) (by rw [view_of_cache hcache])
  have htrue : loaded = true := hloaded (by rw [hcache]; rfl)
  cases hw with
  | pointer _ hp =>
      obtain ⟨_, rfl | rfl⟩ := hp
      · exact hb
      · exact hb
  | remove _ _ => exact hb
  | put _ _ => rw [putBlock_keeps_owner (by rw [hb]; exact hu), hb]
  | first _ _ _ hno =>
      rw [htrue] at hno
      cases hno
  | removeAll _ _ => exact hb

/-- **A log that names a block with one owner in the buffer and another on disk is recovered
differently.** -/
theorem owners_eq_of_agree (hid : fileId ≠ 0) (hfile : fileId ∈ n.files)
    (hlog : LogOf fileId records) (hin : ∀ r ∈ records, InFile r.blk.id)
    (h : n.ModesAgree fileId buf records) (hr : r ∈ records) (hnone : n.cache r.blk.id = none)
    (howner : (Buffer.block buf r.blk.id).head.userId ≠ 0)
    (hdisk : (n.disk r.blk.id).head.userId ≠ 0)
    (hreads : ∀ first, records.find? (fun r' => decide (Names r' r.blk.id)) = some first →
      Reads first r.blk.id = true) :
    (Buffer.block buf r.blk.id).head.userId = (n.disk r.blk.id).head.userId := by
  have hrf : r.blk.id.fileId = fileId := hlog r hr
  obtain ⟨ids, -, hmem, he⟩ := @restoreBuf_eq n fileId buf _ hin hlog
  rw [ModesAgree, he] at h
  have hview := congrArg (fun m => (m.view r.blk.id).head.userId) (Option.some.inj h)
  have hbuf := @restore_owner (n.ahead (Buffer.block buf) ids) r.blk.id (Buffer.block buf r.blk.id)
    (by rw [ahead_cache, if_pos ((hmem _).mpr ⟨⟨r, hr, rfl⟩, hnone, howner⟩)]) howner records
  -- on demand the block is read from disk
  obtain ⟨first, hfirst⟩ := exists_first hr
  have hread : n.disk r.blk.id = n.content r.blk.id (Reads first r.blk.id) := by
    rw [hreads first hfirst, content_load, Node.view, hnone, Option.getD_none,
      Block.reload_of_userId hdisk]
  have hdirect : (n.ahead n.disk [r.blk.id]).restore records = n.restore records := by
    refine restore_ahead (List.nodup_singleton _) (fun id hid' => ?_) fun id hid' => ?_
    · rw [List.mem_singleton.mp hid']
      exact ⟨isNone_of_inFile (hrf ▸ hid) (hin r hr), hrf ▸ hfile, hin r hr⟩
    · rw [List.mem_singleton.mp hid']
      exact ⟨first, hfirst, hread⟩
  have hfromDisk := @restore_owner (n.ahead n.disk [r.blk.id]) r.blk.id (n.disk r.blk.id)
    (by rw [ahead_cache, if_pos (List.mem_singleton_self _)]) hdisk records
  rw [hdirect] at hfromDisk
  exact hbuf.symm.trans (hview.trans hfromDisk)

/-- A log that leaves the file reads outside of the array. -/
theorem inFile_of_agree (hlog : LogOf fileId records) (h : n.ModesAgree fileId buf records) :
    ∀ r ∈ records, InFile r.blk.id := by
  have hbatch : ∀ (indexs : List ℤ) (m m' : Node),
      m.locateBatch fileId buf indexs = some m' → ∀ i ∈ indexs, InFile ⟨fileId, i⟩ := by
    intro indexs
    induction indexs with
    | nil => exact fun _ _ _ i hi => absurd hi List.not_mem_nil
    | cons j indexs ih =>
        intro m m' hm i hi
        unfold locateBatch at hm
        rw [List.foldlM_cons] at hm
        by_cases hj : InFile ⟨fileId, j⟩
        · rw [if_pos hj] at hm
          rcases List.mem_cons.mp hi with rfl | hi
          · exact hj
          · exact ih _ m' hm i hi
        · rw [if_neg hj] at hm
          cases hm
  intro r hr
  obtain ⟨m, hm, -⟩ := Option.map_eq_some_iff.mp h
  have hinfile := hbatch _ n m hm _ (List.mem_map.mpr ⟨r, hr, rfl⟩)
  rw [← hlog r hr] at hinfile
  exact hinfile

/-! ## The shared buffer -/

/-- **The two ways to recover a file**, whatever its head on disk says and whatever the buffer
held before. -/
theorem recovery_modes_agree (n : Node) {fileId : ℤ} (hid : fileId ≠ 0) (hfile : fileId ∈ n.files)
    (ext : FileExtent) (before : Buffer) :
    let buf := (loadAllData n.disk fileId ext before).2
    (∀ records, LogOf fileId records → n.BufferMatches buf records →
      n.ModesAgree fileId buf records) ∧
    (∀ records, LogOf fileId records → n.ModesAgree fileId buf records →
      ∀ r ∈ records, InFile r.blk.id ∧
        (n.cache r.blk.id = none → (Buffer.block buf r.blk.id).head.userId ≠ 0 →
          (n.disk r.blk.id).head.userId ≠ 0 →
          (∀ first, records.find? (fun r' => decide (Names r' r.blk.id)) = some first →
            Reads first r.blk.id = true) →
          (Buffer.block buf r.blk.id).head.userId = (n.disk r.blk.id).head.userId)) ∧
    ((∀ records, LogOf fileId records → (∀ r ∈ records, InFile r.blk.id ∧ r.blk.curCount ≠ 1) →
        n.ModesAgree fileId buf records) ↔
      ∀ id : BlockId, id.fileId = fileId → InFile id → n.cache id = none →
        (Buffer.block buf id).head.userId = 0 ∨ Buffer.block buf id = n.disk id) ∧
    ((∀ records, LogOf fileId records → (∀ r ∈ records, InFile r.blk.id) →
        n.ModesAgree fileId buf records) ↔
      ∀ id : BlockId, id.fileId = fileId → InFile id → n.cache id = none →
        (Buffer.block buf id).head.userId = 0) := by
  intro buf
  have hsingle : ∀ id : BlockId, id.fileId = fileId → ∀ userId count,
      LogOf fileId [recordOf id userId count] := by
    intro id hf userId count r hr
    rw [List.mem_singleton.mp hr]
    exact hf
  have hplace : ∀ id : BlockId, InFile id → ∀ userId count,
      ∀ r ∈ [recordOf id userId count], InFile r.blk.id := by
    intro id hin userId count r hr
    rw [List.mem_singleton.mp hr]
    exact hin
  refine ⟨fun records => restoreBuf_eq_restore hfile hid, fun records hlog h r hr => ?_,
    ⟨fun h id hf hin hnone => ?_, fun h records hlog hrecords => ?_⟩,
    fun h id hf hin hnone => ?_, fun h records hlog hin => ?_⟩
  · have hin := inFile_of_agree hlog h
    exact ⟨hin r hr, owners_eq_of_agree hid hfile hlog hin h hr⟩
  · by_cases howner : (Buffer.block buf id).head.userId = 0
    · exact Or.inl howner
    · subst hf
      refine Or.inr (block_eq_of_agree hfile hin hnone howner (h _ (hsingle id rfl 0 64) ?_))
      intro r hr
      refine ⟨hplace id hin 0 64 r hr, ?_⟩
      rw [List.mem_singleton.mp hr]
      show (64 : ℤ) ≠ 1
      decide
  · refine restoreBuf_eq_restore hfile hid hlog fun r hr => ⟨(hrecords r hr).1, ?_⟩
    intro hnone howner
    refine ⟨(h r.blk.id (hlog r hr) (hrecords r hr).1 hnone).resolve_left howner, ?_⟩
    intro first hfirst
    have hcount := (hrecords first (List.mem_of_find?_eq_some hfirst)).2
    exact decide_eq_true (Or.inr (Or.inr hcount))
  · subst hf
    exact owner_eq_of_agree hfile hin hnone fun userId =>
      h _ (hsingle id rfl userId 1) (hplace id hin userId 1)
  · refine restoreBuf_eq_restore hfile hid hlog fun r hr => ⟨hin r hr, ?_⟩
    intro hnone howner
    exact absurd (h r.blk.id (hlog r hr) (hin r hr) hnone) howner

/-- A block of a user with one item. -/
def blockOf (userId : UInt32) (feed : ℤ) : Block :=
  ⟨⟨userId, 1, 0, -1, 0, -1⟩, [⟨feed, 0, 0, 0, 0, 0⟩], List.pairwise_singleton _ _, by simp⟩

/-- Files 1 and 2; block 0 is of user 7 in the first and of user 9 in the second. -/
def twoFiles : Node :=
  .started [1, 2] (fun id => if id = ⟨1, 0⟩ then blockOf 7 4 else
    if id = ⟨2, 0⟩ then blockOf 9 8 else .zeroed) (fun _ => []) fun _ => []

theorem recovery_modes_agree_twoFiles :
    twoFiles.ModesAgree 1 (loadAllData twoFiles.disk 1 ⟨1, 1, 2000000⟩ fun _ => .zeroed).2
      [recordOf ⟨1, 0⟩ 7 2] := by
  have hloaded : Buffer.block (loadAllData twoFiles.disk 1 ⟨1, 1, 2000000⟩ fun _ => .zeroed).2
      (recordOf ⟨1, 0⟩ 7 2).blk.id = twoFiles.disk (recordOf ⟨1, 0⟩ 7 2).blk.id := by
    decide +kernel
  refine (recovery_modes_agree twoFiles (by decide) (List.mem_cons_self) ⟨1, 1, 2000000⟩
    fun _ => .zeroed).1 [recordOf ⟨1, 0⟩ 7 2] (fun r hr => by rw [List.mem_singleton.mp hr]; rfl)
    fun r hr => ?_
  rw [List.mem_singleton.mp hr]
  refine ⟨by decide, fun _ _ => ⟨hloaded, fun first hfirst => ?_⟩⟩
  rw [List.mem_singleton.mp (List.mem_of_find?_eq_some hfirst)]
  decide

/-- The head of file 2 does not count the block that is on disk: the bulk read leaves the block of
file 1 in the buffer, and the record of user 9 finds a block of user 7. -/
theorem stale_buffer_recovered :
    ∃ s : Node × Buffer,
      preLoadFile .batch 1 ⟨1, 1, 2000000⟩ [recordOf ⟨1, 0⟩ 7 2] (twoFiles, fun _ => .zeroed) =
        some s ∧
      ¬ s.1.ModesAgree 2 (loadAllData s.1.disk 2 ⟨0, 1, 2000000⟩ s.2).2 [recordOf ⟨2, 0⟩ 9 2] := by
  have hdiffer : (preLoadFile .batch 1 ⟨1, 1, 2000000⟩ [recordOf ⟨1, 0⟩ 7 2]
      (twoFiles, fun _ => .zeroed)).any (fun s => decide
        (((s.1.restoreBuf 2 (loadAllData s.1.disk 2 ⟨0, 1, 2000000⟩ s.2).2
          [recordOf ⟨2, 0⟩ 9 2]).map fun m => m.view ⟨2, 0⟩) ≠
        some ((s.1.restore [recordOf ⟨2, 0⟩ 9 2]).view ⟨2, 0⟩))) = true := by
    decide +kernel
  cases hs : preLoadFile .batch 1 ⟨1, 1, 2000000⟩ [recordOf ⟨1, 0⟩ 7 2]
      (twoFiles, fun _ => .zeroed) with
  | none =>
      rw [hs] at hdiffer
      cases hdiffer
  | some s =>
      rw [hs] at hdiffer
      refine ⟨s, rfl, fun h => of_decide_eq_true hdiffer ?_⟩
      exact congrArg (Option.map fun m => m.view ⟨2, 0⟩) h

end Node

end Oce.FeedDB
