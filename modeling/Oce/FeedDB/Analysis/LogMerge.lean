import Oce.Base.Again
import Oce.FeedDB.Model.Store
import Oce.FeedDB.Analysis.ReplayWrites

/-!
# A start-up that dies while it joins the log files

A start that dies after `.log` was appended to `.log.old` and before it was deleted makes the
next one append it again, so what is replayed is `O ++ N ++ ... ++ N`. `initAfter_eq` says that
this is all that can happen.

A second replay of `N` in the same process finds every block that `N` concerns in memory. On
the items of a block with an owner a log acts by a function that is idempotent (`SlotFn`), and
who owns the block does not depend on its items, so owner and items come out the same
(`again_slot`). The two pointers of a head come out the same if all records are of one user and
none takes an item out of the block (`again_headSlot`): each record then sets a pointer to a
value of its own or leaves it alone. A removal does not: it clears the pointers of a block it
empties, and the second time it may find nothing to remove.
-/

set_option autoImplicit false

namespace Oce.FeedDB

open Oce.Base Node

variable {id : BlockId} {records old new : List FeedItemBlockInfo} {n : Node} {u user : UInt32}

/-! ## The join -/

namespace LogDir

/-- The states of the directory between the steps of any number of joins. -/
inductive Joining (log : Option (List FeedItemBlockInfo)) (old : List FeedItemBlockInfo) :
    LogDir → Prop
  | both (j : ℕ) : Joining log old ⟨log, some (old ++ (List.replicate j (log.getD [])).flatten)⟩
  | deleted (j : ℕ) :
      Joining log old ⟨none, some (old ++ (List.replicate (j + 1) (log.getD [])).flatten)⟩
  | joined (j : ℕ) :
      Joining log old ⟨some (old ++ (List.replicate (j + 1) (log.getD [])).flatten), none⟩

variable {log : Option (List FeedItemBlockInfo)} {old : List FeedItemBlockInfo} {d : LogDir}

/-- Appending `.log` once more. -/
theorem combine_both (log : Option (List FeedItemBlockInfo)) (old : List FeedItemBlockInfo) (j : ℕ) :
    (⟨log, some (old ++ (List.replicate j (log.getD [])).flatten)⟩ : LogDir).combineFile =
      ⟨log, some (old ++ (List.replicate (j + 1) (log.getD [])).flatten)⟩ := by
  cases log with
  | none => simp [combineFile]
  | some src => simp [combineFile, List.replicate_succ']

/-- A join that is cut off leaves one of the states. -/
theorem Joining.joinUpTo (h : Joining log old d) (k : ℕ) : Joining log old (d.joinUpTo k) := by
  cases h with
  | both j =>
      have hcombine := combine_both log old j
      unfold LogDir.joinUpTo joinSteps
      rw [Option.isSome_some, if_pos rfl]
      match k with
      | 0 => exact .both j
      | 1 =>
          rw [List.take_succ_cons, List.foldl_cons, hcombine]
          exact .both (j + 1)
      | 2 =>
          rw [List.take_succ_cons, List.foldl_cons, hcombine]
          exact .deleted j
      | k + 3 =>
          rw [List.take_succ_cons, List.foldl_cons, hcombine, List.take_of_length_le (by simp)]
          exact .joined j
  | deleted j =>
      unfold LogDir.joinUpTo joinSteps
      rw [Option.isSome_some, if_pos rfl]
      match k with
      | 0 => exact .deleted j
      | 1 => exact .deleted j
      | 2 => exact .deleted j
      | k + 3 =>
          rw [List.take_of_length_le (by simp)]
          exact .joined j
  | joined j => exact .joined j

/-- A join that is not cut off leaves one file. -/
theorem Joining.init (h : Joining log old d) :
    ∃ j, d.init = old ++ (List.replicate (j + 1) (log.getD [])).flatten := by
  cases h with
  | both j =>
      have hcombine := combine_both log old j
      refine ⟨j, ?_⟩
      unfold LogDir.init LogDir.joinUpTo joinSteps
      rw [Option.isSome_some, if_pos rfl, List.take_length, List.foldl_cons, hcombine]
      rfl
  | deleted j => exact ⟨j, rfl⟩
  | joined j => exact ⟨j, rfl⟩

/-- **Whatever starts died before, what is read is `.log.old` and then `.log`, once or more
often.** -/
theorem initAfter_eq (log : Option (List FeedItemBlockInfo)) (old : List FeedItemBlockInfo)
    (crashes : List ℕ) :
    ∃ j, (⟨log, some old⟩ : LogDir).initAfter crashes =
      old ++ (List.replicate (j + 1) (log.getD [])).flatten := by
  have hjoining : Joining log old (crashes.foldl LogDir.joinUpTo ⟨log, some old⟩) := by
    have hstart : Joining log old ⟨log, some old⟩ := by
      have hboth := @Joining.both log old 0
      rw [List.replicate_zero, List.flatten_nil, List.append_nil] at hboth
      exact hboth
    generalize (⟨log, some old⟩ : LogDir) = d at hstart
    induction crashes generalizing d with
    | nil => exact hstart
    | cons k crashes ih => exact ih _ (hstart.joinUpTo k)
  exact hjoining.init

end LogDir

/-! ## The slots of a block -/

/-- Who owns a block after a log does not depend on its items. -/
theorem fold_user (hnames : NamesUser id records) (feed : ℤ) (item item' : Option FeedItem) :
    (records.foldl (Slot.step id feed) ⟨true, 0, item⟩).user =
      (records.foldl (Slot.step id feed) ⟨true, 0, item'⟩).user := by
  induction records generalizing item item' with
  | nil => rfl
  | cons r records ih =>
      rw [List.foldl_cons, List.foldl_cons, step_ownerless, step_ownerless]
      by_cases hw : WritesTo id r
      · have ho := hnames r List.mem_cons_self hw
        rw [if_pos hw, if_pos hw, fold_owned ho, fold_owned ho]
      · rw [if_neg hw, if_neg hw]
        exact ih (fun r' hr' => hnames r' (List.mem_cons_of_mem _ hr')) _ _

/-- **A log that names its users leaves a slot the same the second time.** -/
theorem again_slot (hnames : NamesUser id records) (feed : ℤ) : Again (Slot.step id feed) records := by
  have hidem : ∀ owner item, records.foldl (itemStep id feed owner)
      (records.foldl (itemStep id feed owner) item) = records.foldl (itemStep id feed owner) item :=
    fun owner => (SlotFn.foldl (slotFn_itemStep id feed owner) records).idem
  have hloads : ∀ r ∈ records, Loads (fun s => s.loaded = true) fun s => Slot.step id feed s r := by
    intro r _
    rcases step_unloaded id feed r with h | h | h
    · refine Or.inl ?_
      rintro ⟨loaded, user, item⟩
      cases loaded with
      | false => exact (h user item).1
      | true => exact (h user item).2
    · refine Or.inr ?_
      rintro ⟨loaded, user, item⟩
      cases loaded with
      | false => exact ⟨⟨true, 0, none⟩, rfl, h user item⟩
      | true => exact ⟨⟨true, user, item⟩, rfl, rfl⟩
    · refine Or.inr ?_
      rintro ⟨loaded, user, item⟩
      exact ⟨⟨true, user, item⟩, rfl, by cases loaded; exacts [h user item, rfl]⟩
  refine again_of_loaded hloads ?_
  · rintro ⟨loaded, user, item⟩ rfl
    by_cases hu : user = 0
    · subst hu
      obtain ⟨owner, ho, hfold⟩ := fold_ownerless hnames feed
      obtain ⟨user, huser, he⟩ := hfold records.length item
      obtain ⟨user', -, he'⟩ := hfold records.length (records.foldl (itemStep id feed owner) item)
      rw [List.take_length] at he he'
      rcases huser with rfl | rfl
      · have hsame := fold_user hnames feed item (records.foldl (itemStep id feed owner) item)
        rw [he, he'] at hsame
        have huser' : user' = 0 := hsame.symm
        rw [he, he', huser', hidem]
      · rw [he, fold_owned ho, hidem]
    · rw [fold_owned hu, fold_owned hu, hidem]

/-! ## The head of a block -/

/-- The head of one block: whether it is in memory, its owner and its pointers. -/
structure HeadSlot where
  loaded : Bool
  user : UInt32
  pre : BlockId
  next : BlockId
  deriving DecidableEq

/-- The head of a block in memory. -/
def Block.headSlot (b : Block) : HeadSlot := ⟨true, b.head.userId, b.pre, b.next⟩

/-- The head of a block of a node. -/
def Node.headSlot (n : Node) (id : BlockId) : HeadSlot :=
  ⟨(n.cache id).isSome, (n.view id).head.userId, (n.view id).pre, (n.view id).next⟩

namespace HeadSlot

/-- What `put` does to the head of the block it found. -/
def write (data : FeedItemBlockInfo) (s : HeadSlot) : HeadSlot :=
  if s.user ≠ 0 ∧ s.user ≠ uint32 data.blk.userId then s
  else if data.blk.curCount = -1 then { s with pre := data.blk.preId }
  else if data.blk.curCount = -2 then { s with next := data.blk.preId }
  else
    { s with
      user := if uint32 data.blk.curCount ≤ UInt32.ofNat recordPerBlock then
        uint32 data.blk.userId else s.user
      pre := if data.blk.curCount = 1 then data.blk.preId else s.pre }

/-- The block is found: in memory, on disk, or for a first record as an empty one. -/
def find (data : FeedItemBlockInfo) (s : HeadSlot) : HeadSlot :=
  if data.blk.curCount = 1 ∧ s.loaded = false then ⟨true, 0, .none, .none⟩
  else { s with loaded := true }

/-- What a record that removes nothing does to the head of block `id`. -/
def step (id : BlockId) (s : HeadSlot) (data : FeedItemBlockInfo) : HeadSlot :=
  if data.item.feed < 0 then s
  else
    let s := if data.blk.id = id then (s.find data).write data else s
    let s := if data.blk.curCount = 1 ∧ data.blk.preId = id ∧ id.isNone = false then
      { s with loaded := true }.write (specialRecord 0 data.blk.userId (-2) id data.blk.id) else s
    if data.blk.curCount = -3 ∧ data.blk.id = id then { s with loaded := true } else s

end HeadSlot

theorem headSlot_of_cache {b : Block} (h : n.cache id = some b) : n.headSlot id = b.headSlot := by
  unfold Node.headSlot
  rw [view_of_cache h, h]
  rfl

theorem Node.Frame.headSlot {S : BlockId → Prop} {n' : Node} (h : Frame S n n') (hid : ¬ S id) :
    n'.headSlot id = n.headSlot id := by
  unfold Node.headSlot
  rw [h.view hid, h.cache id hid]

/-- What a put leaves of the head. -/
theorem putBlock_headSlot (b : Block) (data : FeedItemBlockInfo) (overwrite : Bool) :
    (putBlock b data overwrite).2.headSlot = b.headSlot.write data := by
  unfold putBlock HeadSlot.write
  by_cases hu : b.head.userId ≠ 0 ∧ b.head.userId ≠ uint32 data.blk.userId
  · have hu' : b.headSlot.user ≠ 0 ∧ b.headSlot.user ≠ uint32 data.blk.userId := hu
    rw [if_pos hu, if_pos hu']
  have hu' : ¬ (b.headSlot.user ≠ 0 ∧ b.headSlot.user ≠ uint32 data.blk.userId) := hu
  rw [if_neg hu, if_neg hu']
  by_cases h1 : data.blk.curCount = -1
  · rw [if_pos h1, if_pos h1]
    rfl
  rw [if_neg h1, if_neg h1]
  by_cases h2 : data.blk.curCount = -2
  · rw [if_pos h2, if_pos h2]
    rfl
  rw [if_neg h2, if_neg h2]
  have hput : (if uint32 data.blk.curCount ≤ UInt32.ofNat recordPerBlock then
      b.putData data.blk data.item overwrite else (false, b)).2.headSlot =
      { b.headSlot with
        user := if uint32 data.blk.curCount ≤ UInt32.ofNat recordPerBlock then
          uint32 data.blk.userId else b.head.userId } := by
    by_cases hc : uint32 data.blk.curCount ≤ UInt32.ofNat recordPerBlock
    · rw [if_pos hc, if_pos hc]
      rcases b.putData_cases data.blk data.item overwrite with
        ⟨hpos, hne, -⟩ | ⟨-, -, he⟩ | ⟨-, -, hroom, he⟩
      · exact absurd ⟨UInt32.pos_iff_ne_zero.mp hpos, hne.symm⟩ hu
      · rw [he]
        rfl
      · rw [he]
        rfl
    · rw [if_neg hc, if_neg hc]
      rfl
  generalize (if uint32 data.blk.curCount ≤ UInt32.ofNat recordPerBlock then
      b.putData data.blk data.item overwrite else (false, b)) = r at hput
  dsimp only
  by_cases hone : data.blk.curCount = 1
  · rw [if_pos hone, if_pos hone]
    show { r.2.headSlot with pre := data.blk.preId } = _
    rw [hput]
    rfl
  · rw [if_neg hone, if_neg hone, hput]
    rfl

/-- The put of a record. -/
theorem headSlot_put {n : Node} {data : FeedItemBlockInfo} (hfile : data.blk.fileId ∈ n.files)
    (hin : InFile data.blk.id) :
    (n.put data false).headSlot data.blk.id = ((n.headSlot data.blk.id).find data).write data := by
  rw [headSlot_of_cache (put_located hfile hin false), putBlock_headSlot]
  refine congrArg (HeadSlot.write data) ?_
  unfold HeadSlot.find Node.headSlot Node.content Node.view
  by_cases h1 : data.blk.curCount = 1
  · cases hc : n.cache data.blk.id with
    | none => simp [h1, Block.headSlot, Block.init, Block.pre, Block.next, BlockId.none]
    | some b => simp [h1, Block.headSlot]
  · cases hc : n.cache data.blk.id with
    | none => simp [h1, Block.headSlot]
    | some b => simp [h1, Block.headSlot]

theorem headSlot_changeNextPtr {userId : ℤ} {next : BlockId} (hid : id.isNone = false)
    (hfile : id.fileId ∈ n.files) (hin : InFile id) :
    (n.changeNextPtr userId id next).headSlot id =
      { n.headSlot id with loaded := true }.write (specialRecord 0 userId (-2) id next) := by
  have hfile' : id.fileId ∈ (n.logTo (specialRecord 0 userId (-2) id next)).files :=
    (frame_logTo (S := fun _ => True) n _).files hfile
  have hput := @headSlot_put _ (specialRecord 0 userId (-2) id next) hfile' hin
  have hlog : (n.logTo (specialRecord 0 userId (-2) id next)).headSlot id = n.headSlot id := by
    unfold Node.headSlot
    rw [logTo_cache, logTo_view]
  unfold changeNextPtr
  rw [hid]
  refine hput.trans ?_
  refine congrArg (HeadSlot.write _) ?_
  have hcount : ¬ (-2 : ℤ) = 1 := by decide
  unfold HeadSlot.find
  exact (if_neg fun h => hcount h.1).trans (congrArg (fun s => { s with loaded := true }) hlog)

/-- **A record that takes nothing out of a located block does to its head what it does to the
head slot.** -/
theorem headSlot_restoreRecord (hfile : id.fileId ∈ n.files) (hin : InFile id)
    {data : FeedItemBlockInfo} (hkeeps : data.blk.id = id → 0 ≤ data.item.feed) :
    (n.restoreRecord data).headSlot id = (n.headSlot id).step id data := by
  unfold HeadSlot.step
  by_cases hfeed : data.item.feed < 0
  · rw [if_pos hfeed]
    refine (frame_restoreRecord n data).headSlot ?_
    rintro (hid | ⟨hpos, -⟩)
    · have hpos := hkeeps hid.symm
      omega
    · omega
  rw [if_neg hfeed]
  have hframe := frame_syncPut n data
  have hfileSync := hframe.files hfile
  have hput : (n.put data false).headSlot id =
      if data.blk.id = id then ((n.headSlot id).find data).write data else n.headSlot id := by
    by_cases hid : data.blk.id = id
    · rw [if_pos hid]
      subst hid
      exact headSlot_put hfile hin
    · rw [if_neg hid]
      exact (frame_put n data false).headSlot (Ne.symm hid)
  have hsync : (n.syncPut data false).headSlot id =
      (let s := if data.blk.id = id then ((n.headSlot id).find data).write data
        else n.headSlot id
      if data.blk.curCount = 1 ∧ data.blk.preId = id ∧ id.isNone = false then
        { s with loaded := true }.write (specialRecord 0 data.blk.userId (-2) id data.blk.id)
      else s) := by
    unfold syncPut
    simp only [Bool.false_eq_true, if_false]
    rw [← hput]
    by_cases h1 : data.blk.curCount = 1
    · rw [if_pos h1]
      by_cases hpre : data.blk.preId = id
      · subst hpre
        cases hnone : data.blk.preId.isNone with
        | true =>
            unfold changeNextPtr
            rw [hnone, if_pos rfl, if_neg (by simp)]
        | false =>
            rw [if_pos ⟨h1, rfl, rfl⟩]
            exact headSlot_changeNextPtr hnone ((frame_put n data false).files hfile) hin
      · rw [if_neg fun h => hpre h.2.1]
        exact (frame_changeNextPtr _ _ _ _).headSlot (Ne.symm hpre)
    · rw [if_neg h1, if_neg fun h => h1 h.1]
  unfold restoreRecord
  dsimp only at hsync ⊢
  rw [if_neg hfeed, ← hsync]
  by_cases h3 : data.blk.curCount = -3
  · rw [if_pos h3]
    by_cases hid : data.blk.id = id
    · subst hid
      rw [if_pos ⟨h3, rfl⟩, headSlot_of_cache (removeAll_located _ hfileSync hin)]
      rfl
    · rw [if_neg fun h => hid h.2]
      exact (frame_removeAll _ _ _).headSlot (Ne.symm hid)
  · rw [if_neg h3, if_neg fun h => h3 h.1]

/-- No record of the log takes an item out of the block. -/
def RemovesNothing (id : BlockId) (records : List FeedItemBlockInfo) : Prop :=
  ∀ r ∈ records, r.blk.id = id → 0 ≤ r.item.feed

theorem headSlot_restore (hfile : id.fileId ∈ n.files) (hin : InFile id)
    (hkeeps : RemovesNothing id records) :
    (n.restore records).headSlot id = records.foldl (HeadSlot.step id) (n.headSlot id) := by
  unfold restore
  induction records generalizing n with
  | nil => rfl
  | cons r records ih =>
      rw [List.foldl_cons, List.foldl_cons,
        ← headSlot_restoreRecord hfile hin (hkeeps r List.mem_cons_self)]
      exact ih ((frame_restoreRecord n r).files hfile) fun r' hr' =>
        hkeeps r' (List.mem_cons_of_mem r hr')

/-! ## Heads of one user -/

/-- The records that change the head of the block are those of one user. -/
def OneUser (id : BlockId) (user : UInt32) (records : List FeedItemBlockInfo) : Prop :=
  ∀ r ∈ records, 0 ≤ r.item.feed →
    r.blk.id = id ∨ r.blk.curCount = 1 ∧ r.blk.preId = id → uint32 r.blk.userId = user

namespace HeadSlot

variable {id : BlockId} {user : UInt32} {data : FeedItemBlockInfo}

/-- The owner, the pointer to the block before and the one to the block after that a record of
the user leaves. -/
def setUser (id : BlockId) (user u : UInt32) (data : FeedItemBlockInfo) : UInt32 :=
  if 0 ≤ data.item.feed ∧ data.blk.id = id ∧
      uint32 data.blk.curCount ≤ UInt32.ofNat recordPerBlock then user else u

@[inherit_doc setUser]
def setPre (id p : BlockId) (data : FeedItemBlockInfo) : BlockId :=
  if 0 ≤ data.item.feed ∧ data.blk.id = id ∧ (data.blk.curCount = -1 ∨ data.blk.curCount = 1) then
    data.blk.preId
  else p

@[inherit_doc setUser]
def setNext (id p : BlockId) (data : FeedItemBlockInfo) : BlockId :=
  if 0 ≤ data.item.feed ∧ data.blk.curCount = 1 ∧ data.blk.preId = id ∧ id.isNone = false then
    data.blk.id
  else if 0 ≤ data.item.feed ∧ data.blk.id = id ∧ data.blk.curCount = -2 then data.blk.preId
  else p

/-- A record on the head of its own user. -/
theorem write_own {u : UInt32} (hu : u = 0 ∨ u = uint32 data.blk.userId) (p x : BlockId) :
    write data ⟨true, u, p, x⟩ =
      ⟨true, if uint32 data.blk.curCount ≤ UInt32.ofNat recordPerBlock then
          uint32 data.blk.userId else u,
        if data.blk.curCount = -1 ∨ data.blk.curCount = 1 then data.blk.preId else p,
        if data.blk.curCount = -2 then data.blk.preId else x⟩ := by
  have hguard : ¬ (u ≠ 0 ∧ u ≠ uint32 data.blk.userId) := fun h => hu.elim h.1 h.2
  unfold write
  rw [if_neg hguard]
  by_cases h1 : data.blk.curCount = -1
  · have hbig : ¬ uint32 data.blk.curCount ≤ UInt32.ofNat recordPerBlock := by
      rw [h1]
      decide
    rw [if_pos h1, if_neg hbig, if_pos (Or.inl h1), if_neg (by rw [h1]; decide)]
  rw [if_neg h1]
  by_cases h2 : data.blk.curCount = -2
  · have hbig : ¬ uint32 data.blk.curCount ≤ UInt32.ofNat recordPerBlock := by
      rw [h2]
      decide
    have hpre : ¬ (data.blk.curCount = -1 ∨ data.blk.curCount = 1) := by
      rw [h2]
      decide
    rw [if_pos h2, if_neg hbig, if_neg hpre, if_pos h2]
  · simp only [if_neg h2, h1, false_or]

/-- A block in memory is found as it is. -/
theorem find_loaded (u : UInt32) (p x : BlockId) :
    find data ⟨true, u, p, x⟩ = ⟨true, u, p, x⟩ := if_neg fun h => by cases h.2

theorem find_find (data : FeedItemBlockInfo) (s : HeadSlot) :
    find data (find data s) = find data s := by
  have hloaded : (find data s).loaded = true := by
    unfold find
    split <;> rfl
  generalize find data s = t at hloaded ⊢
  obtain ⟨loaded, u, p, x⟩ := t
  obtain rfl : loaded = true := hloaded
  exact find_loaded u p x

/-- A record of the user of a block sets the components of its head. -/
theorem step_mine (hu : u = 0 ∨ u = user) (p x : BlockId) (huser : 0 ≤ data.item.feed →
      data.blk.id = id ∨ data.blk.curCount = 1 ∧ data.blk.preId = id →
      uint32 data.blk.userId = user) :
    step id ⟨true, u, p, x⟩ data =
      ⟨true, setUser id user u data, setPre id p data, setNext id x data⟩ := by
  unfold step setUser setPre setNext
  by_cases hfeed : data.item.feed < 0
  · have hneg : ¬ 0 ≤ data.item.feed := by omega
    simp only [if_pos hfeed, hneg, false_and, if_false]
  have hpos : 0 ≤ data.item.feed := by omega
  simp only [if_neg hfeed, hpos, true_and]
  -- the put
  have hput : (if data.blk.id = id then write data (find data ⟨true, u, p, x⟩)
      else (⟨true, u, p, x⟩ : HeadSlot)) =
      ⟨true, if data.blk.id = id ∧ uint32 data.blk.curCount ≤ UInt32.ofNat recordPerBlock then
          user else u,
        if data.blk.id = id ∧ (data.blk.curCount = -1 ∨ data.blk.curCount = 1) then
          data.blk.preId else p,
        if data.blk.id = id ∧ data.blk.curCount = -2 then data.blk.preId else x⟩ := by
    by_cases hid : data.blk.id = id
    · have hmine := huser hpos (Or.inl hid)
      rw [if_pos hid, find_loaded, write_own (by rw [hmine]; exact hu), hmine]
      simp only [hid, true_and]
    · simp only [hid, false_and, if_false]
  rw [hput]
  generalize hown : (if data.blk.id = id ∧
    uint32 data.blk.curCount ≤ UInt32.ofNat recordPerBlock then user else u) = v
  have hv : v = 0 ∨ v = user := by
    rw [← hown]
    split
    · exact Or.inr rfl
    · exact hu
  -- the pointer to the block after
  by_cases hlink : data.blk.curCount = 1 ∧ data.blk.preId = id ∧ id.isNone = false
  · have hmine := huser hpos (Or.inr ⟨hlink.1, hlink.2.1⟩)
    have hwrite := @write_own (specialRecord 0 data.blk.userId (-2) id data.blk.id) v
      (by rw [← hmine] at hv; exact hv)
    have h3 : ¬ (data.blk.curCount = -3 ∧ data.blk.id = id) := by
      rintro ⟨h, -⟩
      rw [hlink.1] at h
      exact absurd h (by decide)
    rw [if_pos hlink, if_neg h3, if_pos hlink, hwrite]
    rfl
  · rw [if_neg hlink, if_neg hlink]
    split <;> rfl

/-- A record of another user does nothing to a head. -/
theorem step_other (h0 : u ≠ 0) (hu : u ≠ user) (p x : BlockId) (huser : 0 ≤ data.item.feed →
      data.blk.id = id ∨ data.blk.curCount = 1 ∧ data.blk.preId = id →
      uint32 data.blk.userId = user) : step id ⟨true, u, p, x⟩ data = ⟨true, u, p, x⟩ := by
  unfold step
  by_cases hfeed : data.item.feed < 0
  · rw [if_pos hfeed]
  have hpos : 0 ≤ data.item.feed := by omega
  have hput : (if data.blk.id = id then write data (find data ⟨true, u, p, x⟩)
      else (⟨true, u, p, x⟩ : HeadSlot)) = ⟨true, u, p, x⟩ := by
    by_cases hid : data.blk.id = id
    · rw [if_pos hid, find_loaded]
      exact if_pos ⟨h0, by rw [huser hpos (Or.inl hid)]; exact hu⟩
    · rw [if_neg hid]
  rw [if_neg hfeed, hput]
  by_cases hlink : data.blk.curCount = 1 ∧ data.blk.preId = id ∧ id.isNone = false
  · have hmine := huser hpos (Or.inr ⟨hlink.1, hlink.2.1⟩)
    have hwrite : write (specialRecord 0 data.blk.userId (-2) id data.blk.id) ⟨true, u, p, x⟩ =
        ⟨true, u, p, x⟩ := if_pos ⟨h0, by rw [← hmine] at hu; exact hu⟩
    dsimp only
    rw [if_pos hlink, hwrite]
    split <;> rfl
  · dsimp only
    rw [if_neg hlink]
    split <;> rfl

/-- A record leaves the head of the block alone, reads the block, or begins with an empty one. -/
theorem loads_step (id : BlockId) (data : FeedItemBlockInfo) :
    Loads (fun s => s.loaded = true) fun s => step id s data := by
  unfold step
  by_cases hfeed : data.item.feed < 0
  · simp only [if_pos hfeed]
    exact Or.inl fun s => rfl
  simp only [if_neg hfeed]
  by_cases hid : data.blk.id = id
  · refine Or.inr fun s => ⟨s.find data, ?_, ?_⟩
    · unfold find
      split <;> rfl
    · simp only [if_pos hid, find_find]
  · have h3 : ¬ (data.blk.curCount = -3 ∧ data.blk.id = id) := fun h => hid h.2
    simp only [if_neg hid, if_neg h3]
    by_cases hlink : data.blk.curCount = 1 ∧ data.blk.preId = id ∧ id.isNone = false
    · refine Or.inr fun s => ⟨{ s with loaded := true }, rfl, ?_⟩
      simp only [if_pos hlink]
    · exact Or.inl fun s => if_neg hlink

/-- **A log of one user that takes nothing out of a block leaves its head the same the second
time.** -/
theorem again_headSlot (huser : OneUser id user records) : Again (step id) records := by
  refine again_of_loaded (fun r _ => loads_step id r) ?_
  rintro ⟨loaded, u, p, x⟩ rfl
  by_cases hmine : u = 0 ∨ u = user
  · -- each component is set to a value of the record's own or left alone
    have hfold : ∀ (l : List FeedItemBlockInfo), OneUser id user l → ∀ (u : UInt32) (p x : BlockId),
        u = 0 ∨ u = user → l.foldl (step id) ⟨true, u, p, x⟩ =
          ⟨true, l.foldl (setUser id user) u, l.foldl (setPre id) p, l.foldl (setNext id) x⟩ ∧
        (l.foldl (setUser id user) u = 0 ∨ l.foldl (setUser id user) u = user) := by
      intro l hl
      induction l with
      | nil => exact fun u p x hu => ⟨rfl, hu⟩
      | cons r l ih =>
          intro u p x hu
          have hset : setUser id user u r = 0 ∨ setUser id user u r = user := by
            unfold setUser
            split
            · exact Or.inr rfl
            · exact hu
          simp only [List.foldl_cons, step_mine hu p x (hl r List.mem_cons_self)]
          exact ih (fun r' hr' => hl r' (List.mem_cons_of_mem r hr')) _ _ _ hset
    obtain ⟨honce, hset⟩ := hfold records huser u p x hmine
    have hsetUser : Setter fun u => records.foldl (setUser id user) u :=
      .foldl (fun r => Setter.ite _ user (Or.inl fun _ => rfl)) records
    have hsetPre : Setter fun p => records.foldl (setPre id) p :=
      .foldl (fun r => Setter.ite _ r.blk.preId (Or.inl fun _ => rfl)) records
    have hsetNext : Setter fun x => records.foldl (setNext id) x :=
      .foldl (fun r => Setter.ite _ r.blk.id (Setter.ite _ r.blk.preId (Or.inl fun _ => rfl)))
        records
    rw [honce, (hfold records huser _ _ _ hset).1, hsetUser.idem, hsetPre.idem, hsetNext.idem]
  · push Not at hmine
    have hsame : records.foldl (step id) ⟨true, u, p, x⟩ = ⟨true, u, p, x⟩ := by
      induction records with
      | nil => rfl
      | cons r records ih =>
          rw [List.foldl_cons, step_other hmine.1 hmine.2 p x (huser r List.mem_cons_self)]
          exact ih fun r' hr' => huser r' (List.mem_cons_of_mem r hr')
    rw [hsame, hsame]

end HeadSlot

/-! ## The node after the start-up -/

/-- Each block is handed at most 63 feeds, those it holds among them. -/
def Node.RoomFor (n : Node) (records : List FeedItemBlockInfo) : Prop :=
  ∀ id, ∃ feeds : List ℤ, feeds.length ≤ recordPerBlock ∧
    (∀ x ∈ (n.view id).items, x.feed ∈ feeds) ∧
    ∀ r ∈ records, WritesTo id r → r.item.feed ∈ feeds

theorem mem_repeated {r : FeedItemBlockInfo} (j : ℕ)
    (h : r ∈ old ++ (List.replicate (j + 1) new).flatten) : r ∈ old ++ new := by
  rcases List.mem_append.mp h with hr | hr
  · exact List.mem_append_left _ hr
  · obtain ⟨l, hl, hr⟩ := List.mem_flatten.mp hr
    rw [List.eq_of_mem_replicate hl] at hr
    exact List.mem_append_right _ hr

/-- **The slots of a block.** -/
theorem slot_repeated (hfile : id.fileId ∈ n.files) (hin : InFile id) (hnames : NamesUser id new)
    (hroom : n.RoomFor (old ++ new)) (j : ℕ) (feed : ℤ) :
    (n.restore (old ++ (List.replicate (j + 1) new).flatten)).slot id feed =
      (n.restore (old ++ new)).slot id feed := by
  obtain ⟨feeds, hlen, hheld, hrec⟩ := hroom id
  have hkeys : n.KeysIn id feeds := by
    intro feed hne
    obtain ⟨x, hx⟩ := Option.ne_none_iff_exists'.mp hne
    obtain ⟨hmem, rfl⟩ := mem_of_lookup hx
    exact hheld x hmem
  have hrepeated := (slot_restore hfile hin hlen hkeys fun r hr hid hins =>
    hrec r (mem_repeated j hr) ⟨hid, hins⟩).1 feed
  have honce := (slot_restore hfile hin hlen hkeys fun r hr hid hins => hrec r hr ⟨hid, hins⟩).1 feed
  rw [hrepeated, honce, List.foldl_append, List.foldl_append, (again_slot hnames feed).replicate]

/-- **The head of a block that nothing is taken out of.** -/
theorem headSlot_repeated (old : List FeedItemBlockInfo) (hfile : id.fileId ∈ n.files)
    (hin : InFile id) (huser : OneUser id user new) (hkeeps : RemovesNothing id new) (j : ℕ) :
    (n.restore (old ++ (List.replicate (j + 1) new).flatten)).headSlot id =
      (n.restore (old ++ new)).headSlot id := by
  have hsplit : ∀ l, n.restore (old ++ l) = (n.restore old).restore l := by
    intro l
    unfold restore
    rw [List.foldl_append]
  have hfileOld := files_restore n old hfile
  have hkeepsAll : RemovesNothing id (List.replicate (j + 1) new).flatten := fun r hr => by
    obtain ⟨l, hl, hr⟩ := List.mem_flatten.mp hr
    rw [List.eq_of_mem_replicate hl] at hr
    exact hkeeps r hr
  rw [hsplit, hsplit, headSlot_restore hfileOld hin hkeepsAll, headSlot_restore hfileOld hin hkeeps,
    (HeadSlot.again_headSlot huser).replicate]

/-- **A start-up that was cut off any number of times.** Replaying what it reads gives every
block of a located file the owner and the items that `.log.old` followed by `.log` give it, and
if `.log` takes nothing out of the block and the records of its head are of one user, the same
pointers. -/
theorem merge_tolerates_crashes (n : Node) (log : Option (List FeedItemBlockInfo))
    (old : List FeedItemBlockInfo) (crashes : List ℕ)
    (hnames : ∀ id, NamesUser id (log.getD [])) (hroom : n.RoomFor (old ++ log.getD []))
    {id : BlockId} (hfile : id.fileId ∈ n.files) (hin : InFile id) :
    let merged := (n.restore ((⟨log, some old⟩ : LogDir).initAfter crashes)).view id
    let once := (n.restore (old ++ log.getD [])).view id
    merged.head.userId = once.head.userId ∧ merged.items = once.items ∧
      ∀ user, OneUser id user (log.getD []) → RemovesNothing id (log.getD []) →
        merged.pre = once.pre ∧ merged.next = once.next := by
  obtain ⟨j, hinit⟩ := LogDir.initAfter_eq log old crashes
  rw [hinit]
  generalize log.getD [] = new at hnames hroom
  have hslot := slot_repeated hfile hin (hnames id) hroom j
  refine ⟨congrArg Slot.user (hslot 0), ?_, fun user huser hkeeps => ?_⟩
  · exact Block.items_eq_of_find fun feed => congrArg Slot.item (hslot feed)
  · have hhead := headSlot_repeated old hfile hin huser hkeeps j
    exact ⟨congrArg HeadSlot.pre hhead, congrArg HeadSlot.next hhead⟩

/-- The node of file 1, never written, with an empty memory. -/
def emptyNode : Node := .started [1] (fun _ => .zeroed) (fun _ => []) fun _ => []

theorem merge_tolerates_crashes_putsAndRemoval :
    ((emptyNode.restore ((⟨some putsAndRemoval, some putsAndRemoval⟩ : LogDir).initAfter
        [1, 0, 2])).view ⟨1, 0⟩).items =
      ((emptyNode.restore (putsAndRemoval ++ putsAndRemoval)).view ⟨1, 0⟩).items := by
  have husers : ∀ r ∈ putsAndRemoval, uint32 r.blk.userId ≠ 0 := by decide
  have hfeeds : ∀ r ∈ putsAndRemoval ++ putsAndRemoval, r.item.feed ∈ [5, 6, -5] := by decide
  have hroom : emptyNode.RoomFor (putsAndRemoval ++ putsAndRemoval) := fun id =>
    ⟨[5, 6, -5], by decide, fun x hx => absurd hx List.not_mem_nil, fun r hr _ => hfeeds r hr⟩
  exact (merge_tolerates_crashes emptyNode (some putsAndRemoval) putsAndRemoval [1, 0, 2]
    (fun _ r hr _ => husers r hr) hroom (List.mem_singleton_self 1) (by decide)).2.1

/-- The first record of a block of user 7. -/
def startingRecord : FeedItemBlockInfo := ⟨⟨5, 0, 0, 0, 0, 0⟩, ⟨0, 7, 1, 1, 1, 0, 0, -1, 0⟩⟩

/-- A next pointer for the block, and the removal of its item. -/
def pointerAndRemoval : List FeedItemBlockInfo :=
  [specialRecord 0 7 (-2) ⟨1, 0⟩ ⟨2, 0⟩, specialRecord (-5) 7 0 ⟨1, 0⟩ ⟨0, 0⟩]

/-- Pointers of two users, and an item of the first. -/
def pointersOfTwo : List FeedItemBlockInfo :=
  [specialRecord 0 7 (-1) ⟨1, 0⟩ ⟨1, 1⟩, specialRecord 0 8 (-1) ⟨1, 0⟩ ⟨1, 2⟩,
    ⟨⟨5, 0, 0, 0, 0, 0⟩, ⟨0, 7, 2, 2, 1, 0, 0, -1, 0⟩⟩]

/-- Records of user 0 lose an item; a block that a removal empties keeps the next pointer it was
given; of two users' pointers the first one wins; an item that is put again is counted again. Each
time one start died after the append. -/
theorem merge_changes_blocks :
    ((emptyNode.restore ((⟨some ownerlessRecords, some []⟩ : LogDir).initAfter [1])).view
        ⟨1, 0⟩).items ≠
      ((emptyNode.restore ([] ++ ownerlessRecords)).view ⟨1, 0⟩).items ∧
    ((emptyNode.restore ((⟨some pointerAndRemoval, some [startingRecord]⟩ : LogDir).initAfter
        [1])).view ⟨1, 0⟩).next ≠
      ((emptyNode.restore ([startingRecord] ++ pointerAndRemoval)).view ⟨1, 0⟩).next ∧
    ((emptyNode.restore ((⟨some pointersOfTwo, some []⟩ : LogDir).initAfter [1])).view
        ⟨1, 0⟩).pre ≠
      ((emptyNode.restore ([] ++ pointersOfTwo)).view ⟨1, 0⟩).pre ∧
    ((emptyNode.restore ((⟨some putsAndRemoval, some []⟩ : LogDir).initAfter [1])).view
        ⟨1, 0⟩).head.totalCount ≠
      ((emptyNode.restore ([] ++ putsAndRemoval)).view ⟨1, 0⟩).head.totalCount := by
  decide +kernel

end Oce.FeedDB
