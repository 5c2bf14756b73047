import Oce.FeedGroup.Model.UnreadPool

/-!
# Read marks across reloads

`Marks` is what the operations set: for each current member the last read feed and the reply
count. The memory of a fresh group always has the marks, and a reload gets them back where the
table has them, so it all hangs on the rows (`PoolInv`): a member without unsaved changes has
its marks in its row.

Two things break that, and `KeepsMarks` excludes them. A counter is born with the changed flag
set, and a write takes out the row of every changed member whose count is not made yet and
whose reply count is zero: the row that has just been loaded, with the last read feed in it.
And a call that finds the group stale drops what the timer has not written yet.
-/

set_option autoImplicit false

namespace Oce.FeedGroup

open Oce.Base

/-! ## What the operations set -/

/-- The last read feed and the reply count of each member. -/
abbrev Marks := ℤ → Option (ℤ × ℤ)

/-- The marks after an operation. -/
def PoolOp.setMarks (marks : Marks) : PoolOp → Marks
  | addFeed item => fun m =>
    (marks m).map fun e => (if e.1 ≤ 0 ∧ item.actor ≠ m then item.id - 1 else e.1, e.2)
  | readAllFeed memberId maxFeed => fun m =>
    (marks m).map fun e => if m = memberId then (maxFeed, 0) else e
  | removeAllFeed => fun m => (marks m).map fun e => (-1, e.2)
  | replyFeed replier => fun m => (marks m).map fun e => if replier ≠ m then (e.1, e.2 + 1) else e
  | addMember memberId => fun m => if m = memberId then some ((marks m).getD (-1, 0)) else marks m
  | removeMember memberId => fun m => if m = memberId then none else marks m
  | locate => marks
  | writeDB => marks
  | pass _ => marks

namespace UnreadPool

/-- A member's row, and without one the defaults of a load. -/
def row (s : UnreadPool) (m : ℤ) : ℤ × ℤ := (s.table.find m).getD (-1, 0)

/-- The members in memory. -/
def entries (s : UnreadPool) : List (ℤ × MemberUnread) :=
  match s.group with
  | none => []
  | some g => g.members.entries

/-- The marks of a member in memory. -/
def memory (s : UnreadPool) : Marks := fun m =>
  s.group.bind fun g => (g.members.find m).map MemberUnread.marks

/-- The marks that the tables hold. -/
def stored (s : UnreadPool) : Marks := fun m => if m ∈ s.minigroup then some (s.row m) else none

/-- The members with changes that their rows do not have. -/
def unsaved (s : UnreadPool) : List ℤ :=
  (s.entries.filter fun e => e.2.changed ∧ s.row e.1 ≠ e.2.marks).map Prod.fst

end UnreadPool

namespace PoolOp

/-- A write takes out no row with a last read feed in it; a call that loads the group again
finds every remaining member's changes written, and no old row of a member that joins. -/
def KeepsMarks (s : UnreadPool) : PoolOp → Prop
  | writeDB => ∀ e ∈ s.entries, e.2.Dropped → e.2.maxReadFeed = -1
  | pass _ => True
  | op => s.findGroup = none →
      (∀ m ∈ s.unsaved, m ∉ op.minigroup s) ∧
        ∀ m ∈ (op.minigroup s).vals, m ∉ s.minigroup → s.row m = (-1, 0)

instance (s : UnreadPool) (op : PoolOp) : Decidable (op.KeepsMarks s) := by
  cases op <;> unfold KeepsMarks <;> infer_instance

/-- What a later `LocateGroup` finds is what the operations have set. -/
def MarksSurvive (s : UnreadPool) (ops : List PoolOp) : Prop :=
  ∀ m, (runOps step s (ops ++ [locate])).memory m = runOps setMarks s.stored ops m

end PoolOp

/-! ## Loading -/

variable {s : UnreadPool} {marks marks' : Marks} {g : GroupUnreadInfo} {m : ℤ} {u : MemberUnread}

@[simp] theorem marks_new (count maxRead replyCnt : ℤ) :
    (MemberUnread.new count maxRead replyCnt).marks = (maxRead, replyCnt) := rfl

theorem find_addMember (g : GroupUnreadInfo) (j m maxRead replyCnt : ℤ) :
    (g.addMember j maxRead replyCnt).members.find m =
      if m = j then some ((g.members.find m).getD (.new (-1) maxRead replyCnt))
      else g.members.find m := by
  unfold GroupUnreadInfo.addMember
  rw [OrdMap.find_insertNew]
  by_cases hm : m = j
  · simp [hm]
  · simp [hm]

/-- The rows of those in the set are taken, each once, and leave the set. -/
theorem foldl_loadRow (rows : List (ℤ × ℤ × ℤ)) (acc : GroupUnreadInfo × AscSeq ℤ)
    (hacc : ∀ m ∈ acc.2, acc.1.members.find m = none) (m : ℤ) :
    ((rows.foldl UnreadPool.loadRow acc).1.members.find m =
        if m ∈ acc.2 then (OrdMap.findEntry m rows).map fun e => .new (-1) e.1 e.2
        else acc.1.members.find m) ∧
      (m ∈ (rows.foldl UnreadPool.loadRow acc).2 ↔ m ∈ acc.2 ∧ OrdMap.findEntry m rows = none) := by
  induction rows generalizing acc with
  | nil =>
      refine ⟨?_, by simp [OrdMap.findEntry]⟩
      by_cases hm : m ∈ acc.2
      · simp [hm, hacc m hm, OrdMap.findEntry]
      · simp [hm]
  | cons row rows ih =>
      rw [List.foldl_cons, OrdMap.findEntry]
      by_cases hrow : row.1 ∈ acc.2
      · have hstep : UnreadPool.loadRow acc row =
            (acc.1.addMember row.1 row.2.1 row.2.2, acc.2.eraseAll row.1) := if_pos hrow
        rw [hstep]
        have hnext := ih (acc.1.addMember row.1 row.2.1 row.2.2, acc.2.eraseAll row.1) (by
          intro j hj
          obtain ⟨hj, hne⟩ := AscSeq.mem_eraseAll.mp hj
          rw [find_addMember, if_neg hne]
          exact hacc j hj)
        simp only [AscSeq.mem_eraseAll, find_addMember] at hnext
        by_cases hm : m = row.1
        · subst hm
          simpa [hrow, hacc _ hrow] using hnext
        · simpa [hm] using hnext
      · have hstep : UnreadPool.loadRow acc row = acc := if_neg hrow
        rw [hstep]
        have hnext := ih acc hacc
        by_cases hm : m = row.1
        · subst hm
          simpa [hrow] using hnext
        · simpa [hm] using hnext

theorem foldl_addMember (l : List ℤ) (g : GroupUnreadInfo) (m : ℤ) :
    (l.foldl (fun g memberId => g.addMember memberId (-1) 0) g).members.find m =
      (g.members.find m).or (if m ∈ l then some (.new (-1) (-1) 0) else none) := by
  induction l generalizing g with
  | nil => simp
  | cons j l ih =>
      rw [List.foldl_cons, ih, find_addMember]
      by_cases hm : m = j
      · subst hm
        cases g.members.find m <;> simp
      · simp [hm]

/-- **A load takes every member of the minigroup with its row.** -/
theorem find_loadGroup (s : UnreadPool) (m : ℤ) :
    s.loadGroup.members.find m =
      if m ∈ s.minigroup then some (.new (-1) (s.row m).1 (s.row m).2) else none := by
  obtain ⟨hfind, hleft⟩ := foldl_loadRow s.table.entries (.new s.now, s.minigroup)
    (fun _ _ => rfl) m
  unfold UnreadPool.loadGroup
  dsimp only
  rw [AscSeq.mem_def] at hleft
  rw [foldl_addMember, hfind]
  simp only [hleft]
  have hrow : OrdMap.findEntry m s.table.entries = s.table.find m := rfl
  rw [hrow]
  unfold UnreadPool.row
  by_cases hm : m ∈ s.minigroup
  · cases s.table.find m <;> simp [hm]
  · simp [hm, GroupUnreadInfo.new]

/-! ## The invariant -/

/-- The minigroup has the members; memory has the marks, and a row has those of a member
without unsaved changes. -/
structure PoolInv (s : UnreadPool) (marks : Marks) : Prop where
  minigroup : ∀ m, m ∈ s.minigroup ↔ (marks m).isSome
  unloaded : s.group = none → marks = s.stored
  memory : ∀ g, s.group = some g → ∀ m, (g.members.find m).map MemberUnread.marks = marks m
  clean : ∀ g, s.group = some g → ∀ m u, g.members.find m = some u → u.changed = false →
    s.row m = u.marks

/-- A pool that has loaded nothing has the marks of its tables. -/
theorem PoolInv.start (hs : s.group = none) : PoolInv s s.stored where
  minigroup m := by
    unfold UnreadPool.stored
    by_cases hm : m ∈ s.minigroup <;> simp [hm]
  unloaded _ := rfl
  memory g hg := by rw [hs] at hg; cases hg
  clean g hg := by rw [hs] at hg; cases hg

theorem mem_unsaved (hg : s.group = some g) :
    m ∈ s.unsaved ↔ ∃ u, g.members.find m = some u ∧ u.changed = true ∧ s.row m ≠ u.marks := by
  unfold UnreadPool.unsaved UnreadPool.entries
  rw [hg, List.mem_map]
  constructor
  · rintro ⟨e, he, rfl⟩
    obtain ⟨he, hu⟩ := List.mem_filter.mp he
    exact ⟨e.2, g.members.mem_entries_iff.mp he, of_decide_eq_true hu⟩
  · rintro ⟨u, hu, hc⟩
    exact ⟨(m, u), List.mem_filter.mpr ⟨g.members.mem_entries_iff.mpr hu, decide_eq_true hc⟩, rfl⟩

/-- A member whose changes are written has its marks in its row. -/
theorem PoolInv.row_eq (hi : PoolInv s marks) (hm : m ∈ s.minigroup) (hs : m ∉ s.unsaved) :
    marks m = some (s.row m) := by
  cases hg : s.group with
  | none =>
      rw [hi.unloaded hg]
      exact if_pos hm
  | some g =>
      have hmarks := hi.memory g hg m
      obtain ⟨e, he⟩ := Option.isSome_iff_exists.mp ((hi.minigroup m).mp hm)
      rw [he, Option.map_eq_some_iff] at hmarks
      obtain ⟨u, hu, rfl⟩ := hmarks
      rw [he]
      cases hc : u.changed with
      | false => rw [hi.clean g hg m u hu hc]
      | true =>
          by_contra hne
          exact hs ((mem_unsaved hg).mpr ⟨u, hu, hc, fun h => hne (by rw [h])⟩)

/-- The group that a call works on. -/
structure Located (s : UnreadPool) (marks : Marks) (minigroup : AscSeq ℤ) (g : GroupUnreadInfo) :
    Prop where
  stays : ∀ m, (m ∈ minigroup ↔ m ∈ s.minigroup) →
    (g.members.find m).map MemberUnread.marks = marks m
  joins : ∀ m ∈ minigroup, m ∉ s.minigroup →
    g.members.find m = none ∨ (g.members.find m).map MemberUnread.marks = some (-1, 0)
  clean : ∀ m u, g.members.find m = some u → u.changed = false → s.row m = u.marks

/-- **Locating a group keeps the marks.** -/
theorem PoolInv.located (hi : PoolInv s marks) (minigroup : AscSeq ℤ)
    (hc : s.findGroup = none → (∀ m ∈ s.unsaved, m ∉ minigroup) ∧
      ∀ m ∈ minigroup.vals, m ∉ s.minigroup → s.row m = (-1, 0)) :
    Located s marks minigroup ({ s with minigroup := minigroup } : UnreadPool).locateGroup := by
  have hfind : ({ s with minigroup := minigroup } : UnreadPool).findGroup = s.findGroup := rfl
  unfold UnreadPool.locateGroup
  rw [hfind]
  cases hf : s.findGroup with
  | some g =>
      have hg : s.group = some g := (Option.filter_eq_some_iff.mp hf).1
      refine ⟨fun m _ => hi.memory g hg m, fun m _ hm => .inl ?_, hi.clean g hg⟩
      have hnone : marks m = none := by
        rw [← Option.not_isSome_iff_eq_none, ← hi.minigroup m]
        exact hm
      have hmarks := hi.memory g hg m
      rw [hnone, Option.map_eq_none_iff] at hmarks
      exact hmarks
  | none =>
      obtain ⟨hsaved, hjoin⟩ := hc hf
      have hload := find_loadGroup { s with minigroup := minigroup }
      refine ⟨fun m hm => ?_, fun m hm hnew => .inr ?_, fun m u hu hch => ?_⟩
      · rw [hload]
        by_cases hmem : m ∈ minigroup
        · have hunsaved : m ∉ s.unsaved := fun h => hsaved m h hmem
          rw [hi.row_eq (hm.mp hmem) hunsaved]
          simp [hmem, UnreadPool.row]
        · have hnone : marks m = none := by
            rw [← Option.not_isSome_iff_eq_none, ← hi.minigroup m]
            exact fun h => hmem (hm.mpr h)
          simp [hmem, hnone]
      · have hrow : ({ s with minigroup := minigroup } : UnreadPool).row m = (-1, 0) :=
          hjoin m hm hnew
        rw [hload, if_pos hm, hrow]
        rfl
      · rw [hload] at hu
        by_cases hmem : m ∈ minigroup
        · rw [if_pos hmem] at hu
          cases hu
          cases hch
        · rw [if_neg hmem] at hu
          cases hu

/-! ## Each operation -/

/-- A call that adjusts each member on its own. -/
theorem PoolInv.withGroup_map (hi : PoolInv s marks) {f : GroupUnreadInfo → GroupUnreadInfo}
    (adjust : ℤ → MemberUnread → MemberUnread) (set : ℤ → ℤ × ℤ → ℤ × ℤ)
    (hf : ∀ g m, (f g).members.find m = (g.members.find m).map (adjust m))
    (hset : ∀ m u, (adjust m u).marks = set m u.marks)
    (hch : ∀ m u, (adjust m u).changed = false → u.changed = false ∧ (adjust m u).marks = u.marks)
    (hc : s.findGroup = none → (∀ m ∈ s.unsaved, m ∉ s.minigroup) ∧
      ∀ m ∈ s.minigroup.vals, m ∉ s.minigroup → s.row m = (-1, 0)) :
    PoolInv (s.withGroup f) fun m => (marks m).map (set m) := by
  have hl : Located s marks s.minigroup s.locateGroup := hi.located s.minigroup hc
  refine ⟨fun m => ?_, fun h => ?_, fun g hg m => ?_, fun g hg m u hu hfalse => ?_⟩
  · rw [Option.isSome_map]
    exact hi.minigroup m
  · cases h
  · cases hg
    rw [hf, ← hl.stays m Iff.rfl, Option.map_map, Option.map_map]
    congr 1
    funext u
    exact hset m u
  · cases hg
    rw [hf, Option.map_eq_some_iff] at hu
    obtain ⟨v, hv, rfl⟩ := hu
    obtain ⟨hclean, hmarks⟩ := hch m v hfalse
    rw [hmarks]
    exact hl.clean m v hv hclean

/-- A call that only reads. -/
theorem PoolInv.locate (hi : PoolInv s marks) (hc : PoolOp.locate.KeepsMarks s) :
    PoolInv (PoolOp.locate.step s) marks := by
  have hl : Located s marks s.minigroup s.locateGroup := hi.located s.minigroup hc
  refine ⟨hi.minigroup, fun h => ?_, fun g hg m => ?_, fun g hg m u hu hfalse => ?_⟩
  · cases h
  · cases hg
    exact hl.stays m Iff.rfl
  · cases hg
    exact hl.clean m u hu hfalse

theorem find_readAllFeed (memberId maxFeed : ℤ) (g : GroupUnreadInfo) (m : ℤ) :
    (g.readAllFeed memberId maxFeed).members.find m =
      (g.members.find m).map fun u => if m = memberId then u.readAllFeed maxFeed else u := by
  unfold GroupUnreadInfo.readAllFeed
  split
  · rename_i hnone
    by_cases hm : m = memberId
    · simp [hm, hnone]
    · simp [hm]
  · rename_i u hu
    rw [OrdMap.find_insert]
    by_cases hm : m = memberId
    · simp [hm, hu]
    · simp [hm]

/-- A new member has the marks of its row. -/
theorem PoolInv.addMember (hi : PoolInv s marks) {j : ℤ} (hc : (PoolOp.addMember j).KeepsMarks s) :
    PoolInv (PoolOp.step s (.addMember j)) (PoolOp.setMarks marks (.addMember j)) := by
  have hl := hi.located (s.minigroup.insert j) hc
  have hother : ∀ m, m ≠ j → (m ∈ s.minigroup.insert j ↔ m ∈ s.minigroup) := by
    intro m hm
    simp [hm]
  refine ⟨fun m => ?_, fun h => ?_, fun g hg m => ?_, fun g hg m u hu hfalse => ?_⟩
  · show m ∈ s.minigroup.insert j ↔ _
    dsimp only [PoolOp.setMarks]
    by_cases hm : m = j
    · simp [hm]
    · simp [hm, hi.minigroup m]
  · cases h
  · cases hg
    rw [find_addMember]
    dsimp only [PoolOp.setMarks]
    by_cases hm : m = j
    · subst hm
      rw [if_pos rfl, if_pos rfl, Option.map_some]
      by_cases hmem : m ∈ s.minigroup
      · rw [← hl.stays m (by simp [hmem])]
        cases ({ s with minigroup := s.minigroup.insert m } : UnreadPool).locateGroup.members.find m <;>
          simp
      · have hnone : marks m = none := by
          rw [← Option.not_isSome_iff_eq_none, ← hi.minigroup m]
          exact hmem
        rw [hnone, Option.getD_none]
        rcases hl.joins m (by simp) hmem with hjoin | hjoin
        · simp [hjoin]
        · obtain ⟨u, hu, hmarks⟩ := Option.map_eq_some_iff.mp hjoin
          simp [hu, hmarks]
    · rw [if_neg hm, if_neg hm]
      exact hl.stays m (hother m hm)
  · cases hg
    rw [find_addMember] at hu
    by_cases hm : m = j
    · rw [if_pos hm, Option.some_inj] at hu
      cases hloc : ({ s with minigroup := s.minigroup.insert j } : UnreadPool).locateGroup.members.find
          m with
      | none =>
          rw [hloc] at hu
          subst hu
          cases hfalse
      | some v =>
          rw [hloc] at hu
          subst hu
          exact hl.clean m v hloc hfalse
    · rw [if_neg hm] at hu
      exact hl.clean m u hu hfalse

theorem PoolInv.removeMember (hi : PoolInv s marks) {j : ℤ}
    (hc : (PoolOp.removeMember j).KeepsMarks s) :
    PoolInv (PoolOp.step s (.removeMember j)) (PoolOp.setMarks marks (.removeMember j)) := by
  have hl := hi.located (s.minigroup.eraseAll j) hc
  refine ⟨fun m => ?_, fun h => ?_, fun g hg m => ?_, fun g hg m u hu hfalse => ?_⟩
  · show m ∈ s.minigroup.eraseAll j ↔ _
    dsimp only [PoolOp.setMarks]
    by_cases hm : m = j
    · simp [hm]
    · simp [hm, hi.minigroup m]
  · cases h
  · cases hg
    dsimp only [PoolOp.setMarks, GroupUnreadInfo.removeMember]
    rw [OrdMap.find_erase]
    by_cases hm : m = j
    · simp [hm]
    · rw [if_neg hm, if_neg hm]
      exact hl.stays m (by simp [hm])
  · cases hg
    unfold GroupUnreadInfo.removeMember at hu
    rw [OrdMap.find_erase] at hu
    by_cases hm : m = j
    · rw [if_pos hm] at hu
      cases hu
    · rw [if_neg hm] at hu
      exact hl.clean m u hu hfalse

/-! ## Writing back -/

theorem find_writeEntry (table : OrdMap ℤ (ℤ × ℤ)) (j : ℤ) (u : MemberUnread) (m : ℤ) :
    (UnreadPool.writeEntry table (j, u)).find m =
      if m = j ∧ u.changed = true then if u.Dropped then none else some u.marks
      else table.find m := by
  unfold UnreadPool.writeEntry
  by_cases hc : u.changed = true
  · by_cases hd : u.Dropped
    · by_cases hm : m = j <;> simp [hc, hd, hm, OrdMap.find_erase]
    · by_cases hm : m = j <;> simp [hc, hd, hm, OrdMap.find_insert]
  · simp [hc]

/-- The rows of the members that are not among the entries stay. -/
theorem foldl_writeEntry_other (l : List (ℤ × MemberUnread)) (table : OrdMap ℤ (ℤ × ℤ))
    (hm : m ∉ l.map Prod.fst) : (l.foldl UnreadPool.writeEntry table).find m = table.find m := by
  induction l generalizing table with
  | nil => rfl
  | cons e l ih =>
      rw [List.map_cons, List.mem_cons, not_or] at hm
      rw [List.foldl_cons, ih _ hm.2, find_writeEntry, if_neg fun h => hm.1 h.1]

/-- The row of a member that is among the entries. -/
theorem foldl_writeEntry (l : List (ℤ × MemberUnread)) (table : OrdMap ℤ (ℤ × ℤ))
    (hl : (l.map Prod.fst).Pairwise (· < ·)) (hu : (m, u) ∈ l) :
    (l.foldl UnreadPool.writeEntry table).find m =
      if u.changed = true then if u.Dropped then none else some u.marks else table.find m := by
  induction l generalizing table with
  | nil => cases hu
  | cons e l ih =>
      rw [List.map_cons, List.pairwise_cons] at hl
      rw [List.foldl_cons]
      rcases List.mem_cons.mp hu with rfl | hu
      · rw [foldl_writeEntry_other l _ fun h => lt_irrefl _ (hl.1 m h), find_writeEntry]
        simp
      · have hlt : e.1 < m := hl.1 m (List.mem_map.mpr ⟨_, hu, rfl⟩)
        rw [ih _ hl.2 hu, find_writeEntry, if_neg fun h : m = e.1 ∧ _ => hlt.ne' h.1]

/-- **A write that takes out no last read feed leaves every member's marks in its row.** -/
theorem PoolInv.writeDB (hi : PoolInv s marks) (hc : PoolOp.writeDB.KeepsMarks s) :
    PoolInv s.writeDB marks := by
  unfold UnreadPool.writeDB
  cases hg : s.group with
  | none => exact hi
  | some g =>
      refine ⟨hi.minigroup, fun h => ?_, fun g' hg' m => ?_, fun g' hg' m u hu _ => ?_⟩
      · cases h
      · cases hg'
        rw [OrdMap.find_map, Option.map_map, ← hi.memory g hg m]
        rfl
      · cases hg'
        rw [OrdMap.find_map, Option.map_eq_some_iff] at hu
        obtain ⟨v, hv, rfl⟩ := hu
        have hmem := g.members.mem_entries_iff.mpr hv
        have hfind := foldl_writeEntry g.members.entries s.table g.members.sorted hmem
        show (OrdMap.find (g.members.entries.foldl UnreadPool.writeEntry s.table) m).getD (-1, 0) =
          v.marks
        rw [hfind]
        by_cases hch : v.changed = true
        · by_cases hd : v.Dropped
          · have hread : v.maxReadFeed = -1 := by
              refine hc (m, v) ?_ hd
              unfold UnreadPool.entries
              rw [hg]
              exact hmem
            have hreply : v.replyCnt = 0 := hd.2.2
            simp [hch, hd, MemberUnread.marks, hread, hreply]
          · simp [hch, hd]
        · rw [if_neg hch]
          exact hi.clean g hg m v hv (Bool.not_eq_true _ ▸ hch)

/-! ## Runs -/

/-- **Every step that keeps the marks keeps the invariant.** -/
theorem PoolInv.step (hi : PoolInv s marks) (op : PoolOp) (hc : op.KeepsMarks s) :
    PoolInv (op.step s) (op.setMarks marks) := by
  cases op with
  | addFeed item =>
      refine hi.withGroup_map (MemberUnread.addFeed item) _ (fun g m => OrdMap.find_map _ _ m)
        (fun m u => rfl) (fun m u h => ?_) hc
      obtain ⟨hch, hno⟩ := Bool.or_eq_false_iff.mp h
      have hno : ¬ (u.maxReadFeed ≤ 0 ∧ item.actor ≠ m) := of_decide_eq_false hno
      refine ⟨hch, ?_⟩
      simp [MemberUnread.marks, MemberUnread.addFeed, UnreadCount.addFeed, hno]
  | readAllFeed j maxFeed =>
      refine hi.withGroup_map (fun m u => if m = j then u.readAllFeed maxFeed else u) _
        (fun g m => find_readAllFeed j maxFeed g m) (fun m u => ?_) (fun m u h => ?_) hc
      · show (if m = j then u.readAllFeed maxFeed else u).marks = if m = j then (maxFeed, 0) else u.marks
        split <;> rfl
      · by_cases hm : m = j
        · rw [if_pos hm] at h
          cases h
        · rw [if_neg hm] at h ⊢
          exact ⟨h, rfl⟩
  | removeAllFeed =>
      refine hi.withGroup_map (fun _ => MemberUnread.removeAllFeed) _
        (fun g m => OrdMap.find_map _ _ m) (fun m u => rfl) (fun m u h => ?_) hc
      cases h
  | replyFeed replier =>
      refine hi.withGroup_map (MemberUnread.replyFeed replier) _ (fun g m => OrdMap.find_map _ _ m)
        (fun m u => ?_) (fun m u h => ?_) hc
      · show (if replier ≠ m then _ else u : MemberUnread).marks =
          if replier ≠ m then (u.maxReadFeed, u.replyCnt + 1) else u.marks
        split <;> rfl
      · unfold MemberUnread.replyFeed at h ⊢
        by_cases hm : replier ≠ m
        · rw [if_pos hm] at h
          cases h
        · rw [if_neg hm] at h ⊢
          exact ⟨h, rfl⟩
  | addMember j => exact hi.addMember hc
  | removeMember j => exact hi.removeMember hc
  | locate => exact hi.locate hc
  | writeDB => exact hi.writeDB hc
  | pass seconds => exact ⟨hi.minigroup, hi.unloaded, hi.memory, hi.clean⟩

theorem PoolInv.run (hi : PoolInv s marks) {ops : List PoolOp}
    (h : StepsMeet PoolOp.step (fun s op => op.KeepsMarks s) s ops) :
    PoolInv (runOps PoolOp.step s ops) (runOps PoolOp.setMarks marks ops) := by
  induction ops generalizing s marks with
  | nil => exact hi
  | cons op ops ih => exact ih (hi.step op h.1) h.2

/-- **main result**: from a pool that has loaded nothing, if every write takes out no row with a
last read feed and no call finds unsaved changes in a stale group, the group that is located
after the run has the marks that the operations have set. -/
theorem PoolOp.marksSurvive_of_keepsMarks (s : UnreadPool) (hs : s.group = none)
    (ops : List PoolOp)
    (h : StepsMeet PoolOp.step (fun s op => op.KeepsMarks s) s (ops ++ [.locate])) :
    MarksSurvive s ops := by
  intro m
  have hrun := (PoolInv.start hs).run h
  have hmarks : runOps PoolOp.setMarks s.stored (ops ++ [.locate]) =
      runOps PoolOp.setMarks s.stored ops := runOps_append s.stored ops [.locate]
  rw [hmarks] at hrun
  have hgroup : (runOps PoolOp.step s (ops ++ [.locate])).group =
      some (runOps PoolOp.step s ops).locateGroup := by
    rw [runOps_append]
    rfl
  unfold UnreadPool.memory
  rw [hgroup]
  exact hrun.memory _ hgroup m

/-- A group with one member and no rows, and nothing loaded. -/
def UnreadPool.oneMember : UnreadPool := ⟨0, none, AscSeq.empty.insert 7, .empty⟩

/-- A read that is written in time is there after the reload. -/
theorem PoolOp.marksSurvive_of_keepsMarks_read :
    MarksSurvive .oneMember [.readAllFeed 7 10, .writeDB, .pass 3601] :=
  marksSurvive_of_keepsMarks .oneMember rfl [.readAllFeed 7 10, .writeDB, .pass 3601]
    (by decide)

/-- The read is written, loaded again an hour later, and taken out by the next write. -/
theorem PoolOp.loaded_mark_lost :
    ¬ MarksSurvive .oneMember
      [.readAllFeed 7 10, .writeDB, .pass 3601, .locate, .writeDB, .pass 3601] := by
  intro h
  have hseven := h 7
  revert hseven
  decide

end Oce.FeedGroup
