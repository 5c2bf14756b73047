import Oce.Buddy.Analysis.Loader
import Oce.Buddy.Model.Database
import Mathlib.Data.List.Count

/-!
# Each counterpart in one list

Of two block rows of a pair the loader takes the second for a duplicate of the first. So a pair that
blocks each other is never found to, and one of its rows is deleted. A row that stands twice has one
of its copies deleted for every load, so two loads before the deletes run lose it. Without both, the
loader classifies every counterpart, and no delete touches a row of the user.
-/

set_option autoImplicit false

namespace Oce.Buddy

open Oce.Base

namespace BuddyDatabase

variable {db db' : BuddyDatabase} {id x u : ℤ} {row : ℤ × ℤ}

/-! ## The classes -/

/-- The first table that names the counterpart, the block rows of both directions first. -/
def classOf (db : BuddyDatabase) (id x : ℤ) : BuddyDesc :=
  if (id, x) ∈ db.block ∧ (x, id) ∈ db.block then .biBlock
  else if (id, x) ∈ db.block then .block
  else if (x, id) ∈ db.block then .blocked
  else if (id, x) ∈ db.friend then .friend
  else if (x, id) ∈ db.accepter then .applied
  else if (id, x) ∈ db.applicant then .apply
  else .noPath

/-- Every counterpart is in the list of its class, and in no other. -/
structure Classifies (r : BuddyRelation) (db : BuddyDatabase) (id : ℤ) : Prop where
  biblock : ∀ x, x ∈ r.biblock ↔ db.classOf id x = .biBlock
  block : ∀ x, x ∈ r.block ↔ db.classOf id x = .block
  blocked : ∀ x, x ∈ r.blocked ↔ db.classOf id x = .blocked
  friends : ∀ x, x ∈ r.friends ↔ db.classOf id x = .friend
  applied : ∀ x, x ∈ r.applied ↔ db.classOf id x = .applied
  apply : ∀ x, x ∈ r.apply ↔ db.classOf id x = .apply

theorem classOf_eq_biBlock : db.classOf id x = .biBlock ↔ (id, x) ∈ db.block ∧ (x, id) ∈ db.block := by
  unfold classOf
  simp only [ite_eq_iff, reduceCtorEq, and_false, or_false, and_true]

theorem classOf_eq_block : db.classOf id x = .block ↔ (id, x) ∈ db.block ∧ (x, id) ∉ db.block := by
  unfold classOf
  simp only [ite_eq_iff, reduceCtorEq, and_false, or_false, false_or, and_true]
  tauto

theorem classOf_eq_blocked : db.classOf id x = .blocked ↔ (x, id) ∈ db.block ∧ (id, x) ∉ db.block := by
  unfold classOf
  simp only [ite_eq_iff, reduceCtorEq, and_false, or_false, false_or, and_true]
  tauto

theorem classOf_eq_friend : db.classOf id x = .friend ↔
    (id, x) ∈ db.friend ∧ ¬((id, x) ∈ db.block ∨ (x, id) ∈ db.block) := by
  unfold classOf
  simp only [ite_eq_iff, reduceCtorEq, and_false, or_false, false_or, and_true]
  tauto

theorem classOf_eq_applied : db.classOf id x = .applied ↔ (x, id) ∈ db.accepter ∧
    ¬(((id, x) ∈ db.block ∨ (x, id) ∈ db.block) ∨ (id, x) ∈ db.friend) := by
  unfold classOf
  simp only [ite_eq_iff, reduceCtorEq, and_false, or_false, false_or, and_true]
  tauto

theorem classOf_eq_apply : db.classOf id x = .apply ↔ (id, x) ∈ db.applicant ∧
    ¬((((id, x) ∈ db.block ∨ (x, id) ∈ db.block) ∨ (id, x) ∈ db.friend) ∨ (x, id) ∈ db.accepter) := by
  unfold classOf
  simp only [ite_eq_iff, reduceCtorEq, and_false, or_false, false_or, and_true]
  tauto

/-! ## The queries -/

theorem mem_blockQuery : x ∈ (db.blockQuery id).building ↔ (id, x) ∈ db.block := by
  unfold blockQuery
  rw [mem_building_queryIds, mem_guestsOf]
  simp

theorem mem_total_blockQuery : x ∈ (db.blockQuery id).totalbuilding ↔ (id, x) ∈ db.block := by
  unfold blockQuery
  rw [mem_totalbuilding_queryIds, mem_guestsOf]
  simp

theorem mem_blockedQuery :
    x ∈ (db.blockedQuery id).building ↔ (x, id) ∈ db.block ∧ (id, x) ∉ db.block := by
  unfold blockedQuery
  rw [mem_building_queryIds, mem_hostsOf, mem_total_blockQuery]

theorem mem_total_blockedQuery :
    x ∈ (db.blockedQuery id).totalbuilding ↔ (id, x) ∈ db.block ∨ (x, id) ∈ db.block := by
  unfold blockedQuery
  rw [mem_totalbuilding_queryIds, mem_hostsOf, mem_total_blockQuery]

theorem mem_friendQuery : x ∈ (db.friendQuery id).building ↔
    (id, x) ∈ db.friend ∧ ¬((id, x) ∈ db.block ∨ (x, id) ∈ db.block) := by
  unfold friendQuery
  rw [mem_building_queryIds, mem_guestsOf, mem_total_blockedQuery]

theorem mem_total_friendQuery : x ∈ (db.friendQuery id).totalbuilding ↔
    ((id, x) ∈ db.block ∨ (x, id) ∈ db.block) ∨ (id, x) ∈ db.friend := by
  unfold friendQuery
  rw [mem_totalbuilding_queryIds, mem_guestsOf, mem_total_blockedQuery]

theorem mem_appliedQuery : x ∈ (db.appliedQuery id).building ↔
    (x, id) ∈ db.accepter ∧ ¬(((id, x) ∈ db.block ∨ (x, id) ∈ db.block) ∨ (id, x) ∈ db.friend) := by
  unfold appliedQuery
  rw [mem_building_queryIds, mem_hostsOf, mem_total_friendQuery]

theorem mem_applyQuery : x ∈ (db.applyQuery id).building ↔ (id, x) ∈ db.applicant ∧
    ¬((((id, x) ∈ db.block ∨ (x, id) ∈ db.block) ∨ (id, x) ∈ db.friend) ∨ (x, id) ∈ db.accepter) := by
  unfold applyQuery appliedQuery
  rw [mem_building_queryIds, mem_guestsOf, mem_totalbuilding_queryIds, mem_hostsOf, mem_total_friendQuery]

/-- The user and the counterpart do not block each other. -/
def OneSided (db : BuddyDatabase) (id : ℤ) : Prop := ∀ x, ¬((id, x) ∈ db.block ∧ (x, id) ∈ db.block)

/-- **Where no two block each other, the loader classifies everyone.** -/
theorem classifies_create (h : db.OneSided id) : Classifies (db.create id) db id := by
  rw [create_eq]
  constructor
  · intro x
    rw [classOf_eq_biBlock]
    exact iff_of_false (AscSeq.not_mem_empty x) (h x)
  · intro x
    rw [mem_blockQuery, classOf_eq_block]
    exact ⟨fun hmem => ⟨hmem, fun hback => h x ⟨hmem, hback⟩⟩, fun hmem => hmem.1⟩
  · exact fun x => by rw [mem_blockedQuery, classOf_eq_blocked]
  · exact fun x => by rw [mem_friendQuery, classOf_eq_friend]
  · exact fun x => by rw [mem_appliedQuery, classOf_eq_applied]
  · exact fun x => by rw [mem_applyQuery, classOf_eq_apply]

/-- Where two block each other, the loader does not. -/
theorem not_classifies_create (h : ¬db.OneSided id) : ¬Classifies (db.create id) db id := by
  unfold OneSided at h
  push Not at h
  obtain ⟨x, hboth⟩ := h
  intro hclass
  have hmem := (hclass.biblock x).mpr (classOf_eq_biBlock.mpr hboth)
  rw [biblock_create] at hmem
  exact AscSeq.not_mem_empty x hmem

/-! ## The scheduled rows -/

theorem fst_injective (id : ℤ) : Function.Injective fun toId : ℤ => (id, toId) :=
  fun _ _ he => (Prod.mk.inj he).2

theorem snd_injective (id : ℤ) : Function.Injective fun toId : ℤ => (toId, id) :=
  fun _ _ he => (Prod.mk.inj he).1

/-- The copies of a row of the user that a load of the user has deleted: all but one. -/
theorem le_count_cleanupRows : db.block.count (id, x) - 1 ≤ (db.cleanupRows id).count (id, x) := by
  have hcount : (db.blockQuery id).duplicates.count x = db.block.count (id, x) - 1 := by
    unfold blockQuery
    rw [count_duplicates_queryIds (AscSeq.not_mem_empty x), count_guestsOf]
  unfold cleanupRows
  rw [List.count_append, ← hcount, ← List.count_map_of_injective _ _ (fst_injective id) x]
  exact Nat.le_add_right _ _

theorem le_count_cleanupRows_snd (h : (id, x) ∉ db.block) :
    db.block.count (x, id) - 1 ≤ (db.cleanupRows id).count (x, id) := by
  have hcount : (db.blockedQuery id).duplicates.count x = db.block.count (x, id) - 1 := by
    unfold blockedQuery
    rw [count_duplicates_queryIds (by rwa [mem_total_blockQuery]), count_hostsOf]
  unfold cleanupRows
  rw [List.count_append, ← hcount, ← List.count_map_of_injective _ _ (snd_injective id) x]
  exact Nat.le_add_left _ _

/-- The row is one of the user's. -/
def Names (id : ℤ) (row : ℤ × ℤ) : Prop := row.1 = id ∨ row.2 = id

/-- No block row of the user stands twice. -/
def Single (db : BuddyDatabase) (id : ℤ) : Prop := ∀ row, Names id row → db.block.count row ≤ 1

/-- **A load deletes a row only where the row stands twice or its pair blocks each other.** -/
theorem mem_cleanupRows (h : row ∈ db.cleanupRows u) :
    1 < db.block.count row ∨ row ∈ db.block ∧ (row.2, row.1) ∈ db.block := by
  unfold cleanupRows at h
  obtain h | h := List.mem_append.mp h
  · obtain ⟨x, hx, rfl⟩ := List.mem_map.mp h
    left
    have hcount : (db.blockQuery u).duplicates.count x = db.block.count (u, x) - 1 := by
      unfold blockQuery
      rw [count_duplicates_queryIds (AscSeq.not_mem_empty x), count_guestsOf]
    have hpos := List.count_pos_iff.mpr hx
    omega
  · obtain ⟨x, hx, rfl⟩ := List.mem_map.mp h
    by_cases hboth : (u, x) ∈ db.block
    · exact .inr ⟨mem_duplicates_blockedQuery hx, hboth⟩
    · left
      have hcount : (db.blockedQuery u).duplicates.count x = db.block.count (x, u) - 1 := by
        unfold blockedQuery
        rw [count_duplicates_queryIds (by rwa [mem_total_blockQuery]), count_hostsOf]
      have hpos := List.count_pos_iff.mpr hx
      omega

end BuddyDatabase

/-! ## Runs -/

namespace CleanupState

open BuddyDatabase

variable {db : BuddyDatabase} {id : ℤ} {s : CleanupState}

/-- The rows of the user are those of the database at the beginning, and none of them is scheduled. -/
structure Spares (db : BuddyDatabase) (id : ℤ) (s : CleanupState) : Prop where
  block : ∀ row, Names id row → s.db.block.count row = db.block.count row
  friend : s.db.friend = db.friend
  applicant : s.db.applicant = db.applicant
  accepter : s.db.accepter = db.accepter
  scheduled : ∀ row ∈ s.scheduled, ¬Names id row

theorem Spares.mem_iff (h : Spares db id s) {row : ℤ × ℤ} (hrow : Names id row) :
    row ∈ s.db.block ↔ row ∈ db.block := by
  rw [← List.count_pos_iff, ← List.count_pos_iff, h.block row hrow]

theorem Spares.classOf_eq (h : Spares db id s) (x : ℤ) : s.db.classOf id x = db.classOf id x := by
  unfold classOf
  rw [h.friend, h.applicant, h.accepter]
  simp only [h.mem_iff (Or.inl rfl : Names id (id, x)), h.mem_iff (Or.inr rfl : Names id (x, id))]

/-- A scheduled statement has nothing to run, or deletes its row. -/
theorem step_delete (s : CleanupState) (place : ℕ) : s.step (.delete place) =
    match s.scheduled[place]? with
    | none => s
    | some row => ⟨{ s.db with block := s.db.block.erase row }, s.scheduled.eraseIdx place⟩ := rfl

/-- No event touches the rows of a user who has none twice and blocks nobody who blocks back. -/
theorem Spares.step (hone : db.OneSided id) (hsingle : db.Single id) (h : Spares db id s)
    (ev : CleanupEvent) : Spares db id (s.step ev) := by
  cases ev with
  | create u =>
      refine ⟨h.block, h.friend, h.applicant, h.accepter, fun row hrow => ?_⟩
      obtain hrow | hrow := List.mem_append.mp hrow
      · exact h.scheduled row hrow
      · intro hnames
        obtain hcount | ⟨hmem, hback⟩ := mem_cleanupRows hrow
        · have hle := hsingle row hnames
          rw [h.block row hnames] at hcount
          omega
        · have hnames' : Names id (row.2, row.1) := hnames.symm
          rw [h.mem_iff hnames] at hmem
          rw [h.mem_iff hnames'] at hback
          obtain ⟨a, b⟩ := row
          obtain rfl | rfl := hnames
          · exact hone b ⟨hmem, hback⟩
          · exact hone a ⟨hback, hmem⟩
  | delete place =>
      rw [step_delete]
      cases hget : s.scheduled[place]? with
      | none => exact h
      | some row =>
          have hnot := h.scheduled row (List.mem_of_getElem? hget)
          refine ⟨fun row' hrow' => ?_, h.friend, h.applicant, h.accepter, fun row' hrow' => ?_⟩
          · have hne : row' ≠ row := fun heq => hnot (heq ▸ hrow')
            change (s.db.block.erase row).count row' = _
            rw [List.count_erase_of_ne hne]
            exact h.block row' hrow'
          · exact h.scheduled row' (List.mem_of_mem_eraseIdx hrow')

theorem Spares.run (hone : db.OneSided id) (hsingle : db.Single id) (h : Spares db id s)
    (evs : List CleanupEvent) : Spares db id (s.run evs) := by
  unfold CleanupState.run
  induction evs generalizing s with
  | nil => exact h
  | cons ev evs ih => exact ih (h.step hone hsingle ev)

/-- The statements that are scheduled, run one after the other. -/
theorem run_deletes (s : CleanupState) :
    (s.run (List.replicate s.scheduled.length (.delete 0))).db.block =
      s.scheduled.foldl List.erase s.db.block := by
  obtain ⟨db, scheduled⟩ := s
  unfold CleanupState.run
  induction scheduled generalizing db with
  | nil => rfl
  | cons row scheduled ih => exact ih { db with block := db.block.erase row }

theorem count_foldl_erase_rows (rows block : List (ℤ × ℤ)) (row : ℤ × ℤ) :
    (rows.foldl List.erase block).count row = block.count row - rows.count row := by
  induction rows generalizing block with
  | nil => rfl
  | cons r rows ih =>
      rw [List.foldl_cons, ih, List.count_erase, List.count_cons]
      by_cases heq : r = row
      · simp [heq]
        omega
      · simp [heq]

/-- Two loads of a user, and the deletes of both behind them. -/
theorem count_two_loads (db : BuddyDatabase) (id : ℤ) (row : ℤ × ℤ)
    (hcount : db.block.count row - 1 ≤ (db.cleanupRows id).count row) :
    ∃ evs, ((CleanupState.mk db []).run evs).db.block.count row ≤ 2 - db.block.count row := by
  refine ⟨[.create id, .create id] ++
    List.replicate (db.cleanupRows id ++ db.cleanupRows id).length (.delete 0), ?_⟩
  have hrun : (CleanupState.mk db []).run ([.create id, .create id] ++
      List.replicate (db.cleanupRows id ++ db.cleanupRows id).length (.delete 0)) =
      (CleanupState.mk db (db.cleanupRows id ++ db.cleanupRows id)).run
        (List.replicate (db.cleanupRows id ++ db.cleanupRows id).length (.delete 0)) := by
    unfold CleanupState.run
    rw [List.foldl_append]
    rfl
  have hdeletes := run_deletes (CleanupState.mk db (db.cleanupRows id ++ db.cleanupRows id))
  rw [hrun, hdeletes, count_foldl_erase_rows, List.count_append]
  dsimp only
  omega

/-- In every run, each load of the user classifies what the tables had at the beginning. -/
def AlwaysClassifies (db : BuddyDatabase) (id : ℤ) : Prop :=
  ∀ evs, Classifies (((CleanupState.mk db []).run evs).db.create id) db id

/-- **A user is loaded right, and stays so, exactly when nobody blocks the user back and no block
row of the user stands twice.** -/
theorem alwaysClassifies_iff (db : BuddyDatabase) (id : ℤ) :
    AlwaysClassifies db id ↔ db.OneSided id ∧ db.Single id := by
  constructor
  · intro h
    have hone : db.OneSided id := by
      by_contra hnot
      exact not_classifies_create hnot (h [])
    refine ⟨hone, ?_⟩
    rintro ⟨a, b⟩ hnames
    by_contra htwice
    have hmem : (a, b) ∈ db.block := List.count_pos_iff.mp (by omega)
    obtain rfl | rfl : a = id ∨ b = id := hnames
    · have hback : (b, a) ∉ db.block := fun hback => hone b ⟨hmem, hback⟩
      obtain ⟨evs, hcount⟩ := count_two_loads db a (a, b) le_count_cleanupRows
      have hstill := ((h evs).block b).mpr (classOf_eq_block.mpr ⟨hmem, hback⟩)
      rw [create_eq, mem_blockQuery, ← List.count_pos_iff] at hstill
      omega
    · have hback : (b, a) ∉ db.block := fun hback => hone a ⟨hback, hmem⟩
      obtain ⟨evs, hcount⟩ := count_two_loads db b (a, b) (le_count_cleanupRows_snd hback)
      have hstill := ((h evs).blocked a).mpr (classOf_eq_blocked.mpr ⟨hmem, hback⟩)
      rw [create_eq, mem_blockedQuery, ← List.count_pos_iff] at hstill
      omega
  · rintro ⟨hone, hsingle⟩ evs
    have hspares := Spares.run hone hsingle (s := ⟨db, []⟩)
      ⟨fun _ _ => rfl, rfl, rfl, rfl, fun _ hrow => absurd hrow List.not_mem_nil⟩ evs
    have hone' : (((CleanupState.mk db []).run evs).db).OneSided id := by
      intro x hboth
      rw [hspares.mem_iff (.inl rfl), hspares.mem_iff (.inr rfl)] at hboth
      exact hone x hboth
    have hclass := classifies_create hone'
    constructor
    · exact fun x => by rw [hclass.biblock, hspares.classOf_eq]
    · exact fun x => by rw [hclass.block, hspares.classOf_eq]
    · exact fun x => by rw [hclass.blocked, hspares.classOf_eq]
    · exact fun x => by rw [hclass.friends, hspares.classOf_eq]
    · exact fun x => by rw [hclass.applied, hspares.classOf_eq]
    · exact fun x => by rw [hclass.apply, hspares.classOf_eq]

/-- Two users who block each other. -/
theorem mutual_block_unclassified : ¬∀ db id, AlwaysClassifies db id := by
  intro h
  refine not_classifies_create ?_ (h ⟨[(1, 2), (2, 1)], [], [], []⟩ 1 [])
  intro hone
  exact hone 2 (by decide)

end CleanupState

end Oce.Buddy
