import Mathlib.Data.List.Basic
import Mathlib.Data.List.Count
import Oce.Buddy.Model.Manager

/-!
# What the loader makes of the rows

`RowsSay db a b r` is what the rows keyed by `(a, b)` say, and `RowsShow` takes the rows of
both orders together. A user is loaded with exactly the relations that his rows show
(`shows_create_loaded`), but for `biBlock`, of which he is loaded with `block`: that list is always
loaded empty (`biblock_create`), and all rows of the other direction are duplicates
(`count_le_cleanupRows`).
-/

set_option autoImplicit false

namespace Oce.Buddy

open Oce.Base

/-- The relation as the other user sees it. -/
def BuddyDesc.mirror : BuddyDesc → BuddyDesc
  | .apply => .applied
  | .applied => .apply
  | .block => .blocked
  | .blocked => .block
  | d => d

/-- The relation that the loader makes of the rows of a relation. -/
def BuddyDesc.loaded : BuddyDesc → BuddyDesc
  | .biBlock => .block
  | d => d

@[simp] theorem BuddyDesc.mirror_mirror (d : BuddyDesc) : d.mirror.mirror = d := by
  cases d <;> rfl

namespace BuddyDatabase

/-- The rows with `a` in the first key column and `b` in the second. -/
structure RowsSay (db : BuddyDatabase) (a b : ℤ) (desc : BuddyDesc) : Prop where
  block : (a, b) ∈ db.block ↔ desc = .block ∨ desc = .biBlock
  friend : (a, b) ∈ db.friend ↔ desc = .friend
  applicant : (a, b) ∈ db.applicant ↔ desc = .apply
  accepter : (a, b) ∈ db.accepter ↔ desc = .apply

/-- The rows of a pair describe the relation that `a` has to `b`. -/
def RowsShow (db : BuddyDatabase) (a b : ℤ) (desc : BuddyDesc) : Prop :=
  db.RowsSay a b desc ∧ db.RowsSay b a desc.mirror

theorem RowsShow.symm {db : BuddyDatabase} {a b : ℤ} {desc : BuddyDesc}
    (h : db.RowsShow a b desc) : db.RowsShow b a desc.mirror := by
  refine ⟨h.2, ?_⟩
  rw [BuddyDesc.mirror_mirror]
  exact h.1

end BuddyDatabase

/-! ## Queries -/

section Query

variable {total : AscSeq ℤ} {tos : List ℤ} {h : BuddyResultHandler} {x y : ℤ}

theorem mem_totalbuilding_handle :
    x ∈ (h.handle y).totalbuilding ↔ x ∈ h.totalbuilding ∨ x = y := by
  unfold BuddyResultHandler.handle
  split
  · rename_i hy
    constructor
    · exact Or.inl
    · rintro (hx | rfl)
      · exact hx
      · exact hy
  · rw [AscSeq.mem_insert, or_comm]

/-- A user is built once. -/
theorem mem_building_handle :
    x ∈ (h.handle y).building ↔ x ∈ h.building ∨ x = y ∧ x ∉ h.totalbuilding := by
  unfold BuddyResultHandler.handle
  split
  · rename_i hy
    constructor
    · exact Or.inl
    · rintro (hx | ⟨rfl, hnot⟩)
      · exact hx
      · exact absurd hy hnot
  · rename_i hy
    rw [AscSeq.mem_insert]
    constructor
    · rintro (rfl | hx)
      · exact Or.inr ⟨rfl, hy⟩
      · exact Or.inl hx
    · rintro (hx | ⟨rfl, -⟩)
      · exact Or.inr hx
      · exact Or.inl rfl

theorem count_duplicates_handle : (h.handle y).duplicates.count x =
    h.duplicates.count x + if x = y ∧ x ∈ h.totalbuilding then 1 else 0 := by
  unfold BuddyResultHandler.handle
  split
  · rename_i hy
    rw [List.count_append, List.count_singleton]
    by_cases hxy : x = y
    · subst hxy
      simp [hy]
    · simp [hxy, Ne.symm hxy]
  · rename_i hy
    have hnot : ¬ (x = y ∧ x ∈ h.totalbuilding) := by
      rintro ⟨rfl, hx⟩
      exact hy hx
    rw [if_neg hnot, Nat.add_zero]

theorem mem_totalbuilding_foldl (tos : List ℤ) (h : BuddyResultHandler) :
    x ∈ (tos.foldl .handle h).totalbuilding ↔ x ∈ h.totalbuilding ∨ x ∈ tos := by
  induction tos generalizing h with
  | nil => simp
  | cons y tos ih =>
      rw [List.foldl_cons, ih, mem_totalbuilding_handle, List.mem_cons, or_assoc]

theorem mem_building_foldl (tos : List ℤ) (h : BuddyResultHandler) :
    x ∈ (tos.foldl .handle h).building ↔ x ∈ h.building ∨ x ∈ tos ∧ x ∉ h.totalbuilding := by
  induction tos generalizing h with
  | nil => simp
  | cons y tos ih =>
      rw [List.foldl_cons, ih, mem_building_handle, mem_totalbuilding_handle, List.mem_cons]
      by_cases hxy : x = y
      · simp [hxy]
      · simp [hxy]

/-- How often the loader notes a duplicate. -/
theorem count_duplicates_foldl (tos : List ℤ) (h : BuddyResultHandler) :
    (tos.foldl .handle h).duplicates.count x + (if x ∈ tos ∧ x ∉ h.totalbuilding then 1 else 0) =
      h.duplicates.count x + tos.count x := by
  induction tos generalizing h with
  | nil => simp
  | cons y tos ih =>
      have hih := ih (h.handle y)
      simp only [mem_totalbuilding_handle, count_duplicates_handle] at hih
      rw [List.foldl_cons, List.count_cons]
      by_cases hxy : x = y
      · subst hxy
        by_cases hx : x ∈ h.totalbuilding
        · simp only [hx, and_self, true_or, not_true_eq_false, and_false, if_true, if_false] at hih
          simp only [hx, not_true_eq_false, and_false, if_false, beq_self_eq_true, if_true]
          omega
        · simp only [hx, and_false, or_true, not_true_eq_false, if_false] at hih
          simp only [hx, List.mem_cons_self, not_false_eq_true, and_true, if_true, beq_self_eq_true]
          omega
      · have hyx : (y == x) = false := by simpa using Ne.symm hxy
        simp only [hxy, false_and, or_false, if_false, Nat.add_zero] at hih
        simp only [List.mem_cons, hxy, false_or, hyx, if_false, Nat.add_zero, Bool.false_eq_true]
        exact hih

theorem mem_totalbuilding_queryIds :
    x ∈ (queryIds total tos).totalbuilding ↔ x ∈ total ∨ x ∈ tos :=
  mem_totalbuilding_foldl tos _

theorem mem_building_queryIds : x ∈ (queryIds total tos).building ↔ x ∈ tos ∧ x ∉ total := by
  unfold queryIds
  rw [mem_building_foldl]
  simp

/-- All but the first row of an id that was not seen before are duplicates. -/
theorem count_duplicates_queryIds (hx : x ∉ total) :
    (queryIds total tos).duplicates.count x = tos.count x - 1 := by
  have hcount := count_duplicates_foldl (x := x) tos ⟨total, AscSeq.empty, []⟩
  simp only [hx, not_false_eq_true, and_true, List.count_nil] at hcount
  unfold queryIds
  by_cases hmem : x ∈ tos
  · rw [if_pos hmem] at hcount
    omega
  · rw [if_neg hmem] at hcount
    rw [List.count_eq_zero_of_not_mem hmem] at hcount ⊢
    omega

/-- All rows of an id that was seen before are duplicates. -/
theorem count_duplicates_queryIds_of_mem (hx : x ∈ total) :
    (queryIds total tos).duplicates.count x = tos.count x := by
  have hcount := count_duplicates_foldl (x := x) tos ⟨total, AscSeq.empty, []⟩
  simp only [hx, not_true_eq_false, and_false, if_false, List.count_nil] at hcount
  unfold queryIds
  omega

theorem mem_of_mem_duplicates (hx : x ∈ (queryIds total tos).duplicates) : x ∈ tos := by
  have hcount := count_duplicates_foldl (x := x) tos ⟨total, AscSeq.empty, []⟩
  have hpos : 0 < (queryIds total tos).duplicates.count x := List.count_pos_iff.mpr hx
  unfold queryIds at hpos
  rw [List.count_nil] at hcount
  exact List.count_pos_iff.mp (by omega)

end Query

namespace BuddyDatabase

variable {db : BuddyDatabase} {id x : ℤ} {desc : BuddyDesc}

theorem mem_guestsOf {rows : Rows} : x ∈ guestsOf rows id ↔ (id, x) ∈ rows := by
  unfold guestsOf
  simp

theorem mem_hostsOf {rows : Rows} : x ∈ hostsOf rows id ↔ (x, id) ∈ rows := by
  unfold hostsOf
  simp

theorem count_guestsOf (rows : Rows) : (guestsOf rows id).count x = rows.count (id, x) := by
  induction rows with
  | nil => rfl
  | cons row rows ih =>
      obtain ⟨a, b⟩ := row
      unfold guestsOf at ih ⊢
      by_cases ha : a = id
      · subst ha
        by_cases hb : b = x
        · subst hb
          simp [ih]
        · simp [ih, hb]
      · have hne : (a, b) ≠ (id, x) := fun he => ha (Prod.mk.inj he).1
        simp [ih, ha, hne]

theorem count_hostsOf (rows : Rows) : (hostsOf rows id).count x = rows.count (x, id) := by
  induction rows with
  | nil => rfl
  | cons row rows ih =>
      obtain ⟨a, b⟩ := row
      unfold hostsOf at ih ⊢
      by_cases hb : b = id
      · subst hb
        by_cases ha : a = x
        · subst ha
          simp [ih]
        · simp [ih, ha]
      · have hne : (a, b) ≠ (x, id) := fun he => hb (Prod.mk.inj he).2
        simp [ih, hb, hne]

/-! ## The holder that is loaded -/

/-- A user in the block list is not looked for in the blocked list any more. -/
theorem blockIntersection_eq_nil : db.blockIntersection id = [] := by
  unfold blockIntersection
  rw [List.filter_eq_nil_iff]
  intro y hy
  have hblock : y ∈ (db.blockQuery id).building := hy
  have hguest := (mem_building_queryIds.mp hblock).1
  have hnot : y ∉ (db.blockedQuery id).building := by
    intro hmem
    exact (mem_building_queryIds.mp hmem).2 (mem_totalbuilding_queryIds.mpr (Or.inr hguest))
  simpa using hnot

theorem create_eq : db.create id = {
    friends := (db.friendQuery id).building
    apply := (db.applyQuery id).building
    applied := (db.appliedQuery id).building
    block := (db.blockQuery id).building
    blocked := (db.blockedQuery id).building
    biblock := AscSeq.empty } := by
  unfold create
  rw [blockIntersection_eq_nil]
  rfl

/-- **The biblock list is loaded empty.** -/
theorem biblock_create : (db.create id).biblock = AscSeq.empty := by
  rw [create_eq]

/-- **What a user is loaded with.** -/
theorem shows_create_loaded (h : db.RowsShow id x desc) (hself : desc ≠ .self) :
    (db.create id).Shows x desc.loaded := by
  obtain ⟨⟨hblock, hfriend, happlicant, -⟩, ⟨hblock', -, -, haccepter'⟩⟩ := h
  have hb : x ∈ (db.blockQuery id).building ↔ desc = .block ∨ desc = .biBlock := by
    unfold blockQuery
    rw [mem_building_queryIds, mem_guestsOf, hblock]
    simp
  have htb : x ∈ (db.blockQuery id).totalbuilding ↔ desc = .block ∨ desc = .biBlock := by
    unfold blockQuery
    rw [mem_totalbuilding_queryIds, mem_guestsOf, hblock]
    simp
  have hbd : x ∈ (db.blockedQuery id).building ↔ desc = .blocked := by
    unfold blockedQuery
    rw [mem_building_queryIds, mem_hostsOf, hblock', htb]
    cases desc <;> simp_all [BuddyDesc.mirror]
  have htbd : x ∈ (db.blockedQuery id).totalbuilding ↔
      desc = .block ∨ desc = .biBlock ∨ desc = .blocked := by
    unfold blockedQuery
    rw [mem_totalbuilding_queryIds, mem_hostsOf, hblock', htb]
    cases desc <;> simp_all [BuddyDesc.mirror]
  have hf : x ∈ (db.friendQuery id).building ↔ desc = .friend := by
    unfold friendQuery
    rw [mem_building_queryIds, mem_guestsOf, hfriend, htbd]
    cases desc <;> simp_all
  have htf : x ∈ (db.friendQuery id).totalbuilding ↔
      (desc = .block ∨ desc = .biBlock ∨ desc = .blocked) ∨ desc = .friend := by
    unfold friendQuery
    rw [mem_totalbuilding_queryIds, mem_guestsOf, hfriend, htbd]
  have had : x ∈ (db.appliedQuery id).building ↔ desc = .applied := by
    unfold appliedQuery
    rw [mem_building_queryIds, mem_hostsOf, haccepter', htf]
    cases desc <;> simp_all [BuddyDesc.mirror]
  have htad : x ∈ (db.appliedQuery id).totalbuilding ↔
      ((desc = .block ∨ desc = .biBlock ∨ desc = .blocked) ∨ desc = .friend) ∨ desc = .applied := by
    unfold appliedQuery
    rw [mem_totalbuilding_queryIds, mem_hostsOf, haccepter', htf]
    cases desc <;> simp_all [BuddyDesc.mirror]
  have ha : x ∈ (db.applyQuery id).building ↔ desc = .apply := by
    unfold applyQuery
    rw [mem_building_queryIds, mem_guestsOf, happlicant, htad]
    cases desc <;> simp_all
  intro d hd
  rw [create_eq]
  cases d with
  | noPath => exact absurd rfl hd
  | self =>
      refine iff_of_false (AscSeq.not_mem_empty x) ?_
      cases desc <;> simp_all [BuddyDesc.loaded]
  | friend => exact hf.trans (by cases desc <;> simp [BuddyDesc.loaded])
  | apply => exact ha.trans (by cases desc <;> simp [BuddyDesc.loaded])
  | applied => exact had.trans (by cases desc <;> simp [BuddyDesc.loaded])
  | block => exact hb.trans (by cases desc <;> simp [BuddyDesc.loaded])
  | blocked => exact hbd.trans (by cases desc <;> simp [BuddyDesc.loaded])
  | biBlock =>
      refine iff_of_false (AscSeq.not_mem_empty x) ?_
      cases desc <;> simp [BuddyDesc.loaded]

theorem shows_create (h : db.RowsShow id x desc) (hself : desc ≠ .self) (hbi : desc ≠ .biBlock) :
    (db.create id).Shows x desc := by
  have hloaded : desc.loaded = desc := by
    cases desc <;> simp_all [BuddyDesc.loaded]
  have hshows := shows_create_loaded h hself
  rwa [hloaded] at hshows

/-! ## The rows of the cleanup -/

theorem mem_duplicates_blockedQuery (h : x ∈ (db.blockedQuery id).duplicates) :
    (x, id) ∈ db.block :=
  mem_hostsOf.mp (mem_of_mem_duplicates h)

/-- **Of two users who block each other a load of the one has all rows of the other deleted.** -/
theorem count_le_cleanupRows (h : (id, x) ∈ db.block) :
    db.block.count (x, id) ≤ (db.cleanupRows id).count (x, id) := by
  have hmem : x ∈ (db.blockQuery id).totalbuilding :=
    mem_totalbuilding_queryIds.mpr (Or.inr (mem_guestsOf.mpr h))
  have hcount : (db.blockedQuery id).duplicates.count x = db.block.count (x, id) := by
    unfold blockedQuery
    rw [count_duplicates_queryIds_of_mem hmem, count_hostsOf]
  have hinj : Function.Injective fun toId : ℤ => (toId, id) := fun _ _ he => (Prod.mk.inj he).1
  unfold cleanupRows
  rw [List.count_append, ← hcount, ← List.count_map_of_injective _ _ hinj x]
  exact Nat.le_add_left _ _

/-- The user and nobody else block each other. -/
def Unpaired (db : BuddyDatabase) (id : ℤ) : Prop :=
  ∀ x, x ≠ id → (id, x) ∈ db.block → (x, id) ∉ db.block

/-- Who is unpaired is related to nobody else by `biBlock`. -/
theorem RowsShow.ne_biBlock {a b : ℤ} (h : db.RowsShow a b desc) (hab : a ≠ b)
    (hid : a = id ∨ b = id) (hunpaired : db.Unpaired id) : desc ≠ .biBlock := by
  rintro rfl
  have hone : (a, b) ∈ db.block := h.1.block.mpr (Or.inr rfl)
  have hother : (b, a) ∈ db.block := h.2.block.mpr (Or.inr rfl)
  rcases hid with rfl | rfl
  · exact hunpaired b hab.symm hone hother
  · exact hunpaired a hab hother hone

/-- **The loaded holder of an unpaired user shows the relation.** -/
theorem shows_create_of_unpaired {a b : ℤ} (h : db.RowsShow a b desc) (hself : desc ≠ .self)
    (hab : a = b → desc = .noPath) (hunpaired : db.Unpaired a) : (db.create a).Shows b desc := by
  refine shows_create h hself ?_
  by_cases he : a = b
  · rw [hab he]
    decide
  · exact h.ne_biBlock he (Or.inl rfl) hunpaired

/-- No row between two users has all its copies among the scheduled ones. -/
def Outlasts (block scheduled : Rows) : Prop :=
  ∀ row ∈ block, row.1 ≠ row.2 → scheduled.count row < block.count row

instance (block scheduled : Rows) : Decidable (Outlasts block scheduled) :=
  inferInstanceAs (Decidable (∀ row ∈ block, _))

/-- **Who is loaded is unpaired**, if the rows outlast what is scheduled in the end. -/
theorem Outlasts.unpaired {block scheduled : Rows} (h : Outlasts block scheduled)
    (hscheduled : (db.cleanupRows id).Sublist scheduled)
    (hblock : ∀ b, b ≠ id → block.count (b, id) = db.block.count (b, id)) : db.Unpaired id := by
  intro b hb hone hback
  have hmem : (b, id) ∈ block := by
    rw [← List.count_pos_iff, hblock b hb]
    exact List.count_pos_iff.mpr hback
  have hlt := h (b, id) hmem hb
  rw [hblock b hb] at hlt
  have hall := count_le_cleanupRows hone
  have hle := hscheduled.count_le (b, id)
  omega

end BuddyDatabase

end Oce.Buddy
