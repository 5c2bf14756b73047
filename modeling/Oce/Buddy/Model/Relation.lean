import Mathlib.Data.Int.Order.Basic
import Oce.Base.AscSeq

/-!
# The relations of a user

What `BuddyRelationHolders` keeps for one user: six sorted lists of the users he is related
to, and the record of the last update. The twelve list operations differ only in the list
they name, so they are one definition (`BuddyRelation.modify`) at different lists.
-/

set_option autoImplicit false


namespace Oce.Buddy

open Oce.Base

/-- SOURCE: BuddyCommon.ice, `BuddyDesc` -/
inductive BuddyDesc where
  | noPath
  | self
  | friend
  | apply
  | applied
  | block
  | blocked
  | biBlock
  deriving DecidableEq, Repr

/-- SOURCE: BuddyCommon.ice, `BuddyState` without the unused `ADDFRIEND` -/
inductive BuddyState where
  | nullState
  | addApply
  | acceptApply
  | denyApply
  | removeFriend
  | addBlock
  | removeBlock
  | checkError
  deriving DecidableEq, Repr

/-- The relation before and after an operation. SOURCE: BuddyCommon.ice, `OpState` -/
structure OpState where
  first : BuddyDesc
  second : BuddyDesc
  deriving DecidableEq, Repr

/-- SOURCE: BuddyCommon.ice, `Relationship` -/
structure Relationship where
  fromId : ℤ
  toId : ℤ
  deriving DecidableEq, Repr

/-- SOURCE: BuddyCommon.ice, `StateRecorder` -/
structure StateRecorder where
  lastid : ℤ
  laststate : BuddyState
  deriving DecidableEq, Repr

/-- The recorder of a holder that was loaded and not updated since. -/
def StateRecorder.null : StateRecorder := ⟨0, .nullState⟩

/-- SOURCE: BuddyCommon.ice, `BuddyRelation` -/
structure BuddyRelation where
  friends : AscSeq ℤ
  apply : AscSeq ℤ
  applied : AscSeq ℤ
  block : AscSeq ℤ
  blocked : AscSeq ℤ
  biblock : AscSeq ℤ
  deriving DecidableEq

/-- SOURCE: BuddyCommon.ice, `BuddyRelationHolders` -/
structure BuddyRelationHolders where
  hfrom : ℤ
  hbr : BuddyRelation
  hsr : StateRecorder
  deriving DecidableEq

namespace BuddyRelation

/-- Six empty lists. -/
def empty : BuddyRelation :=
  ⟨AscSeq.empty, AscSeq.empty, AscSeq.empty, AscSeq.empty, AscSeq.empty, AscSeq.empty⟩

/-- SOURCE: BuddyRelation.cpp:157-189 -/
def getBuddyList (r : BuddyRelation) : BuddyDesc → AscSeq ℤ
  | .apply => r.apply
  | .applied => r.applied
  | .friend => r.friends
  | .block => r.block
  | .blocked => r.blocked
  | .biBlock => r.biblock
  | .noPath | .self => AscSeq.empty

/-- A change of the list that `desc` names. -/
def modify (desc : BuddyDesc) (f : AscSeq ℤ → AscSeq ℤ) (r : BuddyRelation) : BuddyRelation :=
  match desc with
  | .apply => { r with apply := f r.apply }
  | .applied => { r with applied := f r.applied }
  | .friend => { r with friends := f r.friends }
  | .block => { r with block := f r.block }
  | .blocked => { r with blocked := f r.blocked }
  | .biBlock => { r with biblock := f r.biblock }
  | .noPath | .self => r

/-- SOURCE: BuddyRelation.cpp:27-37, 59-69 -/
def addSeq (desc : BuddyDesc) (toId : ℤ) (r : BuddyRelation) : BuddyRelation :=
  r.modify desc (AscSeq.insert toId)

/-- SOURCE: BuddyRelation.cpp:39-57 -/
def removeSeq (desc : BuddyDesc) (toId : ℤ) (r : BuddyRelation) : BuddyRelation :=
  r.modify desc (AscSeq.eraseAll toId)

/-! SOURCE: BuddyRelation.cpp:71-117 -/

def addApply (r : BuddyRelation) (toId : ℤ) : BuddyRelation := r.addSeq .apply toId
def removeApply (r : BuddyRelation) (toId : ℤ) : BuddyRelation := r.removeSeq .apply toId
def addApplied (r : BuddyRelation) (toId : ℤ) : BuddyRelation := r.addSeq .applied toId
def removeApplied (r : BuddyRelation) (toId : ℤ) : BuddyRelation := r.removeSeq .applied toId
def addFriend (r : BuddyRelation) (toId : ℤ) : BuddyRelation := r.addSeq .friend toId
def removeFriend (r : BuddyRelation) (toId : ℤ) : BuddyRelation := r.removeSeq .friend toId
def addBlock (r : BuddyRelation) (toId : ℤ) : BuddyRelation := r.addSeq .block toId
def removeBlock (r : BuddyRelation) (toId : ℤ) : BuddyRelation := r.removeSeq .block toId
def addBlocked (r : BuddyRelation) (toId : ℤ) : BuddyRelation := r.addSeq .blocked toId
def removeBlocked (r : BuddyRelation) (toId : ℤ) : BuddyRelation := r.removeSeq .blocked toId
def addBiBlock (r : BuddyRelation) (toId : ℤ) : BuddyRelation := r.addSeq .biBlock toId
def removeBiBlock (r : BuddyRelation) (toId : ℤ) : BuddyRelation := r.removeSeq .biBlock toId

/-- The six lists in the order of the enumeration. -/
def descs : List BuddyDesc := [.friend, .apply, .applied, .block, .blocked, .biBlock]

/-- How often `toId` occurs in the lists, and the last list it occurs in; in the one list
named, if one is named. SOURCE: BuddyRelation.cpp:207-264 -/
def getCount (r : BuddyRelation) (toId : ℤ) (desc : BuddyDesc) : ℕ × BuddyDesc :=
  if desc = .noPath then
    descs.foldl (fun acc k =>
      (acc.1 + (r.getBuddyList k).count toId, if (r.getBuddyList k).count toId ≠ 0 then k else acc.2))
      (0, .noPath)
  else ((r.getBuddyList desc).count toId, desc)

/-- What the lists say about `toId`: he is in exactly the list of `desc`, or in none. -/
def Shows (r : BuddyRelation) (toId : ℤ) (desc : BuddyDesc) : Prop :=
  ∀ d, d ≠ .noPath → (toId ∈ r.getBuddyList d ↔ desc = d)

/-! ## What the operations do to the lists -/

theorem getBuddyList_modify (desc d : BuddyDesc) (f : AscSeq ℤ → AscSeq ℤ) (r : BuddyRelation) :
    (r.modify desc f).getBuddyList d =
      if desc = d ∧ d ≠ .noPath ∧ d ≠ .self then f (r.getBuddyList d) else r.getBuddyList d := by
  cases desc <;> cases d <;> rfl

theorem mem_addSeq {desc d : BuddyDesc} (hd : desc ≠ .noPath ∧ desc ≠ .self) {x toId : ℤ}
    {r : BuddyRelation} :
    x ∈ (r.addSeq desc toId).getBuddyList d ↔ (desc = d ∧ x = toId) ∨ x ∈ r.getBuddyList d := by
  unfold addSeq
  rw [getBuddyList_modify]
  by_cases h : desc = d
  · subst h
    simp [hd]
  · simp [h]

theorem mem_removeSeq {desc d : BuddyDesc} (hd : desc ≠ .noPath ∧ desc ≠ .self) {x toId : ℤ}
    {r : BuddyRelation} :
    x ∈ (r.removeSeq desc toId).getBuddyList d ↔ x ∈ r.getBuddyList d ∧ ¬ (desc = d ∧ x = toId) := by
  unfold removeSeq
  rw [getBuddyList_modify]
  by_cases h : desc = d
  · subst h
    simp [hd]
  · simp [h]

/-! ## What is shown -/

variable {r : BuddyRelation} {toId : ℤ} {desc : BuddyDesc}

theorem Shows.ne_self (h : r.Shows toId desc) : desc ≠ .self := by
  rintro rfl
  exact AscSeq.not_mem_empty toId ((h .self (by decide)).mpr rfl)

/-- Lists with the same entries for `toId` show the same. -/
theorem Shows.congr {r' : BuddyRelation} (h : r.Shows toId desc)
    (hmem : ∀ d, toId ∈ r'.getBuddyList d ↔ toId ∈ r.getBuddyList d) : r'.Shows toId desc :=
  fun d hd => (hmem d).trans (h d hd)

/-- The count that finds the one list an entry is in. -/
theorem Shows.getCount_eq (h : r.Shows toId desc) :
    r.getCount toId .noPath = (if desc = .noPath then 0 else 1, desc) := by
  have hcount : ∀ d, d ≠ .noPath → (r.getBuddyList d).count toId = if desc = d then 1 else 0 := by
    intro d hd
    rw [AscSeq.count_eq]
    simp only [h d hd]
  have hself := h.ne_self
  unfold getCount descs
  rw [if_pos rfl]
  simp only [List.foldl_cons, List.foldl_nil]
  rw [hcount .friend (by decide), hcount .apply (by decide), hcount .applied (by decide),
    hcount .block (by decide), hcount .blocked (by decide), hcount .biBlock (by decide)]
  cases desc with
  | self => exact absurd rfl hself
  | noPath => rfl
  | friend => rfl
  | apply => rfl
  | applied => rfl
  | block => rfl
  | blocked => rfl
  | biBlock => rfl

/-- A walk over the lists that names none has counted nothing. -/
theorem foldl_count_noPath (c : BuddyDesc → ℕ) {ks : List BuddyDesc} (hks : ∀ k ∈ ks, k ≠ .noPath)
    {acc : ℕ × BuddyDesc}
    (h : (ks.foldl (fun acc k => (acc.1 + c k, if c k ≠ 0 then k else acc.2)) acc).2 = .noPath) :
    acc.2 = .noPath ∧ ∀ k ∈ ks, c k = 0 := by
  induction ks generalizing acc with
  | nil => exact ⟨h, fun _ hk => nomatch hk⟩
  | cons k ks ih =>
      obtain ⟨hacc, hrest⟩ := ih (fun j hj => hks j (List.mem_cons_of_mem _ hj)) h
      by_cases hk : c k = 0
      · refine ⟨?_, ?_⟩
        · simpa [hk] using hacc
        · intro j hj
          rcases List.mem_cons.mp hj with rfl | hj
          · exact hk
          · exact hrest j hj
      · have hname : k = .noPath := by simpa [hk] using hacc
        exact absurd hname (hks k (by simp))

/-- A count that names no list has found the user in none. -/
theorem shows_noPath_of_getCount (h : (r.getCount toId .noPath).2 = .noPath) :
    r.Shows toId .noPath := by
  unfold getCount at h
  rw [if_pos rfl] at h
  have hzero := (foldl_count_noPath (fun k => (r.getBuddyList k).count toId) (by decide) h).2
  intro d hd
  refine iff_of_false ?_ (Ne.symm hd)
  intro hmem
  have hmemd : d ∈ descs := by
    cases d with
    | noPath => exact absurd rfl hd
    | self => exact absurd hmem (AscSeq.not_mem_empty _)
    | _ => decide
  have hcount : (r.getBuddyList d).count toId = 0 := hzero d hmemd
  rw [AscSeq.count_eq, if_pos hmem] at hcount
  cases hcount

end BuddyRelation

/-- SOURCE: BuddyRelation.cpp:199-205 -/
def BuddyRelationHolders.checkStateRecorder (h : BuddyRelationHolders) (sr : StateRecorder) : Bool :=
  h.hsr.lastid = 0 ∨ h.hsr.lastid = sr.lastid ∧ h.hsr.laststate = sr.laststate

/-- SOURCE: BuddyRelation.cpp:195-197 -/
def BuddyRelationHolders.setStateRecorder (h : BuddyRelationHolders) (sr : StateRecorder) :
    BuddyRelationHolders :=
  { h with hsr := sr }

end Oce.Buddy
