import Mathlib.Tactic.SplitIfs
import Oce.UserNetwork.Analysis.FollowsRows

/-!
# Runs of the network manager

`Op.call` says which shape an operation has, and `Op.Agrees` when its statement and its call
agree: `cache_follows_rows` is the law for every run, and `colleges_dropped` a call that
breaks it.
-/

set_option autoImplicit false

namespace Oce.UserNetwork

open Oce.Base

variable {S : Schema}

variable {typeId id auto collegeId : ℤ}

/-- The shape of an operation. -/
inductive Call where
  | insert (k : InfoType) (userId : ℤ) (data : Str2StrMap) (auto : ℤ)
  | replace (k : InfoType) (userId : ℤ) (data : Str2StrMap) (auto : ℤ)
  | set (k : InfoType) (userId : ℤ) (selects : Info → Bool) (typeId : ℤ) (data : Str2StrMap)
  | remove (k : InfoType) (userId : ℤ) (selects : Info → Bool) (typeId : ℤ) (changeType : ChangeType)

namespace Call

def run (st : State S) : Call → State S
  | insert k userId data auto => st.add k userId data ((st.db k).insertInto data auto)
  | replace k userId data auto => st.add k userId data ((st.db k).replaceInto data auto)
  | set k userId selects typeId data => st.set k userId selects typeId data
  | remove k userId selects typeId changeType => st.remove k userId selects typeId changeType

def kind : Call → InfoType
  | insert k .. | replace k .. | set k .. | remove k .. => k

def userId : Call → ℤ
  | insert _ u .. | replace _ u .. | set _ u .. | remove _ u .. => u

/-- The columns that the call gives. -/
def data : Call → Str2StrMap
  | insert _ _ data _ | replace _ _ data _ | set _ _ _ _ data => data
  | remove .. => []

/-- The records that the operation is about, of those there are. -/
def selects : Call → Info → Bool
  | insert .. | replace .. => fun _ => false
  | set _ _ selects .. | remove _ _ selects .. => selects

/-- A call that adds a record gives all its columns. -/
def NamesAll : Call → Prop
  | insert k _ data _ | replace k _ data _ => UserNetwork.NamesAll k data
  | _ => True

/-- A call that adds a record is told its id. -/
def Keyed (S : Schema) : Call → Prop
  | insert k _ data auto | replace k _ data auto => UserNetwork.Keyed S k data auto
  | _ => True

end Call

namespace Op

def call : Op → Call
  | addNetwork u data auto => .insert .network u data auto
  | setNetwork u v data => .set .network u (fun r => r.networkId = v) v data
  | removeNetwork u v => .remove .network u (fun r => r.networkId = v) v .infoTypeId
  | removeNetworkByStage u v => .remove .network u (fun r => r.stage = v) v .infoStage
  | addHighSchoolInfo u data auto => .insert .highSchool u data auto
  | setHighSchoolInfo u v data => .set .highSchool u (fun r => r.id = v) v data
  | removeAllHighSchoolInfo u => .remove .highSchool u (fun _ => true) u .infoAll
  | removeHighSchoolInfo u v => .remove .highSchool u (fun r => r.id = v) v .infoId
  | addUniversityInfo u data auto => .insert .university u data auto
  | setUniversityInfo u v data => .set .university u (fun r => r.id = v) v data
  | removeAllUniversityInfo u => .remove .university u (fun _ => true) u .infoAll
  | removeUniversityInfo u v => .remove .university u (fun r => r.id = v) v .infoId
  | removeUniversityInfoByUnivId u v => .remove .university u (fun r => r.universityId = v) v .infoTypeId
  | addWorkspaceInfo u data auto | addWorkplaceInfo u data auto => .insert .workspace u data auto
  | setWorkspaceInfo u v data | setWorkplaceInfo u v data =>
      .set .workspace u (fun r => r.id = v) v data
  | removeWorkspaceInfo u v | removeWorkplaceInfoByWorkId u v =>
      .remove .workspace u (fun r => r.workplaceId = v) v .infoId
  | removeAllWorkplaceInfo u => .remove .workspace u (fun _ => true) u .infoAll
  | removeWorkplaceInfo u v => .remove .workspace u (fun r => r.id = v) v .infoId
  | addCollegeInfo u data auto => .insert .college u data auto
  | setCollegeInfo u v data => .set .college u (fun r => r.id = v) v data
  | removeAllCollegeInfo u => .remove .college u (fun _ => true) u .infoAll
  | removeCollegeInfo u v => .remove .college u (fun r => r.id = v) v .infoTypeId
  | addElementarySchoolInfo u data auto => .insert .elementarySchool u data auto
  | setElementarySchoolInfo u v data => .set .elementarySchool u (fun r => r.id = v) v data
  | removeAllElementarySchoolInfo u | removeElementarySchoolInfo u =>
      .remove .elementarySchool u (fun _ => true) u .infoAll
  | removeElementarySchoolInfoById u v => .remove .elementarySchool u (fun r => r.id = v) v .infoId
  | addJuniorHighSchoolInfo u data auto => .insert .juniorHighSchool u data auto
  | setJuniorHighSchoolInfo u v data => .set .juniorHighSchool u (fun r => r.id = v) v data
  | removeAllJuniorHighSchoolInfo u | removeJuniorHighSchoolInfo u =>
      .remove .juniorHighSchool u (fun _ => true) u .infoAll
  | removeJuniorHighSchoolInfoById u v => .remove .juniorHighSchool u (fun r => r.id = v) v .infoId
  | addRegionInfo u data auto => .replace .region u data auto
  | setRegionInfo u v data => .set .region u (fun r => r.regionId = v) v data
  | removeRegionInfo u v => .remove .region u (fun r => r.regionId = v) v .infoTypeId
  | removeAllRegionInfo u => .remove .region u (fun _ => true) u .infoAll

/-- The server stores the data as it is read, and the id of a new record is told as it is stored. -/
def Told (S : Schema) (op : Op) : Prop :=
  StoresRead S op.call.kind op.call.userId op.call.data ∧ op.call.Keyed S

/-- When the call on the entry does what the statement did.
* A junior high school is compared by the owner: the user must have an entry without junior
  high schools or with an owner other than the new id; without an entry, the id must be it.
* A region that a new one replaces must be the same, or its owner's entry not be there.
* Removing a college clears the list, so the user must have no other.
* A workspace is removed by its workplace from the table and by its id from the entry. -/
def Agrees (st : State S) : Op → Prop
  | addJuniorHighSchoolInfo u data auto =>
      ∀ t index, (st.db .juniorHighSchool).insertInto data auto = some (t, index) →
        (st.cache u ≠ none → (st.db .juniorHighSchool).rowsOf u = [] ∨ index ≠ u) ∧
          (st.cache u = none → index = u)
  | addRegionInfo _ data auto =>
      ∀ fields, S.fields .region data = some fields → ∀ r ∈ (st.db .region).rows,
        S.Clash .region r (Table.newRow S .region fields auto) →
          r = Table.newRow S .region fields auto ∨ st.cache r.userId = none
  | removeCollegeInfo u id => ∀ r ∈ (st.db .college).rowsOf u, r.id = id
  | removeWorkspaceInfo u id | removeWorkplaceInfoByWorkId u id =>
      ∀ r ∈ (st.db .workspace).rowsOf u, (r.id = id → r.workplaceId = id) ∧
        (r.workplaceId = id → r.id = id ∨ st.cache u = none)
  | _ => True

/-- The condition on a step. -/
def Meets (st : State S) (op : Op) : Prop := op.Told S ∧ op.Agrees st

/-- What a step keeps. -/
def Follows (st : State S) (op : Op) : Prop :=
  Consistent (op.step st) ∧ Frame st (op.step st) op.call.userId op.call.kind op.call.selects

end Op

/-! ## The three shapes that always agree -/

section Shapes

variable {st : State S} {userId : ℤ}

/-- A removal whose call selects by the same field as the statement. -/
theorem remove_same_field (hst : Consistent st) {k : InfoType} {selects : Info → Bool}
    {changeType : ChangeType}
    (hseq : ∀ l, removeSeq typeId l changeType k = l.filter fun r => ¬ selects r) :
    Consistent (st.remove k userId selects typeId changeType) ∧
      Frame st (st.remove k userId selects typeId changeType) userId k selects :=
  remove_follows hst hseq fun _ _ => ⟨id, .inl⟩

/-- A removal of all records. -/
theorem remove_all (hst : Consistent st) {k : InfoType}
    (hseq : ∀ l, removeSeq typeId l .infoAll k = []) :
    Consistent (st.remove k userId (fun _ => true) typeId .infoAll) ∧
      Frame st (st.remove k userId (fun _ => true) typeId .infoAll) userId k fun _ => true := by
  apply remove_same_field hst
  intro l
  rw [hseq]
  simp

/-- The removal of a college clears the list. -/
theorem removeCollege_follows (hst : Consistent st)
    (h : ∀ r ∈ (st.db .college).rowsOf userId, r.id = id) :
    Consistent (st.remove .college userId (fun r => r.id = id) id .infoTypeId) ∧
      Frame st (st.remove .college userId (fun r => r.id = id) id .infoTypeId) userId .college
        fun r => r.id = id := by
  have hseq : ∀ l, removeSeq id l .infoTypeId .college = l.filter fun r => ¬ (fun _ => true) r := by
    intro l
    simp [removeSeq, removeCollegeInfo]
  apply remove_follows hst hseq
  intro r hr
  exact ⟨fun _ => by simpa using h r hr, fun _ => .inl rfl⟩

/-- The removal of a workspace: the table by the workplace, the entry by the id. -/
theorem removeWorkspace_follows (hst : Consistent st)
    (h : ∀ r ∈ (st.db .workspace).rowsOf userId, (r.id = id → r.workplaceId = id) ∧
      (r.workplaceId = id → r.id = id ∨ st.cache userId = none)) :
    Consistent (st.remove .workspace userId (fun r => r.workplaceId = id) id .infoId) ∧
      Frame st (st.remove .workspace userId (fun r => r.workplaceId = id) id .infoId) userId .workspace
        fun r => r.workplaceId = id := by
  have hseq : ∀ l, removeSeq id l .infoId .workspace = l.filter fun r => ¬ decide (r.id = id) := by
    intro l
    simp [removeSeq, removeWorkspaceInfo]
  apply remove_follows hst hseq
  intro r hr
  simpa using h r hr

/-- Adding a junior high school, whose id is compared with the owner of those there are. -/
theorem insertJunior_follows (hst : Consistent st) {data : Str2StrMap}
    (hnamed : Named S .juniorHighSchool userId data auto)
    (h : ∀ t index, (st.db .juniorHighSchool).insertInto data auto = some (t, index) →
      (st.cache userId ≠ none → (st.db .juniorHighSchool).rowsOf userId = [] ∨ index ≠ userId) ∧
        (st.cache userId = none → index = userId)) : let st' := st.add .juniorHighSchool userId data ((st.db .juniorHighSchool).insertInto data auto)
    Consistent st' ∧ Frame st st' userId .juniorHighSchool fun _ => false := by
  apply insert_follows hst hnamed
  intro t index hres
  obtain ⟨hcached, hloaded⟩ := h t index hres
  obtain ⟨fields, hfields, hrows, hindex, -⟩ := Table.insertInto_eq_some hres
  constructor
  · intro hc r hr he
    have hu : r.userId = userId := (Table.mem_rowsOf.mp hr).2
    rcases hcached hc with hnil | hne
    · rw [hnil] at hr
      cases hr
    · exact hne (he.symm.trans hu)
  · intro hc
    have hu := hnamed.userId_newRow hfields
    refine ⟨Table.newRow S .juniorHighSchool fields auto, ?_, hu.trans (hloaded hc).symm⟩
    rw [Table.mem_rowsOf, hrows]
    exact ⟨by simp, hu⟩

end Shapes

/-- **One operation.** -/
theorem step_follows {st : State S} (hst : Consistent st) (op : Op) (hall : op.call.NamesAll)
    (h : op.Meets st) : op.Follows st := by
  obtain ⟨⟨hstored, hkeyed⟩, hagree⟩ := h
  cases op with
  | addNetwork | addHighSchoolInfo | addUniversityInfo | addWorkspaceInfo | addWorkplaceInfo
  | addCollegeInfo | addElementarySchoolInfo =>
      exact insert_follows_of_id hst ⟨hall, hstored, hkeyed⟩ rfl
  | addJuniorHighSchoolInfo => exact insertJunior_follows hst ⟨hall, hstored, hkeyed⟩ hagree
  | addRegionInfo => exact replace_follows hst ⟨hall, hstored, hkeyed⟩ rfl hagree
  | setNetwork | setHighSchoolInfo | setUniversityInfo | setWorkspaceInfo | setWorkplaceInfo
  | setCollegeInfo | setElementarySchoolInfo | setJuniorHighSchoolInfo | setRegionInfo =>
      exact set_follows hst hstored fun _ => rfl
  | removeAllHighSchoolInfo | removeAllUniversityInfo | removeAllWorkplaceInfo | removeAllCollegeInfo
  | removeAllElementarySchoolInfo | removeElementarySchoolInfo | removeAllJuniorHighSchoolInfo
  | removeJuniorHighSchoolInfo | removeAllRegionInfo => exact remove_all hst fun _ => rfl
  | removeNetwork | removeNetworkByStage | removeHighSchoolInfo | removeUniversityInfo
  | removeUniversityInfoByUnivId | removeWorkplaceInfo | removeElementarySchoolInfoById
  | removeJuniorHighSchoolInfoById | removeRegionInfo =>
      exact remove_same_field hst fun l => List.filter_congr fun r _ => by simp
  | removeCollegeInfo => exact removeCollege_follows hst hagree
  | removeWorkspaceInfo => exact removeWorkspace_follows hst hagree
  | removeWorkplaceInfoByWorkId => exact removeWorkspace_follows hst hagree

/-- **The cache follows the database.** In a run whose operations meet `Op.Meets`, every entry holds
its owner's rows in every state, and every operation leaves the other records of the entries
as they were. -/
theorem cache_follows_rows (S : Schema) (st : State S) (hst : Consistent st) (ops : List Op)
    (hall : ∀ op ∈ ops, op.call.NamesAll)
    (hops : StepsMeet Op.step (fun st op => op.Meets st) st ops) (n : ℕ) :
    Consistent (runOps Op.step st (ops.take n)) ∧
      ∀ op, ops[n]? = some op → op.Follows (runOps Op.step st (ops.take n)) := by
  have hnames : StepsMeet Op.step (fun _ op => op.call.NamesAll) st ops := stepsMeet_of_forall st hall
  have hboth := hnames.and hops
  have hstep : ∀ (st : State S) (op : Op), Consistent st → op.call.NamesAll ∧ op.Meets st →
      Consistent (op.step st) := fun st op hst h => (step_follows hst op h.1 h.2).1
  have hn : Consistent (runOps Op.step st (ops.take n)) := run_invariant_take hstep hst hboth n
  refine ⟨hn, fun op hop => ?_⟩
  obtain ⟨hop, hmeets⟩ := hboth.at_step hop
  exact step_follows hn op hop hmeets

/-! ## A user with two colleges -/

/-- No rows, and an empty entry for every user. -/
def State.fresh (S : Schema) : State S where
  db _ := ⟨[], .nil, fun _ h => nomatch h⟩
  cache userId := some (NetworkData.serialize ⟨userId, fun _ => []⟩)

theorem consistent_fresh (S : Schema) : Consistent (State.fresh S) := by
  intro userId bp hbp
  cases hbp
  exact ⟨rfl, fun k => .refl _⟩

/-- Tables without defaults and further unique keys, which store every text as it is read. -/
def plainSchema : Schema where
  stored k p := (columnOf k p.1).bind fun c => (ValueOf.read c.isText p.2).map fun v => ⟨c, v⟩
  columnDefault _ := Info.blank
  uniqueClash _ _ _ := false

theorem fieldsOf_of_plain {k : InfoType} {data : Str2StrMap} {fields : Fields}
    (h : plainSchema.fields k data = some fields) : fieldsOf k data = some fields := by
  unfold Schema.fields at h
  split at h
  · cases h
  · clear * - h
    induction data generalizing fields with
    | nil => exact h
    | cons p data ih =>
        rw [List.mapM_cons] at h
        obtain ⟨f, hf, h⟩ := Option.bind_eq_some_iff.mp h
        obtain ⟨rest, hrest, h⟩ := Option.bind_eq_some_iff.mp h
        cases h
        obtain ⟨c, hc, hf⟩ := Option.bind_eq_some_iff.mp hf
        obtain ⟨v, hv, rfl⟩ := Option.map_eq_some_iff.mp hf
        rw [fieldsOf_cons_of_some hc, hv, ih hrest]
        rfl

/-- The columns of a college of user 1. -/
def collegeData (collegeId : ℤ) : Str2StrMap :=
  [(ascii "COLLEGE_ID", intDigits collegeId), (ascii "COLLEGE_NAME", ascii "college"),
    (ascii "DEPARTMENT", ascii "department"), (ascii "ENROLL_YEAR", ascii "2008"),
    (ascii "USERID", ascii "1")]

/-- What is read of them. -/
def collegeFields (collegeId : ℤ) : Fields :=
  [⟨.collegeId, collegeId⟩, ⟨.collegeName, ascii "college"⟩, ⟨.department, ascii "department"⟩,
    ⟨.enrollYear, (2008 : ℤ)⟩, ⟨.userId, (1 : ℤ)⟩]

theorem fieldsOf_collegeData (h : IsInt collegeId) :
    fieldsOf .college (collegeData collegeId) = some (collegeFields collegeId) := by
  have hname : columnOf .college (ascii "COLLEGE_ID") = some .collegeId := by decide
  have hrest : fieldsOf .college ((collegeData collegeId).drop 1) =
      some ((collegeFields collegeId).drop 1) := by rfl
  have hread : ValueOf.read Column.collegeId.isText (intDigits collegeId) = some collegeId :=
    lexicalCastInt_intDigits h
  unfold collegeData
  rw [fieldsOf_cons_of_some (c := .collegeId) hname, hread, Option.bind_some]
  exact congrArg (Option.bind · _) hrest

theorem namesAll_collegeData (collegeId : ℤ) : NamesAll .college (collegeData collegeId) := by
  have hnames : ∀ c ∈ columns .college, c ≠ .id →
      ∃ key ∈ (collegeData collegeId).map Prod.fst, columnOf .college key = some c := by
    show ∀ c ∈ columns .college, c ≠ .id →
      ∃ key ∈ [ascii "COLLEGE_ID", ascii "COLLEGE_NAME", ascii "DEPARTMENT", ascii "ENROLL_YEAR",
        ascii "USERID"], columnOf .college key = some c
    decide
  intro c hc hid
  obtain ⟨key, hkey, hcol⟩ := hnames c hc hid
  obtain ⟨p, hp, rfl⟩ := List.mem_map.mp hkey
  exact ⟨p, hp, hcol⟩

theorem told_addCollegeInfo (h : IsInt collegeId) (hauto : IsInt auto) :
    Op.Told plainSchema (.addCollegeInfo 1 (collegeData collegeId) auto) := by
  refine ⟨fun fields hfields => ?_, hauto, fun hkey => ?_⟩
  · have hread := fieldsOf_of_plain hfields
    refine ⟨hread, fun v hv => ?_⟩
    cases (fieldsOf_collegeData h).symm.trans hread
    have hone : v = 1 := by simpa [collegeFields] using hv
    exact hone
  · have hnone : ¬ ∃ key ∈ (collegeData collegeId).map Prod.fst, key = ascii "id" := by
      show ¬ ∃ key ∈ [ascii "COLLEGE_ID", ascii "COLLEGE_NAME", ascii "DEPARTMENT", ascii "ENROLL_YEAR",
        ascii "USERID"], key = ascii "id"
      decide
    obtain ⟨p, hp, hname⟩ := hkey
    exact absurd ⟨p.1, List.mem_map_of_mem hp, hname⟩ hnone

theorem told_removeCollegeInfo (userId id : ℤ) : Op.Told plainSchema (.removeCollegeInfo userId id) := by
  refine ⟨fun fields hfields => ?_, trivial⟩
  cases hfields

/-- A college that is added and removed again. -/
theorem cache_follows_rows_college :
    Consistent (runOps Op.step (State.fresh plainSchema)
      [.addCollegeInfo 1 (collegeData 40) 7, .removeCollegeInfo 1 7]) := by
  refine (cache_follows_rows plainSchema (State.fresh plainSchema) (consistent_fresh plainSchema)
    [.addCollegeInfo 1 (collegeData 40) 7, .removeCollegeInfo 1 7] ?_ ?_ 2).1
  · intro op hop
    simp only [List.mem_cons, List.not_mem_nil, or_false] at hop
    rcases hop with rfl | rfl
    · exact namesAll_collegeData 40
    · trivial
  · refine ⟨⟨told_addCollegeInfo (by decide) (by decide), trivial⟩, ⟨told_removeCollegeInfo 1 7, ?_⟩,
      trivial⟩
    show ∀ r ∈ ((Op.step (State.fresh plainSchema) (.addCollegeInfo 1 (collegeData 40) 7)).db
      .college).rowsOf 1, r.id = 7
    decide

/-- A user's second college stays in the table when the first one is removed, and the entry loses
both. -/
theorem colleges_dropped :
    ¬ ∀ (S : Schema) (st : State S) (ops : List Op), Consistent st →
      (∀ op ∈ ops, op.call.NamesAll) → Consistent (runOps Op.step st ops) := by
  intro h
  have hops : ∀ op ∈ [Op.addCollegeInfo 1 (collegeData 40) 7, .addCollegeInfo 1 (collegeData 41) 8,
      .removeCollegeInfo 1 7], op.call.NamesAll := by
    intro op hop
    simp only [List.mem_cons, List.not_mem_nil, or_false] at hop
    rcases hop with rfl | rfl | rfl
    · exact namesAll_collegeData 40
    · exact namesAll_collegeData 41
    · trivial
  have hlaw := h plainSchema (State.fresh plainSchema) _ (consistent_fresh plainSchema) hops
  have hperm := (hlaw 1 _ rfl).2 .college
  have hlength := hperm.length_eq
  revert hlength
  decide

end Oce.UserNetwork
