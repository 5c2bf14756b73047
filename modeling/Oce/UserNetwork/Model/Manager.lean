import Oce.UserNetwork.Model.Record

/-!
# The tables and the manager's operations

Every operation of `NetworkManagerI` on a kind of records is one SQL statement and then one
call on the user's cache entry, which is loaded from the tables if there is none. A
statement that fails throws before the call.

What MySQL adds to the statements is a parameter (`Schema`): the column that it takes a name for
and the value that a text becomes there, the defaults of the columns a statement does not name and
which rows a unique key besides the primary key `id` forbids together. The id that the server
would generate comes with the operation. The servers that are written to and read from are one.
-/

set_option autoImplicit false

namespace Oce.UserNetwork

open Function Oce.Base

/-- The definition of the tables, which is not part of the program. A name or a text that the server
refuses is not `stored`. -/
structure Schema where
  stored : InfoType → List Byte × List Byte → Option ((c : Column) × c.Value)
  columnDefault : InfoType → Info
  uniqueClash : InfoType → Info → Info → Bool

/-- Two rows that a unique key of the table forbids together. -/
def Schema.Clash (S : Schema) (k : InfoType) (r r' : Info) : Prop :=
  r.id = r'.id ∨ S.uniqueClash k r r' = true

instance (S : Schema) (k : InfoType) (r r' : Info) : Decidable (S.Clash k r r') :=
  inferInstanceAs (Decidable (_ ∨ _))

/-- What a statement names, none if it is refused. Without a name there is no statement, which the
server refuses too. SOURCE: QueryRunner.cpp:56-84, 119-145 -/
def Schema.fields (S : Schema) (k : InfoType) (data : Str2StrMap) : Option Fields :=
  if data = [] then none else data.mapM (S.stored k)

/-- The record has nothing in a column that its kind does not have. -/
def OfKind (k : InfoType) (r : Info) : Prop := ∀ c, c ∉ columns k → r c = Info.blank c

/-- A column that the kind does not have is never set. -/
theorem setFields_of_not_column {k : InfoType} {c : Column} (hc : c ∉ columns k) (r : Info)
    (fields : Fields) : setFields k r fields c = r c := by
  unfold setFields
  induction fields generalizing r with
  | nil => rfl
  | cons p fields ih =>
      rw [List.foldl_cons, ih]
      unfold setField
      split
      · next hp =>
          have hne : c ≠ p.1 := fun he => hc (he ▸ hp)
          exact update_of_ne hne _ _
      · rfl

theorem ofKind_setFields {k : InfoType} {r : Info} (h : OfKind k r) (fields : Fields) :
    OfKind k (setFields k r fields) := by
  intro c hc
  rw [setFields_of_not_column hc]
  exact h c hc

theorem ofKind_update_id {k : InfoType} {r : Info} (h : OfKind k r) (index : ℤ) :
    OfKind k (update r .id index) := by
  intro c hc
  have hne : c ≠ .id := by
    rintro rfl
    exact hc (by cases k <;> decide)
  rw [update_of_ne hne]
  exact h c hc

/-- The rows of a table, of all users. -/
structure Table (S : Schema) (k : InfoType) where
  rows : List Info
  keys : rows.Pairwise fun r r' => ¬ S.Clash k r r'
  shape : ∀ r ∈ rows, OfKind k r

namespace Table

variable {S : Schema} {k : InfoType}

/-- `SELECT … WHERE userid=`. -/
def rowsOf (t : Table S k) (userId : ℤ) : List Info := t.rows.filter fun r => r.userId = userId

/-- The row that a statement describes, its id not settled yet. A column that it does not name
takes its default. -/
def describedRow (S : Schema) (k : InfoType) (fields : Fields) : Info :=
  setFields k (fun c => if c ∈ columns k ∧ c ≠ .id then S.columnDefault k c else Info.blank c) fields

/-- The id of the new row, which is what `insert_id` returns: the one that is named, and the
generated one if none or 0 is. -/
def insertId (S : Schema) (k : InfoType) (fields : Fields) (auto : ℤ) : ℤ :=
  if (describedRow S k fields).id = 0 then auto else (describedRow S k fields).id

def newRow (S : Schema) (k : InfoType) (fields : Fields) (auto : ℤ) : Info :=
  update (describedRow S k fields) .id (insertId S k fields auto)

theorem ofKind_newRow (fields : Fields) (auto : ℤ) : OfKind k (newRow S k fields auto) := by
  apply ofKind_update_id
  apply ofKind_setFields
  intro c hc
  simp [hc]

theorem pairwise_append_row {rows : List Info} (h : rows.Pairwise fun r r' => ¬ S.Clash k r r')
    {row : Info} (hrow : ∀ r ∈ rows, ¬ S.Clash k r row) :
    (rows ++ [row]).Pairwise fun r r' => ¬ S.Clash k r r' := by
  rw [List.pairwise_append]
  exact ⟨h, List.pairwise_singleton _ _, fun r hr r' hr' => List.mem_singleton.mp hr' ▸ hrow r hr⟩

theorem ofKind_append_row {rows : List Info} (h : ∀ r ∈ rows, OfKind k r) (fields : Fields)
    (auto : ℤ) : ∀ r ∈ rows ++ [newRow S k fields auto], OfKind k r := by
  intro r hr
  rcases List.mem_append.mp hr with hr | hr
  · exact h r hr
  · rw [List.mem_singleton.mp hr]
    exact ofKind_newRow fields auto

/-- `INSERT INTO`. A column that is named twice is refused. SOURCE: QueryRunner.cpp:86-89, 119-145 -/
def insertInto (t : Table S k) (data : Str2StrMap) (auto : ℤ) : Option (Table S k × ℤ) :=
  match S.fields k data with
  | none => none
  | some fields =>
    if ¬ (fields.map fun f => f.1).Nodup then none
    else if h : ∀ r ∈ t.rows, ¬ S.Clash k r (newRow S k fields auto) then
      some (⟨t.rows ++ [newRow S k fields auto], pairwise_append_row t.keys h,
        ofKind_append_row t.shape fields auto⟩, insertId S k fields auto)
    else none

/-- The rows that `REPLACE INTO` leaves. -/
def spared (t : Table S k) (row : Info) : List Info := t.rows.filter fun r => ¬ S.Clash k r row

theorem not_clash_of_mem_spared (t : Table S k) (row : Info) :
    ∀ r ∈ t.spared row, ¬ S.Clash k r row := by
  intro r hr
  simpa using (List.mem_filter.mp hr).2

/-- `REPLACE INTO`: the rows that clash with the new one go. SOURCE: QueryRunner.cpp:96-99, 119-145 -/
def replaceInto (t : Table S k) (data : Str2StrMap) (auto : ℤ) : Option (Table S k × ℤ) :=
  match S.fields k data with
  | none => none
  | some fields =>
    if ¬ (fields.map fun f => f.1).Nodup then none
    else
      let row := newRow S k fields auto
      some (⟨t.spared row ++ [row],
        pairwise_append_row (t.keys.filter _) (t.not_clash_of_mem_spared row),
        ofKind_append_row (fun r hr => t.shape r (List.mem_of_mem_filter hr)) fields auto⟩,
        insertId S k fields auto)

/-- `DELETE FROM … WHERE`. SOURCE: ConnectionQuery.cpp:206-226 -/
def deleteFrom (t : Table S k) (userId : ℤ) (selects : Info → Bool) : Table S k where
  rows := t.rows.filter fun r => ¬ (r.userId = userId ∧ selects r = true)
  keys := t.keys.filter _
  shape := fun r hr => t.shape r (List.mem_of_mem_filter hr)

/-- The rows after `UPDATE`. -/
def updatedRows (t : Table S k) (userId : ℤ) (selects : Info → Bool) (fields : Fields) : List Info :=
  t.rows.map fun r => if r.userId = userId ∧ selects r = true then setFields k r fields else r

theorem ofKind_updatedRows (t : Table S k) (userId : ℤ) (selects : Info → Bool) (fields : Fields) :
    ∀ r ∈ t.updatedRows userId selects fields, OfKind k r := by
  intro r hr
  obtain ⟨r', hr', rfl⟩ := List.mem_map.mp hr
  split
  · exact ofKind_setFields (t.shape r' hr') fields
  · exact t.shape r' hr'

/-- `UPDATE … SET … WHERE`. SOURCE: QueryRunner.cpp:56-84 -/
def update (t : Table S k) (userId : ℤ) (selects : Info → Bool) (data : Str2StrMap) :
    Option (Table S k) :=
  match S.fields k data with
  | none => none
  | some fields =>
    if h : (t.updatedRows userId selects fields).Pairwise fun r r' => ¬ S.Clash k r r' then
      some ⟨t.updatedRows userId selects fields, h, t.ofKind_updatedRows userId selects fields⟩
    else none

end Table

/-- The tables and the entries of the cache, by user. -/
structure State (S : Schema) where
  db : (k : InfoType) → Table S k
  cache : ℤ → Option BinString

namespace State

variable {S : Schema}

/-- SOURCE: UserNetworkI.cpp:45-137 -/
def create (st : State S) (userId : ℤ) : BinString :=
  NetworkData.serialize ⟨userId, fun k => (st.db k).rowsOf userId⟩

/-- SOURCE: UserNetworkI.cpp:1724-1727 -/
def getNetworkCacheData (st : State S) (userId : ℤ) : BinString :=
  (st.cache userId).getD (st.create userId)

/-- A call on the user's entry, which stays as it was found if the call throws. -/
def onEntry (st : State S) (userId : ℤ) (call : BinString → Option BinString) : State S :=
  let entry := st.getNetworkCacheData userId
  { st with cache := update st.cache userId (some ((call entry).getD entry)) }

/-- The state after a statement on one table. -/
def written (st : State S) {k : InfoType} (table : Table S k) : State S :=
  { st with db := update st.db k table }

/-- `insert(make_pair("id", …))`, which keeps the text of a key that is there. Every other spelling
of the name comes before this one in the order of the map, so that it is the last to be set.

SOURCE: UserNetworkI.cpp:411, 587, 721, 979, 1134, 1306, 1433, 1506 -/
def withId (data : Str2StrMap) (index : ℤ) : Str2StrMap :=
  if ∃ p ∈ data, p.1 = ascii "id" then data else data ++ [(ascii "id", intDigits index)]

/-- The shape of an `addXxx`. The id that the statement returns is stored in an `int`. -/
def add (st : State S) (k : InfoType) (userId : ℤ) (data : Str2StrMap)
    (result : Option (Table S k × ℤ)) : State S :=
  match result with
  | none => st
  | some (table, index) => (st.written table).onEntry userId (addInfo (withId data (asInt index)) k)

/-- The shape of a `setXxx`. -/
def set (st : State S) (k : InfoType) (userId : ℤ) (selects : Info → Bool) (typeId : ℤ)
    (data : Str2StrMap) : State S :=
  match (st.db k).update userId selects data with
  | none => st
  | some table => (st.written table).onEntry userId (setInfo typeId data k)

/-- The shape of a `removeXxx`. -/
def remove (st : State S) (k : InfoType) (userId : ℤ) (selects : Info → Bool) (typeId : ℤ)
    (changeType : ChangeType) : State S :=
  (st.written ((st.db k).deleteFrom userId selects)).onEntry userId fun bp =>
    some (removeInfo typeId k changeType bp)

/-! ## The operations -/

section Operations

variable (st : State S) (userId : ℤ)

/-- SOURCE: UserNetworkI.cpp:401-418 -/
def addNetwork (data : Str2StrMap) (auto : ℤ) : State S :=
  st.add .network userId data ((st.db .network).insertInto data auto)

/-- SOURCE: UserNetworkI.cpp:420-435 -/
def setNetwork (networkId : ℤ) (data : Str2StrMap) : State S :=
  st.set .network userId (fun r => r.networkId = networkId) networkId data

/-- SOURCE: UserNetworkI.cpp:436-452 -/
def removeNetwork (networkId : ℤ) : State S :=
  st.remove .network userId (fun r => r.networkId = networkId) networkId .infoTypeId

/-- SOURCE: UserNetworkI.cpp:454-469 -/
def removeNetworkByStage (stage : ℤ) : State S :=
  st.remove .network userId (fun r => r.stage = stage) stage .infoStage

/-- SOURCE: UserNetworkI.cpp:577-594 -/
def addHighSchoolInfo (data : Str2StrMap) (auto : ℤ) : State S :=
  st.add .highSchool userId data ((st.db .highSchool).insertInto data auto)

/-- SOURCE: UserNetworkI.cpp:596-610 -/
def setHighSchoolInfo (id : ℤ) (data : Str2StrMap) : State S :=
  st.set .highSchool userId (fun r => r.id = id) id data

/-- SOURCE: UserNetworkI.cpp:612-626 -/
def removeAllHighSchoolInfo : State S :=
  st.remove .highSchool userId (fun _ => true) userId .infoAll

/-- SOURCE: UserNetworkI.cpp:629-644 -/
def removeHighSchoolInfo (id : ℤ) : State S :=
  st.remove .highSchool userId (fun r => r.id = id) id .infoId

/-- SOURCE: UserNetworkI.cpp:711-727 -/
def addUniversityInfo (data : Str2StrMap) (auto : ℤ) : State S :=
  st.add .university userId data ((st.db .university).insertInto data auto)

/-- SOURCE: UserNetworkI.cpp:729-744 -/
def setUniversityInfo (id : ℤ) (data : Str2StrMap) : State S :=
  st.set .university userId (fun r => r.id = id) id data

/-- SOURCE: UserNetworkI.cpp:746-760 -/
def removeAllUniversityInfo : State S :=
  st.remove .university userId (fun _ => true) userId .infoAll

/-- SOURCE: UserNetworkI.cpp:761-776 -/
def removeUniversityInfo (id : ℤ) : State S :=
  st.remove .university userId (fun r => r.id = id) id .infoId

/-- SOURCE: UserNetworkI.cpp:778-793 -/
def removeUniversityInfoByUnivId (universityId : ℤ) : State S :=
  st.remove .university userId (fun r => r.universityId = universityId) universityId .infoTypeId

/-- SOURCE: UserNetworkI.cpp:969-987 -/
def addWorkspaceInfo (data : Str2StrMap) (auto : ℤ) : State S :=
  st.add .workspace userId data ((st.db .workspace).insertInto data auto)

/-- SOURCE: UserNetworkI.cpp:989-1004 -/
def setWorkspaceInfo (id : ℤ) (data : Str2StrMap) : State S :=
  st.set .workspace userId (fun r => r.id = id) id data

/-- The rows by `WORKPLACE_ID`, the cached records by `INFOID`. SOURCE: UserNetworkI.cpp:1006-1021 -/
def removeWorkspaceInfo (id : ℤ) : State S :=
  st.remove .workspace userId (fun r => r.workplaceId = id) id .infoId

/-- SOURCE: UserNetworkI.cpp:851-860 -/
def addWorkplaceInfo (data : Str2StrMap) (auto : ℤ) : State S := st.addWorkspaceInfo userId data auto

/-- SOURCE: UserNetworkI.cpp:862-870 -/
def setWorkplaceInfo (id : ℤ) (data : Str2StrMap) : State S := st.setWorkspaceInfo userId id data

/-- SOURCE: UserNetworkI.cpp:872-887 -/
def removeAllWorkplaceInfo : State S :=
  st.remove .workspace userId (fun _ => true) userId .infoAll

/-- SOURCE: UserNetworkI.cpp:888-903 -/
def removeWorkplaceInfo (id : ℤ) : State S :=
  st.remove .workspace userId (fun r => r.id = id) id .infoId

/-- SOURCE: UserNetworkI.cpp:905-911 -/
def removeWorkplaceInfoByWorkId (workplaceId : ℤ) : State S := st.removeWorkspaceInfo userId workplaceId

/-- SOURCE: UserNetworkI.cpp:1125-1141 -/
def addCollegeInfo (data : Str2StrMap) (auto : ℤ) : State S :=
  st.add .college userId data ((st.db .college).insertInto data auto)

/-- SOURCE: UserNetworkI.cpp:1143-1157 -/
def setCollegeInfo (id : ℤ) (data : Str2StrMap) : State S :=
  st.set .college userId (fun r => r.id = id) id data

/-- SOURCE: UserNetworkI.cpp:1159-1173 -/
def removeAllCollegeInfo : State S :=
  st.remove .college userId (fun _ => true) userId .infoAll

/-- The rows by `ID`, the cached records by `INFOTYPEID`, for which a college has no case.
SOURCE: UserNetworkI.cpp:1174-1189 -/
def removeCollegeInfo (id : ℤ) : State S :=
  st.remove .college userId (fun r => r.id = id) id .infoTypeId

/-- SOURCE: UserNetworkI.cpp:1296-1312 -/
def addElementarySchoolInfo (data : Str2StrMap) (auto : ℤ) : State S :=
  st.add .elementarySchool userId data ((st.db .elementarySchool).insertInto data auto)

/-- SOURCE: UserNetworkI.cpp:1270-1280 -/
def setElementarySchoolInfo (id : ℤ) (data : Str2StrMap) : State S :=
  st.set .elementarySchool userId (fun r => r.id = id) id data

/-- SOURCE: UserNetworkI.cpp:1244-1255 -/
def removeAllElementarySchoolInfo : State S :=
  st.remove .elementarySchool userId (fun _ => true) userId .infoAll

/-- SOURCE: UserNetworkI.cpp:1315-1328 -/
def removeElementarySchoolInfo : State S :=
  st.remove .elementarySchool userId (fun _ => true) userId .infoAll

/-- SOURCE: UserNetworkI.cpp:1257-1268 -/
def removeElementarySchoolInfoById (id : ℤ) : State S :=
  st.remove .elementarySchool userId (fun r => r.id = id) id .infoId

/-- SOURCE: UserNetworkI.cpp:1424-1440 -/
def addJuniorHighSchoolInfo (data : Str2StrMap) (auto : ℤ) : State S :=
  st.add .juniorHighSchool userId data ((st.db .juniorHighSchool).insertInto data auto)

/-- SOURCE: UserNetworkI.cpp:1389-1399 -/
def setJuniorHighSchoolInfo (id : ℤ) (data : Str2StrMap) : State S :=
  st.set .juniorHighSchool userId (fun r => r.id = id) id data

/-- SOURCE: UserNetworkI.cpp:1331-1341 -/
def removeAllJuniorHighSchoolInfo : State S :=
  st.remove .juniorHighSchool userId (fun _ => true) userId .infoAll

/-- SOURCE: UserNetworkI.cpp:1442-1456 -/
def removeJuniorHighSchoolInfo : State S :=
  st.remove .juniorHighSchool userId (fun _ => true) userId .infoAll

/-- SOURCE: UserNetworkI.cpp:1343-1354 -/
def removeJuniorHighSchoolInfoById (id : ℤ) : State S :=
  st.remove .juniorHighSchool userId (fun r => r.id = id) id .infoId

/-- Regions are written with `REPLACE`. SOURCE: UserNetworkI.cpp:1496-1513 -/
def addRegionInfo (data : Str2StrMap) (auto : ℤ) : State S :=
  st.add .region userId data ((st.db .region).replaceInto data auto)

/-- SOURCE: UserNetworkI.cpp:1549-1564 -/
def setRegionInfo (regionId : ℤ) (data : Str2StrMap) : State S :=
  st.set .region userId (fun r => r.regionId = regionId) regionId data

/-- SOURCE: UserNetworkI.cpp:1515-1531 -/
def removeRegionInfo (regionId : ℤ) : State S :=
  st.remove .region userId (fun r => r.regionId = regionId) regionId .infoTypeId

/-- SOURCE: UserNetworkI.cpp:1533-1547 -/
def removeAllRegionInfo : State S :=
  st.remove .region userId (fun _ => true) userId .infoAll

end Operations

end State

/-- A call of an operation for a user. An `add` comes with the id MySQL would generate. -/
inductive Op where
  | addNetwork (userId : ℤ) (data : Str2StrMap) (auto : ℤ)
  | setNetwork (userId networkId : ℤ) (data : Str2StrMap)
  | removeNetwork (userId networkId : ℤ)
  | removeNetworkByStage (userId stage : ℤ)
  | addHighSchoolInfo (userId : ℤ) (data : Str2StrMap) (auto : ℤ)
  | setHighSchoolInfo (userId id : ℤ) (data : Str2StrMap)
  | removeAllHighSchoolInfo (userId : ℤ)
  | removeHighSchoolInfo (userId id : ℤ)
  | addUniversityInfo (userId : ℤ) (data : Str2StrMap) (auto : ℤ)
  | setUniversityInfo (userId id : ℤ) (data : Str2StrMap)
  | removeAllUniversityInfo (userId : ℤ)
  | removeUniversityInfo (userId id : ℤ)
  | removeUniversityInfoByUnivId (userId universityId : ℤ)
  | addWorkspaceInfo (userId : ℤ) (data : Str2StrMap) (auto : ℤ)
  | setWorkspaceInfo (userId id : ℤ) (data : Str2StrMap)
  | removeWorkspaceInfo (userId id : ℤ)
  | addWorkplaceInfo (userId : ℤ) (data : Str2StrMap) (auto : ℤ)
  | setWorkplaceInfo (userId id : ℤ) (data : Str2StrMap)
  | removeAllWorkplaceInfo (userId : ℤ)
  | removeWorkplaceInfo (userId id : ℤ)
  | removeWorkplaceInfoByWorkId (userId workplaceId : ℤ)
  | addCollegeInfo (userId : ℤ) (data : Str2StrMap) (auto : ℤ)
  | setCollegeInfo (userId id : ℤ) (data : Str2StrMap)
  | removeAllCollegeInfo (userId : ℤ)
  | removeCollegeInfo (userId id : ℤ)
  | addElementarySchoolInfo (userId : ℤ) (data : Str2StrMap) (auto : ℤ)
  | setElementarySchoolInfo (userId id : ℤ) (data : Str2StrMap)
  | removeAllElementarySchoolInfo (userId : ℤ)
  | removeElementarySchoolInfo (userId : ℤ)
  | removeElementarySchoolInfoById (userId id : ℤ)
  | addJuniorHighSchoolInfo (userId : ℤ) (data : Str2StrMap) (auto : ℤ)
  | setJuniorHighSchoolInfo (userId id : ℤ) (data : Str2StrMap)
  | removeAllJuniorHighSchoolInfo (userId : ℤ)
  | removeJuniorHighSchoolInfo (userId : ℤ)
  | removeJuniorHighSchoolInfoById (userId id : ℤ)
  | addRegionInfo (userId : ℤ) (data : Str2StrMap) (auto : ℤ)
  | setRegionInfo (userId regionId : ℤ) (data : Str2StrMap)
  | removeRegionInfo (userId regionId : ℤ)
  | removeAllRegionInfo (userId : ℤ)

/-- One step of the manager. -/
def Op.step {S : Schema} (st : State S) : Op → State S
  | addNetwork u data auto => st.addNetwork u data auto
  | setNetwork u v data => st.setNetwork u v data
  | removeNetwork u v => st.removeNetwork u v
  | removeNetworkByStage u v => st.removeNetworkByStage u v
  | addHighSchoolInfo u data auto => st.addHighSchoolInfo u data auto
  | setHighSchoolInfo u v data => st.setHighSchoolInfo u v data
  | removeAllHighSchoolInfo u => st.removeAllHighSchoolInfo u
  | removeHighSchoolInfo u v => st.removeHighSchoolInfo u v
  | addUniversityInfo u data auto => st.addUniversityInfo u data auto
  | setUniversityInfo u v data => st.setUniversityInfo u v data
  | removeAllUniversityInfo u => st.removeAllUniversityInfo u
  | removeUniversityInfo u v => st.removeUniversityInfo u v
  | removeUniversityInfoByUnivId u v => st.removeUniversityInfoByUnivId u v
  | addWorkspaceInfo u data auto => st.addWorkspaceInfo u data auto
  | setWorkspaceInfo u v data => st.setWorkspaceInfo u v data
  | removeWorkspaceInfo u v => st.removeWorkspaceInfo u v
  | addWorkplaceInfo u data auto => st.addWorkplaceInfo u data auto
  | setWorkplaceInfo u v data => st.setWorkplaceInfo u v data
  | removeAllWorkplaceInfo u => st.removeAllWorkplaceInfo u
  | removeWorkplaceInfo u v => st.removeWorkplaceInfo u v
  | removeWorkplaceInfoByWorkId u v => st.removeWorkplaceInfoByWorkId u v
  | addCollegeInfo u data auto => st.addCollegeInfo u data auto
  | setCollegeInfo u v data => st.setCollegeInfo u v data
  | removeAllCollegeInfo u => st.removeAllCollegeInfo u
  | removeCollegeInfo u v => st.removeCollegeInfo u v
  | addElementarySchoolInfo u data auto => st.addElementarySchoolInfo u data auto
  | setElementarySchoolInfo u v data => st.setElementarySchoolInfo u v data
  | removeAllElementarySchoolInfo u => st.removeAllElementarySchoolInfo u
  | removeElementarySchoolInfo u => st.removeElementarySchoolInfo u
  | removeElementarySchoolInfoById u v => st.removeElementarySchoolInfoById u v
  | addJuniorHighSchoolInfo u data auto => st.addJuniorHighSchoolInfo u data auto
  | setJuniorHighSchoolInfo u v data => st.setJuniorHighSchoolInfo u v data
  | removeAllJuniorHighSchoolInfo u => st.removeAllJuniorHighSchoolInfo u
  | removeJuniorHighSchoolInfo u => st.removeJuniorHighSchoolInfo u
  | removeJuniorHighSchoolInfoById u v => st.removeJuniorHighSchoolInfoById u v
  | addRegionInfo u data auto => st.addRegionInfo u data auto
  | setRegionInfo u v data => st.setRegionInfo u v data
  | removeRegionInfo u v => st.removeRegionInfo u v
  | removeAllRegionInfo u => st.removeAllRegionInfo u

end Oce.UserNetwork
