import Mathlib.Data.List.Basic
import Mathlib.Logic.Function.Basic
import Oce.Base.Bytes

/-!
# The records of a user's networks and their cache entry

The eight kinds of records differ in their columns only, and so do the eight branches of
every function on them: a record is a value for every column, with the blank value in the
columns that its kind does not have. The type of a column is the one that `setXxxProperty`
casts its text to.

An entry holds the records in one buffer. Every change takes them all out, changes the
list of one kind and packs them again. The owner's id is packed once and the `userId` of a
record is not: unpacking puts the owner's id there.
-/

set_option autoImplicit false

namespace Oce.UserNetwork

open Function Oce.Base

/-- SOURCE: UserNetworkDataI.h:487-497 -/
inductive InfoType where
  | network | highSchool | university | workspace | college | elementarySchool
  | juniorHighSchool | region
  deriving DecidableEq, Repr

/-- SOURCE: UserNetworkDataI.h:499-505 -/
inductive ChangeType where
  | infoTypeId | infoId | infoStage | infoAll
  deriving DecidableEq, Repr

/-- The columns of the eight tables. SOURCE: UserNetwork.ice:15-84 -/
inductive Column where
  | id | userId
  | stage | infoId | joinTime | status | networkName | networkId
  | highSchoolId | highSchoolName | enrollYear | hClass1 | hClass2 | hClass3
  | universityId | universityName | dorm | department | typeOfCourse
  | workplaceId | workplaceName | address | description | province | cityId | cityName
  | joinYear | joinMonth | quitYear | quitMonth | type | jobTitleId | positionId
  | collegeId | collegeName
  | elementarySchoolId | elementarySchoolName | elementarySchoolYear
  | juniorHighSchoolId | juniorHighSchoolName | juniorHighSchoolYear
  | regionId | provinceName
  deriving DecidableEq, Repr

/-- Whether `setXxxProperty` takes the text as it is. -/
abbrev Column.isText : Column → Bool
  | joinTime | networkName | highSchoolName | hClass1 | hClass2 | hClass3 | universityName | dorm
  | department | typeOfCourse | workplaceName | address | description | province | cityName
  | collegeName | elementarySchoolName | juniorHighSchoolName | provinceName => true
  | _ => false

/-- A text, or a number by `lexical_cast`. -/
abbrev ValueOf : Bool → Type
  | true => List Byte
  | false => ℤ

def ValueOf.blank : (isText : Bool) → ValueOf isText
  | true => ([] : List Byte)
  | false => (0 : ℤ)

/-- The value that a text is read as, none if `lexical_cast` throws. -/
def ValueOf.read : (isText : Bool) → List Byte → Option (ValueOf isText)
  | true, text => some text
  | false, text => lexicalCastInt text

abbrev Column.Value (c : Column) : Type := ValueOf c.isText

/-- A record of any kind. -/
abbrev Info := (c : Column) → c.Value

namespace Info

def blank : Info := fun c => ValueOf.blank c.isText

def id (r : Info) : ℤ := r .id
def userId (r : Info) : ℤ := r .userId
def stage (r : Info) : ℤ := r .stage
def networkId (r : Info) : ℤ := r .networkId
def universityId (r : Info) : ℤ := r .universityId
def workplaceId (r : Info) : ℤ := r .workplaceId
def elementarySchoolId (r : Info) : ℤ := r .elementarySchoolId
def juniorHighSchoolId (r : Info) : ℤ := r .juniorHighSchoolId
def regionId (r : Info) : ℤ := r .regionId

end Info

/-- Columns with their values. -/
abbrev Fields := List ((c : Column) × c.Value)

/-- The fields that a record packs, in this order: all its columns but `USERID`.
SOURCE: UserNetworkDataI.h:246-337, 370-476 -/
def packed : InfoType → List Column
  | .network => [.id, .stage, .infoId, .joinTime, .status, .networkName, .networkId]
  | .highSchool => [.id, .highSchoolId, .highSchoolName, .enrollYear, .hClass1, .hClass2, .hClass3]
  | .university => [.id, .universityId, .universityName, .dorm, .department, .typeOfCourse, .enrollYear]
  | .workspace => [.id, .workplaceId, .workplaceName, .address, .description, .province, .cityId,
      .cityName, .joinYear, .joinMonth, .quitYear, .quitMonth, .type, .jobTitleId, .positionId]
  | .college => [.id, .collegeId, .collegeName, .department, .enrollYear]
  | .elementarySchool => [.id, .elementarySchoolId, .elementarySchoolName, .elementarySchoolYear]
  | .juniorHighSchool => [.id, .juniorHighSchoolId, .juniorHighSchoolName, .juniorHighSchoolYear]
  | .region => [.id, .regionId, .provinceName, .cityName]

/-- The columns of a table, the ones that `setNetworkProperty`, `setHighSchoolProperty`,
`setUniversityProperty`, `setWorkspaceProperty`, `setCollegeProperty`,
`setElementarySchoolProperty`, `setJuniorHighSchoolProperty` and `setRegionProperty` know.
SOURCE: UserNetworkDataI.h:1125-1342 -/
def columns : InfoType → List Column
  | .network => [.id, .userId, .stage, .infoId, .joinTime, .status, .networkName, .networkId]
  | .highSchool => [.id, .userId, .highSchoolId, .highSchoolName, .enrollYear, .hClass1, .hClass2,
      .hClass3]
  | .university => [.id, .userId, .universityId, .universityName, .dorm, .department, .typeOfCourse,
      .enrollYear]
  | .workspace => [.id, .userId, .workplaceId, .workplaceName, .address, .description, .province,
      .cityId, .cityName, .joinYear, .joinMonth, .quitYear, .quitMonth, .type, .jobTitleId, .positionId]
  | .college => [.id, .userId, .collegeId, .collegeName, .department, .enrollYear]
  | .elementarySchool => [.id, .userId, .elementarySchoolId, .elementarySchoolName,
      .elementarySchoolYear]
  | .juniorHighSchool => [.id, .userId, .juniorHighSchoolId, .juniorHighSchoolName,
      .juniorHighSchoolYear]
  | .region => [.id, .userId, .regionId, .provinceName, .cityName]

/-- A value is put into its column. -/
def setField (k : InfoType) (r : Info) (p : (c : Column) × c.Value) : Info :=
  if p.1 ∈ columns k then update r p.1 p.2 else r

def setFields (k : InfoType) (r : Info) (fields : Fields) : Info := fields.foldl (setField k) r

/-! ## Names and texts -/

/-- The name of a column. SOURCE: UserNetwork.ice:15-84 -/
def Column.name : Column → String
  | id => "ID"
  | userId => "USERID"
  | stage => "STAGE"
  | infoId => "INFO_ID"
  | joinTime => "JOIN_TIME"
  | status => "STATUS"
  | networkName => "NETWORK_NAME"
  | networkId => "NETWORK_ID"
  | highSchoolId => "HIGH_SCHOOL_ID"
  | highSchoolName => "HIGH_SCHOOL_NAME"
  | enrollYear => "ENROLL_YEAR"
  | hClass1 => "H_CLASS1"
  | hClass2 => "H_CLASS2"
  | hClass3 => "H_CLASS3"
  | universityId => "UNIVERSITY_ID"
  | universityName => "UNIVERSITY_NAME"
  | dorm => "DORM"
  | department => "DEPARTMENT"
  | typeOfCourse => "TYPE_OF_COURSE"
  | workplaceId => "WORKPLACE_ID"
  | workplaceName => "WORKPLACE_NAME"
  | address => "ADDRESS"
  | description => "DESCRIPTION"
  | province => "PROVINCE"
  | cityId => "CITY_ID"
  | cityName => "CITY_NAME"
  | joinYear => "JOIN_YEAR"
  | joinMonth => "JOIN_MONTH"
  | quitYear => "QUIT_YEAR"
  | quitMonth => "QUIT_MONTH"
  | type => "TYPE"
  | jobTitleId => "JOB_TITLE_ID"
  | positionId => "POSITION_ID"
  | collegeId => "COLLEGE_ID"
  | collegeName => "COLLEGE_NAME"
  | elementarySchoolId => "ELEMENTARY_SCHOOL_ID"
  | elementarySchoolName => "ELEMENTARY_SCHOOL_NAME"
  | elementarySchoolYear => "ELEMENTARY_SCHOOL_YEAR"
  | juniorHighSchoolId => "JUNIOR_HIGH_SCHOOL_ID"
  | juniorHighSchoolName => "JUNIOR_HIGH_SCHOOL_NAME"
  | juniorHighSchoolYear => "JUNIOR_HIGH_SCHOOL_YEAR"
  | regionId => "REGION_ID"
  | provinceName => "PROVINCE_NAME"

/-- `MyUtil::Str2StrMap`: names of columns with texts for them, in the order of the map. -/
abbrev Str2StrMap := List (List Byte × List Byte)

def lower (b : Byte) : Byte := if 65 ≤ b ∧ b ≤ 90 then b + 32 else b

/-- `!strcasecmp`. -/
def SameName (key name : List Byte) : Prop := (cString key).map lower = name.map lower

instance (key name : List Byte) : Decidable (SameName key name) := inferInstanceAs (Decidable (_ = _))

/-- The column that a key is the name of. -/
def columnOf (k : InfoType) (key : List Byte) : Option Column :=
  (columns k).find? fun c => SameName key (ascii c.name)

/-- `setXxxProperty`, none if it throws. A key that is no column of the kind is passed over.

SOURCE: UserNetworkDataI.h:1125-1342 -/
def setProperty (k : InfoType) (r : Info) (p : List Byte × List Byte) : Option Info :=
  match columnOf k p.1 with
  | some c => (ValueOf.read c.isText p.2).map fun v => update r c v
  | none => some r

/-- `setXxxInfo`. SOURCE: UserNetworkDataI.h:1125-1342 -/
def setProperties (k : InfoType) (r : Info) (data : Str2StrMap) : Option Info :=
  data.foldlM (setProperty k) r

/-! ## The buffer -/

/-- SOURCE: UserNetwork.ice:232-243 -/
structure NetworkData where
  userId : ℤ
  seq : InfoType → List Info

/-- The buffer of an entry, as the fields it packs. -/
structure BinString where
  userId : ℤ
  records : InfoType → List Fields

/-- SOURCE: UserNetworkDataI.h:240-344 -/
def NetworkData.serialize (data : NetworkData) : BinString where
  userId := data.userId
  records k := (data.seq k).map fun r => (packed k).map fun c => ⟨c, r c⟩

/-- A packed record back in an object, with the owner's id. -/
def unpack (k : InfoType) (userId : ℤ) (fields : Fields) : Info :=
  setFields k (update Info.blank .userId userId) fields

/-- SOURCE: UserNetworkDataI.h:346-482 -/
def NetworkData.unSerialize (bp : BinString) : NetworkData where
  userId := bp.userId
  seq k := (bp.records k).map (unpack k bp.userId)

/-! ## NetworkCacheData -/

/-- The field of the records held that `addInfo` compares with the id of the new one.
SOURCE: UserNetworkDataI.h:532-703 -/
def addInfoField : InfoType → Info → ℤ
  | .juniorHighSchool => Info.userId
  | _ => Info.id

/-- A call that throws leaves the buffer as it is. SOURCE: UserNetworkDataI.h:525-707 -/
def addInfo (data : Str2StrMap) (k : InfoType) (bp : BinString) : Option BinString := do
  let source := NetworkData.unSerialize bp
  let rs ← setProperties k Info.blank data
  let seq := source.seq k
  let des := if seq.any (fun r => addInfoField k r = rs.id) then seq else seq ++ [rs]
  some (NetworkData.serialize { source with seq := update source.seq k des })

/-- SOURCE: UserNetworkDataI.h:930-957 -/
def removeNetworkInfo (typeId : ℤ) (source : List Info) : ChangeType → List Info
  | .infoTypeId => source.filter (fun r => r.networkId ≠ typeId)
  | .infoStage => source.filter (fun r => r.stage ≠ typeId)
  | _ => []

/-- SOURCE: UserNetworkDataI.h:959-977 -/
def removeHighSchoolInfo (typeId : ℤ) (source : List Info) : ChangeType → List Info
  | .infoId => source.filter (fun r => r.id ≠ typeId)
  | _ => []

/-- SOURCE: UserNetworkDataI.h:979-1006 -/
def removeUniversityInfo (typeId : ℤ) (source : List Info) : ChangeType → List Info
  | .infoId => source.filter (fun r => r.id ≠ typeId)
  | .infoTypeId => source.filter (fun r => r.universityId ≠ typeId)
  | _ => []

/-- SOURCE: UserNetworkDataI.h:1008-1035 -/
def removeWorkspaceInfo (typeId : ℤ) (source : List Info) : ChangeType → List Info
  | .infoId => source.filter (fun r => r.id ≠ typeId)
  | .infoTypeId => source.filter (fun r => r.workplaceId ≠ typeId)
  | _ => []

/-- SOURCE: UserNetworkDataI.h:1037-1055 -/
def removeCollegeInfo (typeId : ℤ) (source : List Info) : ChangeType → List Info
  | .infoId => source.filter (fun r => r.id ≠ typeId)
  | _ => []

/-- SOURCE: UserNetworkDataI.h:1076-1099 -/
def removeElementarySchoolInfo (typeId : ℤ) (source : List Info) : ChangeType → List Info
  | .infoTypeId => source.filter (fun r => r.elementarySchoolId ≠ typeId)
  | .infoId => source.filter (fun r => r.id ≠ typeId)
  | _ => []

/-- SOURCE: UserNetworkDataI.h:1101-1123 -/
def removeJuniorHighSchoolInfo (typeId : ℤ) (source : List Info) : ChangeType → List Info
  | .infoTypeId => source.filter (fun r => r.juniorHighSchoolId ≠ typeId)
  | .infoId => source.filter (fun r => r.id ≠ typeId)
  | _ => []

/-- SOURCE: UserNetworkDataI.h:1057-1074 -/
def removeRegionInfo (typeId : ℤ) (source : List Info) : ChangeType → List Info
  | .infoTypeId => source.filter (fun r => r.regionId ≠ typeId)
  | _ => []

/-- The list of one kind after `removeInfo`. SOURCE: UserNetworkDataI.h:716-776 -/
def removeSeq (typeId : ℤ) (source : List Info) (changeType : ChangeType) : InfoType → List Info
  | .network => removeNetworkInfo typeId source changeType
  | .highSchool => removeHighSchoolInfo typeId source changeType
  | .university => removeUniversityInfo typeId source changeType
  | .workspace => removeWorkspaceInfo typeId source changeType
  | .college => removeCollegeInfo typeId source changeType
  | .elementarySchool => removeElementarySchoolInfo typeId source changeType
  | .juniorHighSchool => removeJuniorHighSchoolInfo typeId source changeType
  | .region => removeRegionInfo typeId source changeType

/-- SOURCE: UserNetworkDataI.h:709-780 -/
def removeInfo (typeId : ℤ) (k : InfoType) (changeType : ChangeType) (bp : BinString) : BinString :=
  let source := NetworkData.unSerialize bp
  let des := removeSeq typeId (source.seq k) changeType k
  NetworkData.serialize { source with seq := update source.seq k des }

/-- The field by which `setInfo` selects records. SOURCE: UserNetworkDataI.h:789-867 -/
def setInfoField : InfoType → Info → ℤ
  | .network => Info.networkId
  | .region => Info.regionId
  | _ => Info.id

/-- SOURCE: UserNetworkDataI.h:782-871 -/
def setInfo (typeId : ℤ) (data : Str2StrMap) (k : InfoType) (bp : BinString) : Option BinString := do
  let source := NetworkData.unSerialize bp
  let des ← (source.seq k).mapM fun r =>
    if setInfoField k r = typeId then setProperties k r data else some r
  some (NetworkData.serialize { source with seq := update source.seq k des })

end Oce.UserNetwork
