import Mathlib.Algebra.GroupWithZero.Nat
import Mathlib.Data.List.Basic
import Oce.Base.Reader
import Oce.Base.Int32

/-!
# The bytes of a user's networks

`NetworkDataI::serialize` adds the fields of the eight kinds of records one after the other to a
`BinString`, and `NetworkDataI::unSerialize` takes them off in the same order. The owner's id is
added once, and the records get it back from there. A record of an elementary or a junior high
school has its id in a derived class; `none` is an object of the base class. The entries of the
cache, in `Oce.UserNetwork.Model.Record`, keep the fields of a buffer as they are.
-/

set_option autoImplicit false

namespace Oce.UserNetwork.Packed

open Oce.Base

/-!
## The buffer of a packed object

`BinString` grows a buffer with the number of bytes in it and the number it has room for, both
`int`s. `none` stands for what is not defined or throws: a sum that overflows, a room that cannot be
allocated, a write past the room, a string of negative length. zlib is not part of the repository:
`Gzip` is what its documentation promises.
-/

/-- `gzip_compress` and `gzip_uncompress` around zlib's `deflate` and `inflate`, which grows its
input by a few bytes in a thousand at most. SOURCE: util/cpp/String.h:110-211 -/
structure Gzip where
  compress : List UInt8 → List UInt8
  uncompress : List UInt8 → List UInt8
  uncompress_compress : ∀ bs, bs.length < 2 ^ 31 → uncompress (compress bs) = bs
  length_compress : ∀ bs, bs.length < 2 ^ 31 → (compress bs).length < 2 ^ 32

/-- The four bytes of an `int`, the lowest first. -/
def intBytes (v : Int32) : List UInt8 :=
  let n := v.toBitVec.toNat
  [UInt8.ofNat n, UInt8.ofNat (n / 2 ^ 8), UInt8.ofNat (n / 2 ^ 16), UInt8.ofNat (n / 2 ^ 24)]

/-- The `int` that four bytes are. -/
def intOf (bs : List UInt8) : Int32 :=
  .ofBitVec (BitVec.ofNat 32 (bs.foldr (fun b n => b.toNat + 2 ^ 8 * n) 0))

/-- A sum of two `int`s. -/
def intSum (a b : ℤ) : Option ℤ := if IsInt (a + b) then some (a + b) else none

/-- The bytes that were written, and the two counts. SOURCE: BinString.h:11-47 -/
structure BinString where
  buffer : List UInt8
  bufferLen : ℤ
  bufferCapacity : ℤ
  deriving DecidableEq

namespace BinString

/-- SOURCE: BinString.cpp:21-25 -/
def empty : BinString := ⟨[], 0, 64⟩

/-- What is in the buffer is copied, so that it has to fit. SOURCE: BinString.cpp:127-140 -/
def addBuffer (b : BinString) (len : ℕ) : Option BinString := do
  let ncapacity ← if asInt len < 64 then intSum b.bufferLen 64 else some (asInt (b.bufferLen + len))
  if ncapacity < b.bufferLen then none else some { b with bufferCapacity := ncapacity }

/-- The check in front of every write; `len` is the size where it is an `int`, `size` where it is
not. -/
def reserve (b : BinString) (len : ℤ) (size : ℕ) : Option BinString := do
  let need ← intSum b.bufferLen len
  if b.bufferCapacity < need then b.addBuffer size else some b

/-- A copy to the end of the buffer. -/
def write (b : BinString) (bs : List UInt8) : Option BinString :=
  if b.bufferLen + bs.length ≤ b.bufferCapacity then
    some { b with buffer := b.buffer ++ bs, bufferLen := b.bufferLen + bs.length }
  else none

/-- SOURCE: BinString.h:18-33 -/
def addInt (b : BinString) (value : Int32) : Option BinString := do
  let b ← b.reserve 4 4
  b.write (intBytes value)

/-- SOURCE: BinString.cpp:34-54 -/
def addString (b : BinString) (str : List UInt8) : Option BinString := do
  let b ← b.addInt (.ofNat str.length)
  if str = [] then some b
  else (b.reserve (asInt str.length) str.length).bind fun b => b.write str

/-- `string(m_pBuffer, m_nBufferLen)`. -/
def contents (b : BinString) : Option (List UInt8) :=
  if b.bufferLen < 0 then none else some (b.buffer.take b.bufferLen.toNat)

/-- The capacity stays what it was. SOURCE: BinString.cpp:84-106 -/
def compress (gz : Gzip) (b : BinString) : Option BinString :=
  b.contents.map fun sourceStr =>
    let desStr := gz.compress sourceStr
    { b with buffer := desStr, bufferLen := asInt desStr.length }

/-- SOURCE: BinString.cpp:108-125 -/
def unCompress (gz : Gzip) (b : BinString) : Option (List UInt8) := b.contents.map gz.uncompress

end BinString

/-! ## The records. SOURCE: UserNetwork.ice:90-243 -/

structure Network where
  id : Int32
  userId : Int32
  stage : Int32
  infoId : Int32
  joinTime : List UInt8
  status : Int32
  networkName : List UInt8
  infoType : Int32
  networkId : Int32
  deriving DecidableEq

structure HighSchoolInfo where
  id : Int32
  userId : Int32
  highSchoolId : Int32
  highSchoolName : List UInt8
  enrollYear : Int32
  hClass1 : List UInt8
  hClass2 : List UInt8
  hClass3 : List UInt8
  deriving DecidableEq

structure UniversityInfo where
  id : Int32
  userId : Int32
  universityId : Int32
  universityName : List UInt8
  dorm : List UInt8
  department : List UInt8
  typeOfCourse : List UInt8
  enrollYear : Int32
  deriving DecidableEq

structure WorkspaceInfo where
  id : Int32
  userId : Int32
  workplaceId : Int32
  workplaceName : List UInt8
  address : List UInt8
  description : List UInt8
  province : List UInt8
  cityId : Int32
  cityName : List UInt8
  joinYear : Int32
  joinMonth : Int32
  quitYear : Int32
  quitMonth : Int32
  type : Int32
  jobTitleId : Int32
  positionId : Int32
  deriving DecidableEq

structure CollegeInfo where
  id : Int32
  userId : Int32
  collegeId : Int32
  collegeName : List UInt8
  department : List UInt8
  enrollYear : Int32
  deriving DecidableEq

structure ElementarySchoolInfo where
  id : Option Int32
  userId : Int32
  elementarySchoolId : Int32
  elementarySchoolName : List UInt8
  elementarySchoolYear : Int32
  deriving DecidableEq

structure JuniorHighSchoolInfo where
  id : Option Int32
  userId : Int32
  juniorHighSchoolId : Int32
  juniorHighSchoolName : List UInt8
  juniorHighSchoolYear : Int32
  deriving DecidableEq

structure RegionInfo where
  id : Int32
  userId : Int32
  regionId : Int32
  provinceName : List UInt8
  cityName : List UInt8
  deriving DecidableEq

structure NetworkData where
  userId : Int32
  networks : List Network
  highschools : List HighSchoolInfo
  universities : List UniversityInfo
  workspaces : List WorkspaceInfo
  colleges : List CollegeInfo
  elementaries : List ElementarySchoolInfo
  juniorhighschools : List JuniorHighSchoolInfo
  regions : List RegionInfo
  deriving DecidableEq

/-! ## Serialising -/

/-- What is added to the buffer. -/
inductive Field where
  | int (value : Int32)
  | text (str : List UInt8)

def Field.add (b : BinString) : Field → Option BinString
  | int value => b.addInt value
  | text str => b.addString str

/-! The fields of a record, in the order of the loops. SOURCE: UserNetworkDataI.h:247-338 -/

def Network.fields (r : Network) : List Field :=
  [.int r.id, .int r.stage, .int r.infoId, .text r.joinTime, .int r.status, .text r.networkName,
    .int r.infoType, .int r.networkId]

def HighSchoolInfo.fields (r : HighSchoolInfo) : List Field :=
  [.int r.id, .int r.highSchoolId, .text r.highSchoolName, .int r.enrollYear, .text r.hClass1,
    .text r.hClass2, .text r.hClass3]

def UniversityInfo.fields (r : UniversityInfo) : List Field :=
  [.int r.id, .int r.universityId, .text r.universityName, .text r.dorm, .text r.department,
    .text r.typeOfCourse, .int r.enrollYear]

def WorkspaceInfo.fields (r : WorkspaceInfo) : List Field :=
  [.int r.id, .int r.workplaceId, .text r.workplaceName, .text r.address, .text r.description,
    .text r.province, .int r.cityId, .text r.cityName, .int r.joinYear, .int r.joinMonth,
    .int r.quitYear, .int r.quitMonth, .int r.type, .int r.jobTitleId, .int r.positionId]

def CollegeInfo.fields (r : CollegeInfo) : List Field :=
  [.int r.id, .int r.collegeId, .text r.collegeName, .text r.department, .int r.enrollYear]

/-- The cast to the derived class throws where the object is of the base class. -/
def ElementarySchoolInfo.fields (r : ElementarySchoolInfo) : Option (List Field) :=
  r.id.map fun id =>
    [.int id, .int r.elementarySchoolId, .text r.elementarySchoolName, .int r.elementarySchoolYear]

def JuniorHighSchoolInfo.fields (r : JuniorHighSchoolInfo) : Option (List Field) :=
  r.id.map fun id =>
    [.int id, .int r.juniorHighSchoolId, .text r.juniorHighSchoolName, .int r.juniorHighSchoolYear]

def RegionInfo.fields (r : RegionInfo) : List Field :=
  [.int r.id, .int r.regionId, .text r.provinceName, .text r.cityName]

/-- The size of a sequence, and the fields of its records. -/
def seqFields {ι : Type} (fields : ι → List Field) (rs : List ι) : List Field :=
  .int (.ofNat rs.length) :: rs.flatMap fields

def NetworkData.fields (d : NetworkData) : Option (List Field) := do
  let elementaries ← d.elementaries.mapM ElementarySchoolInfo.fields
  let juniorhighschools ← d.juniorhighschools.mapM JuniorHighSchoolInfo.fields
  return [.int d.userId] ++ seqFields Network.fields d.networks ++
    seqFields HighSchoolInfo.fields d.highschools ++ seqFields UniversityInfo.fields d.universities ++
    seqFields WorkspaceInfo.fields d.workspaces ++ seqFields CollegeInfo.fields d.colleges ++
    seqFields (fun fs => fs) elementaries ++ seqFields (fun fs => fs) juniorhighschools ++
    seqFields RegionInfo.fields d.regions

/-- SOURCE: UserNetworkDataI.h:240-344 -/
def NetworkData.serialize (gz : Gzip) (d : NetworkData) : Option BinString := do
  let fields ← d.fields
  let binString ← fields.foldlM Field.add BinString.empty
  binString.compress gz

/-! ## Unserialising -/

abbrev NetworkReader := Reader NetworkData UInt8

/-- `GET_INT_VALUE`, which assigns the value before it looks at the count.
SOURCE: UserNetworkDataI.h:20-29 -/
def getInt (assign : Int32 → NetworkData → NetworkData) : NetworkReader Int32 := do
  let bs ← Reader.next 4 fun bs => assign (intOf bs)
  return intOf bs

/-- `GET_INT_VALUE` of a variable, or of a field of a record that is not in the object yet. -/
def getLocal : NetworkReader Int32 := getInt fun _ d => d

/-- `GET_STRING_VALUE`. SOURCE: UserNetworkDataI.h:31-48 -/
def getString : NetworkReader (List UInt8) := do
  let strlen ← getLocal
  if strlen.toInt < 0 then failure else Reader.next strlen.toInt.toNat fun _ d => d

/-! The bodies of the loops. SOURCE: UserNetworkDataI.h:366-474 -/

def readNetwork (userId : Int32) : NetworkReader Unit := do
  let id ← getLocal
  let stage ← getLocal
  let infoId ← getLocal
  let joinTime ← getString
  let status ← getLocal
  let networkName ← getString
  let infoType ← getLocal
  let networkId ← getLocal
  Reader.fill fun d => { d with networks := d.networks ++
    [⟨id, userId, stage, infoId, joinTime, status, networkName, infoType, networkId⟩] }

def readHighSchool (userId : Int32) : NetworkReader Unit := do
  let id ← getLocal
  let highSchoolId ← getLocal
  let highSchoolName ← getString
  let enrollYear ← getLocal
  let hClass1 ← getString
  let hClass2 ← getString
  let hClass3 ← getString
  Reader.fill fun d => { d with highschools := d.highschools ++
    [⟨id, userId, highSchoolId, highSchoolName, enrollYear, hClass1, hClass2, hClass3⟩] }

def readUniversity (userId : Int32) : NetworkReader Unit := do
  let id ← getLocal
  let universityId ← getLocal
  let universityName ← getString
  let dorm ← getString
  let department ← getString
  let typeOfCourse ← getString
  let enrollYear ← getLocal
  Reader.fill fun d => { d with universities := d.universities ++
    [⟨id, userId, universityId, universityName, dorm, department, typeOfCourse, enrollYear⟩] }

def readWorkspace (userId : Int32) : NetworkReader Unit := do
  let id ← getLocal
  let workplaceId ← getLocal
  let workplaceName ← getString
  let address ← getString
  let description ← getString
  let province ← getString
  let cityId ← getLocal
  let cityName ← getString
  let joinYear ← getLocal
  let joinMonth ← getLocal
  let quitYear ← getLocal
  let quitMonth ← getLocal
  let type ← getLocal
  let jobTitleId ← getLocal
  let positionId ← getLocal
  Reader.fill fun d => { d with workspaces := d.workspaces ++
    [⟨id, userId, workplaceId, workplaceName, address, description, province, cityId, cityName,
      joinYear, joinMonth, quitYear, quitMonth, type, jobTitleId, positionId⟩] }

def readCollege (userId : Int32) : NetworkReader Unit := do
  let id ← getLocal
  let collegeId ← getLocal
  let collegeName ← getString
  let department ← getString
  let enrollYear ← getLocal
  Reader.fill fun d => { d with colleges := d.colleges ++
    [⟨id, userId, collegeId, collegeName, department, enrollYear⟩] }

def readElementary (userId : Int32) : NetworkReader Unit := do
  let id ← getLocal
  let elementarySchoolId ← getLocal
  let elementarySchoolName ← getString
  let elementarySchoolYear ← getLocal
  Reader.fill fun d => { d with elementaries := d.elementaries ++
    [⟨some id, userId, elementarySchoolId, elementarySchoolName, elementarySchoolYear⟩] }

def readJuniorHighSchool (userId : Int32) : NetworkReader Unit := do
  let id ← getLocal
  let juniorHighSchoolId ← getLocal
  let juniorHighSchoolName ← getString
  let juniorHighSchoolYear ← getLocal
  Reader.fill fun d => { d with juniorhighschools := d.juniorhighschools ++
    [⟨some id, userId, juniorHighSchoolId, juniorHighSchoolName, juniorHighSchoolYear⟩] }

def readRegion (userId : Int32) : NetworkReader Unit := do
  let id ← getLocal
  let regionId ← getLocal
  let provinceName ← getString
  let cityName ← getString
  Reader.fill fun d => { d with regions := d.regions ++
    [⟨id, userId, regionId, provinceName, cityName⟩] }

/-- The size of a sequence, and its loop. -/
def readSection (body : NetworkReader Unit) : NetworkReader Unit := do
  let vectorSize ← getLocal
  Reader.times vectorSize.toInt.toNat body

def readData : NetworkReader Unit := do
  let userId ← getInt fun x d => { d with userId := x }
  readSection (readNetwork userId)
  readSection (readHighSchool userId)
  readSection (readUniversity userId)
  readSection (readWorkspace userId)
  readSection (readCollege userId)
  readSection (readElementary userId)
  readSection (readJuniorHighSchool userId)
  readSection (readRegion userId)

/-- A new object. -/
def NetworkData.empty : NetworkData := ⟨0, [], [], [], [], [], [], [], []⟩

/-- What a new object is filled with. SOURCE: UserNetworkDataI.h:346-482 -/
def NetworkData.unSerialize (gz : Gzip) (bp : BinString) : Option NetworkData :=
  (bp.unCompress gz).map fun p =>
    let total := asInt p.length
    if total = 0 then NetworkData.empty else (readData.run.run (NetworkData.empty, ⟨p, total⟩)).2.1

end Oce.UserNetwork.Packed
