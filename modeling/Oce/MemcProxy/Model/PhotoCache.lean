import Mathlib.Data.List.Dedup
import Mathlib.Data.List.Sort
import Mathlib.Logic.Function.Basic
import Oce.Base.Bytes
import Oce.Base.Run

/-!
# The cache of photos

`PhotoMemcClient` keeps three kinds of values in memcached: what a photo shows, how it ranks, and
the photos of a user. Each kind prints its keys, serialises and copies its fields by functions of
its own; what they share is the way in (`pack`) and the way out (`unpack`).

Protobuf, quicklz and memcached are not the client's: the first two are parameters, and memcached
with its pool of connections is the last entry under each key.
-/

set_option autoImplicit false

namespace Oce.MemcProxy.PhotoCache

open Oce.Base

/-! ## Photos -/

/-- SOURCE: PhotoMemory.ice:11-19 -/
structure PhotoContent where
  photoid : Int64
  ownerid : Int32
  url : List Byte
  albumname : List Byte
  title : List Byte
  tagusers : List Int32
  deriving DecidableEq

/-- SOURCE: PhotoMemory.ice:21-27 -/
structure PhotoRankInfo where
  photoid : Int64
  clickcount : Int32
  commentcount : Int32
  tagcount : Int32
  time : Int32
  deriving DecidableEq

/-- SOURCE: PhotoMemory.ice:36-39 -/
structure ContentItem where
  photoid : Int64
  ownerid : Int32
  deriving DecidableEq

/-- SOURCE: photo.proto:3-10 -/
structure PbPhotoContent where
  photo : Int64
  url : List Byte
  title : List Byte
  albumname : List Byte
  ownerid : Int32
  taguser : List Int32
  deriving DecidableEq

/-- SOURCE: photo.proto:12-18 -/
structure PbPhotoRankInfo where
  photo : Int64
  clickcount : Int32
  commentcount : Int32
  tagcount : Int32
  time : Int32
  deriving DecidableEq

/-- SOURCE: photo.proto:22-29 -/
structure PbContentItem where
  photoid : Int64
  ownerid : Int32
  deriving DecidableEq

/-! ## The libraries -/

/-- What protobuf does with the messages of a type. -/
structure Protobuf (α : Type) where
  serialize : α → List Byte
  parse : List Byte → α

structure QuickLz where
  compress : List Byte → List Byte
  sizeDecompressed : List Byte → ℕ
  decompress : List Byte → List Byte

structure Libraries where
  content : Protobuf PbPhotoContent
  rankInfo : Protobuf PbPhotoRankInfo
  seq : Protobuf (List PbContentItem)
  lz : QuickLz

/-- SOURCE: compress_wrap.cpp:9-25 -/
def compress (lz : QuickLz) (data : List Byte) : Option (List Byte) :=
  let compressed := lz.compress data
  if compressed.length < data.length then some compressed else none

/-- What does not fit into the buffer is left out. SOURCE: compress_wrap.cpp:27-58 -/
def decompress (lz : QuickLz) (data : List Byte) : List Byte :=
  let size := lz.sizeDecompressed data
  if size + 2 > 16 * 1024 then [] else (lz.decompress data).take size ++ [9, 0]

/-! ## Memcached -/

structure Entry where
  value : List Byte
  flags : Int32
  deriving DecidableEq

abbrev Store := List Byte → Option Entry

/-- The first bit of the flags says whether the value is compressed. -/
def entryOf (value : Bool × List Byte) : Entry := ⟨value.2, if value.1 then 0x01 else 0⟩

def Store.set (store : Store) (key : List Byte) (value : Bool × List Byte) : Store :=
  Function.update store key (some (entryOf value))

/-- The entries under the keys, in the order of the map. -/
def Store.get (store : Store) (keys : List (List Byte)) : List (List Byte × Entry) :=
  (keys.dedup.insertionSort (· ≤ ·)).filterMap fun key => (store key).map (key, ·)

/-- `dict.insert`, which leaves what is there. -/
def insert {α : Type} (dict : Int64 → Option α) (p : Int64 × α) : Int64 → Option α :=
  if (dict p.1).isSome then dict else Function.update dict p.1 (some p.2)

/-! ## The way of every kind -/

/-- `snprintf` into 32 bytes, of which the last is a zero. -/
def printKey (name : List Byte) (id : ℤ) : List Byte := (name ++ intDigits id).take (32 - 1)

/-- `boost::lexical_cast<Ice::Long>`. -/
def lexicalCastLong (text : List Byte) : Option Int64 :=
  ((readInt text).filter fun n => -2 ^ 63 ≤ n ∧ n < 2 ^ 63).map Int64.ofInt

/-- The id of a key: of the name five bytes are compared, and five are left out. -/
def idOfKey (name key : List Byte) : Int64 :=
  if key.length < 5 ∨ name.take 5 ≠ key.take 5 then -1 else (lexicalCastLong (key.drop 5)).getD (-1)

/-- Compressed if that is shorter, with a mark. SOURCE: photo_memc_client.cpp:135-141 -/
def pack (lz : QuickLz) (serialized : List Byte) : Bool × List Byte :=
  match compress lz serialized with
  | some compressed => (true, compressed)
  | none => (false, serialized)

/-- SOURCE: photo_memc_client.cpp:87-95 -/
def unpack (lz : QuickLz) (entry : Entry) : List Byte :=
  if entry.flags &&& 0x01 ≠ 0 then decompress lz entry.value else entry.value

/-- A get for several ids takes the first for its connection, and throws if there is none.
SOURCE: photo_memc_client.cpp:62-101 -/
def getDict {α : Type} (store : Store) (keyOf : Int64 → List Byte)
    (read : List Byte × Entry → Int64 × α) (ids : List Int64) : Option (Int64 → Option α) :=
  if ids = [] then none
  else some (((store.get (ids.map keyOf)).map read).foldl insert fun _ => none)

variable (l : Libraries)

/-! ## Contents -/

def kEmptyPhotoContent : List Byte := ascii "EMPTY_PHOTO_CONTENT"

/-- SOURCE: photo_memc_client.cpp:20-23 -/
def getPhotoContentKey (fid : Int64) : List Byte := printKey (ascii "PHOTO_CONTENT#") fid.toInt

/-- SOURCE: photo_memc_client.cpp:25-37 -/
def getPhotoId4Content (key : List Byte) : Int64 := idOfKey (ascii "PHOTO_CONTENT#") key

/-- SOURCE: photo_memc_client.cpp:40-53 -/
def photoContentPbToIce (pb : PbPhotoContent) : PhotoContent where
  photoid := pb.photo
  url := pb.url
  title := pb.title
  ownerid := pb.ownerid
  albumname := cString pb.albumname
  tagusers := pb.taguser

/-- The message of a content. SOURCE: photo_memc_client.cpp:119-131 -/
def PhotoContent.pb (content : PhotoContent) : PbPhotoContent where
  photo := content.photoid
  url := content.url
  title := content.title
  albumname := content.albumname
  ownerid := content.ownerid
  taguser := content.tagusers

/-- SOURCE: photo_memc_client.cpp:115-143 -/
def serializePhotoContent (content : PhotoContent) : Bool × List Byte :=
  pack l.lz (l.content.serialize content.pb)

/-- SOURCE: photo_memc_client.cpp:155-165 -/
def setPhotoContent (store : Store) (content : PhotoContent) : Store :=
  store.set (getPhotoContentKey content.photoid) (serializePhotoContent l content)

/-- SOURCE: photo_memc_client.cpp:145-152 -/
def setEmptyPhotoContent (store : Store) (id : Int64) : Store :=
  store.set (getPhotoContentKey id) (false, kEmptyPhotoContent)

/-- What an entry puts into the dictionary. SOURCE: photo_memc_client.cpp:81-99 -/
def readPhotoContent (p : List Byte × Entry) : Int64 × Option PhotoContent :=
  if p.2.value = kEmptyPhotoContent then (getPhotoId4Content p.1, none)
  else
    let content := photoContentPbToIce (l.content.parse (unpack l.lz p.2))
    (content.photoid, some content)

/-- SOURCE: photo_memc_client.cpp:62-102 -/
def getPhotoContentDict (store : Store) (ids : List Int64) :
    Option (Int64 → Option (Option PhotoContent)) :=
  getDict store getPhotoContentKey (readPhotoContent l) ids

/-! ## Rank infos -/

def kEmptyPhotoRankInfo : List Byte := ascii "EMPTY_PHOTO_RANK"

/-- SOURCE: photo_memc_client.cpp:189-192 -/
def getPhotoRankInfoKey (fid : Int64) : List Byte := printKey (ascii "PHOTO_RANK#") fid.toInt

/-- SOURCE: photo_memc_client.cpp:194-206 -/
def getPhotoId4RankInfo (key : List Byte) : Int64 := idOfKey (ascii "PHOTO_RANK#") key

/-- The id is not copied. SOURCE: photo_memc_client.cpp:209-216 -/
def photoRankInfoPbToIce (pb : PbPhotoRankInfo) (rankInfo : PhotoRankInfo) : PhotoRankInfo :=
  { rankInfo with
    clickcount := pb.clickcount
    commentcount := pb.commentcount
    tagcount := pb.tagcount
    time := pb.time }

/-- SOURCE: photo_memc_client.cpp:274-280 -/
def PhotoRankInfo.pb (rankInfo : PhotoRankInfo) : PbPhotoRankInfo where
  photo := rankInfo.photoid
  time := rankInfo.time
  clickcount := rankInfo.clickcount
  commentcount := rankInfo.commentcount
  tagcount := rankInfo.tagcount

/-- SOURCE: photo_memc_client.cpp:270-291 -/
def serializePhotoRankInfo (rankInfo : PhotoRankInfo) : Bool × List Byte :=
  pack l.lz (l.rankInfo.serialize rankInfo.pb)

/-- SOURCE: photo_memc_client.cpp:302-312 -/
def setPhotoRankInfo (store : Store) (rankInfo : PhotoRankInfo) : Store :=
  store.set (getPhotoRankInfoKey rankInfo.photoid) (serializePhotoRankInfo l rankInfo)

/-- SOURCE: photo_memc_client.cpp:293-300 -/
def setEmptyPhotoRankInfo (store : Store) (id : Int64) : Store :=
  store.set (getPhotoRankInfoKey id) (false, kEmptyPhotoRankInfo)

/-- A new rank info begins as what is in its memory. SOURCE: photo_memc_client.cpp:237-254 -/
def readPhotoRankInfo (memory : List Byte → PhotoRankInfo) (p : List Byte × Entry) :
    Int64 × Option PhotoRankInfo :=
  if p.2.value = kEmptyPhotoRankInfo then (getPhotoId4RankInfo p.1, none)
  else
    let rankInfo := photoRankInfoPbToIce (l.rankInfo.parse (unpack l.lz p.2)) (memory p.1)
    (rankInfo.photoid, some rankInfo)

/-- SOURCE: photo_memc_client.cpp:219-257 -/
def getPhotoRankInfoDict (memory : List Byte → PhotoRankInfo) (store : Store) (ids : List Int64) :
    Option (Int64 → Option (Option PhotoRankInfo)) :=
  getDict store getPhotoRankInfoKey (readPhotoRankInfo l memory) ids

/-! ## The photos of a user -/

def kEmptyPhotoSeq : List Byte := ascii "EMPTY_PHOTO_SEQ"

/-- SOURCE: photo_memc_client.cpp:335-338 -/
def getPhotoSeqKey (uid : Int32) : List Byte := printKey (ascii "PHOTO_SEQ#") uid.toInt

/-- SOURCE: photo_memc_client.cpp:354-362 -/
def photoSeqPbToIce (pb : List PbContentItem) : List ContentItem :=
  pb.map fun p => ⟨p.photoid, p.ownerid⟩

/-- SOURCE: photo_memc_client.cpp:403-410 -/
def photoSeqPb (photoSeq : List ContentItem) : List PbContentItem :=
  photoSeq.map fun p => ⟨p.photoid, p.ownerid⟩

/-- SOURCE: photo_memc_client.cpp:399-420 -/
def serializePhotoSeq (photoSeq : List ContentItem) : Bool × List Byte :=
  if photoSeq = [] then (false, []) else pack l.lz (l.seq.serialize (photoSeqPb photoSeq))

/-- SOURCE: photo_memc_client.cpp:431-440 -/
def setPhotoSeq (store : Store) (uid : Int32) (photoSeq : List ContentItem) : Store :=
  store.set (getPhotoSeqKey uid) (serializePhotoSeq l photoSeq)

/-- SOURCE: photo_memc_client.cpp:422-429 -/
def setEmptyPhotoSeq (store : Store) (id : Int32) : Store :=
  store.set (getPhotoSeqKey id) (false, kEmptyPhotoSeq)

/-- SOURCE: photo_memc_client.cpp:378-395 -/
def readPhotoSeq (entry : Entry) : List ContentItem :=
  if entry.value = kEmptyPhotoSeq then [] else photoSeqPbToIce (l.seq.parse (unpack l.lz entry))

/-- SOURCE: photo_memc_client.cpp:365-396 -/
def getPhotoSeq (store : Store) (uid : Int32) : List ContentItem :=
  match store (getPhotoSeqKey uid) with
  | none => []
  | some entry => readPhotoSeq l entry

/-! ## Histories -/

inductive Op where
  | setPhotoContent (content : PhotoContent)
  | setEmptyPhotoContent (id : Int64)
  | setPhotoRankInfo (rankInfo : PhotoRankInfo)
  | setEmptyPhotoRankInfo (id : Int64)
  | setPhotoSeq (uid : Int32) (photoSeq : List ContentItem)
  | setEmptyPhotoSeq (uid : Int32)
  deriving DecidableEq

def step (store : Store) : Op → Store
  | .setPhotoContent content => setPhotoContent l store content
  | .setEmptyPhotoContent id => setEmptyPhotoContent store id
  | .setPhotoRankInfo rankInfo => setPhotoRankInfo l store rankInfo
  | .setEmptyPhotoRankInfo id => setEmptyPhotoRankInfo store id
  | .setPhotoSeq uid photoSeq => setPhotoSeq l store uid photoSeq
  | .setEmptyPhotoSeq uid => setEmptyPhotoSeq store uid

/-- What is in memcached after a history. -/
def stored (history : List Op) : Store := runOps (step l) (fun _ => none) history

end Oce.MemcProxy.PhotoCache
