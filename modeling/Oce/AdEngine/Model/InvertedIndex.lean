import Mathlib.Data.Finset.Basic
import Mathlib.Data.Finset.Lattice.Basic
import Mathlib.Logic.Function.Basic
import Oce.AdEngine.Model.Translator
import Oce.Base.Bytes

/-!
# The inverted index of advertisements

Groups of advertisements are found by the keys of their bid units: for each zone there is an
index for each of six dimensions, from keys to the groups that have a unit with the key. `Get`
intersects what it finds for a profile. A group stands for its id.

One row of `bid_unit` is indexed in every zone of its group in turn. The vectors the keys go
through are the same for all of them, and are emptied when a translation has come to its end:
what one that has not leaves there goes with the keys of the next.
-/

set_option autoImplicit false

namespace Oce.AdEngine

/-! ## Indexes -/

/-- The index of one dimension. SOURCE: AdInvertedIndex.h:36, 56 -/
abbrev KeyIndex := ℤ → Finset ℤ

namespace KeyIndex

/-- SOURCE: AdInvertedIndex.cpp:63-69, 111-117 -/
def Add (index : KeyIndex) (keys : List ℤ) (group : ℤ) : KeyIndex :=
  fun key => if key ∈ keys then insert group (index key) else index key

/-- What is found with the key and with the key for all. SOURCE: AdInvertedIndex.cpp:88-102, 136-150 -/
def GetWithAll (all : ℤ) (index : KeyIndex) (key : ℤ) : Finset ℤ := index key ∪ index all

/-- SOURCE: AdInvertedIndex.cpp:152-182 -/
def GetWithAllAreas (index : KeyIndex) (key : ℤ) : Finset ℤ :=
  index key ∪ (if province key ≠ key then index (province key) else ∅) ∪
    if province key ≠ COUNTRY then index COUNTRY else ∅

end KeyIndex

/-- SOURCE: AdInvertedIndex.h:92-97 -/
inductive Dim where
  | gender
  | stage
  | grade
  | age
  | area
  | school
  deriving DecidableEq, Repr

/-- The indexes of a zone. SOURCE: AdInvertedIndex.h:83-98 -/
abbrev DimIndex := Dim → KeyIndex

/-- The keys of a unit in each dimension. -/
abbrev UnitKeys := Dim → List ℤ

/-! ## Rows and groups -/

/-- SOURCE: AdInvertedIndex.cpp:295-304 -/
structure BidUnitRow where
  adgroup_id : ℤ
  bid_unit_id : ℤ
  member_id : ℤ
  cast_gender : ℤ
  cast_stage : ℤ
  cast_grade : List Char
  cast_age : List Char
  cast_school : List Char
  cast_area : List Char
  deriving DecidableEq, Repr

/-- SOURCE: AdStruct.h:814-827 -/
structure AdGroup where
  display_type : ℤ
  zone_ids : List ℤ
  bid_unit_id : ℤ
  bid_unit : Option BidUnit
  deriving DecidableEq, Repr

/-- The vectors that the keys go through. SOURCE: AdInvertedIndex.cpp:319-320 -/
structure KeyVectors where
  short_keys : List ℤ
  uint_keys : List ℤ
  deriving DecidableEq, Repr

/-- What a translation adds to an index: its keys when it has come to its end. -/
def added (r : Bool × List ℤ) : List ℤ := if r.1 then r.2 else []

/-- What a translation leaves in its vector. -/
def left (r : Bool × List ℤ) : List ℤ := if r.1 then [] else r.2

/-- What a row adds to the indexes of a zone, and what it leaves in the vectors for the next.
SOURCE: AdInvertedIndex.cpp:330-364 -/
def rowKeys (b : Boost) (row : BidUnitRow) (v : KeyVectors) : UnitKeys × KeyVectors :=
  let genders := Translator.ProcessGender row.cast_gender v.short_keys
  let stages := Translator.ProcessStage row.cast_stage (left genders)
  let ages := Translator.ProcessAge b row.cast_age (left stages)
  if row.cast_stage = 2 then
    let schools := Translator.ProcessSchool b row.cast_school v.uint_keys []
    let grades := Translator.ProcessGrade b row.cast_grade (left ages)
    (fun
      | .gender => added genders
      | .stage => added stages
      | .age => added ages
      | .area => if schools.1 then schools.2.1 else []
      | .school => if schools.1 then schools.2.2 else []
      | .grade => added grades,
      ⟨left grades, if schools.1 then [] else schools.2.1⟩)
  else if row.cast_stage = 4 ∨ row.cast_stage = 6 then
    let areas := Translator.ProcessArea b row.cast_area v.uint_keys
    let grades := if row.cast_stage = 6 ∧ areas.1 then left ages ++ [-1] else []
    (fun
      | .gender => added genders
      | .stage => added stages
      | .age => added ages
      | .area => added areas
      | .school => []
      | .grade => grades,
      ⟨if row.cast_stage = 6 ∧ areas.1 then [] else left ages, left areas⟩)
  else
    (fun
      | .gender => added genders
      | .stage => added stages
      | .age => added ages
      | .area | .school | .grade => [],
      ⟨left ages, v.uint_keys⟩)

/-! ## The index -/

/-- SOURCE: AdInvertedIndex.h:113 -/
structure AdInvertedIndex where
  zone_index : ℤ → Option DimIndex

namespace AdInvertedIndex

/-- The indexes of a zone, those of a new one where there are none.
SOURCE: AdInvertedIndex.cpp:324-329 -/
def dimIndex (zone_index : ℤ → Option DimIndex) (zone_id : ℤ) : DimIndex :=
  (zone_index zone_id).getD fun _ _ => ∅

/-- A row is indexed in the zones of its group, in turn. SOURCE: AdInvertedIndex.cpp:321-365 -/
def loadZones (b : Boost) (row : BidUnitRow) :
    List ℤ → KeyVectors → (ℤ → Option DimIndex) → (ℤ → Option DimIndex)
  | [], _, zone_index => zone_index
  | zone_id :: zones, v, zone_index =>
    let r := rowKeys b row v
    loadZones b row zones r.2 (Function.update zone_index zone_id
      (some fun d => (dimIndex zone_index zone_id d).Add (r.1 d) row.adgroup_id))

/-- Whether the groups of a display type are found by the index. SOURCE: AdInvertedIndex.cpp:316 -/
def isIndexed (isForBrand : Bool) (display_type : ℤ) : Bool :=
  if isForBrand then display_type ≠ 1 ∧ display_type ≠ 4 else display_type = 4

/-- One row, with the indexes and the groups. SOURCE: AdInvertedIndex.cpp:294-370 -/
def loadRow (b : Boost) (isForBrand : Bool) (st : (ℤ → Option DimIndex) × (ℤ → Option AdGroup))
    (row : BidUnitRow) : (ℤ → Option DimIndex) × (ℤ → Option AdGroup) :=
  match st.2 row.adgroup_id with
  | none => st
  | some group =>
    let group := { group with bid_unit_id := row.bid_unit_id }
    let groups := Function.update st.2 row.adgroup_id (some group)
    if row.member_id = 999 then (st.1, groups)
    else if isIndexed isForBrand group.display_type then
      (loadZones b row group.zone_ids ⟨[], []⟩ st.1, groups)
    else if group.display_type = 1 then
      (st.1, Function.update groups row.adgroup_id (some { group with
        bid_unit := some (.new b row.cast_gender row.cast_stage row.cast_grade row.cast_age
          row.cast_school row.cast_area) }))
    else (st.1, groups)

/-- The rows are those that are not deleted. SOURCE: AdInvertedIndex.cpp:263-378 -/
def TotalLoad (b : Boost) (isForBrand : Bool) (s : AdInvertedIndex) (rows : List BidUnitRow)
    (groups : ℤ → Option AdGroup) : Bool × AdInvertedIndex × (ℤ → Option AdGroup) :=
  if rows = [] then (false, s, groups)
  else
    let st := rows.foldl (loadRow b isForBrand) (fun _ => none, groups)
    (true, ⟨st.1⟩, st.2)

/-- What is put into `result_set`; a cast of an area that throws leaves `Get`.
SOURCE: AdInvertedIndex.cpp:184-251 -/
def Get (b : Boost) (s : AdInvertedIndex) (profile : UserProfile) (zone_id : ℤ)
    (result_set : Finset ℤ) : Option (Bool × Finset ℤ) :=
  match s.zone_index zone_id with
  | none => some (false, result_set)
  | some dim_index =>
    let result_set := result_set ∪
      (dim_index .gender (asShort profile.gender) ∩ dim_index .stage (asShort profile.stage))
    let result_set := result_set ∩ (dim_index .age).GetWithAll (-1) (asShort profile.age)
    if profile.stage = 4 then
      (b.toUInt profile.ip_area).map fun ip_area =>
        (true, result_set ∩ (dim_index .area).GetWithAllAreas ip_area)
    else
      let result_set := result_set ∩ (dim_index .grade).GetWithAll (-1) (asShort profile.grade)
      (b.toUInt profile.current_area).map fun area_id =>
        (true, result_set ∩ ((dim_index .school).GetWithAll 0 (asUInt profile.school) ∪
          (dim_index .area).GetWithAllAreas area_id))

end AdInvertedIndex

end Oce.AdEngine

/-!
## The tree of URL patterns

A node has its children by the next character, the zones of the pattern that ends there and whether
one does, which is set when the node is made. A `*` in a pattern stands for a number. It is a child
like any other: a digit that is no child leaves the search where it is when there is a `*`, and the
first other character behind a digit is then looked for behind the `*`.
-/

namespace Oce.AdEngine

open Oce.Base

variable {ζ : Type}

/-- SOURCE: AdStruct.h:71-83 -/
inductive DictNode (ζ : Type) where
  | mk (wordend : Bool) (refererZones : List ζ) (node : Byte → Option (DictNode ζ))

namespace DictNode

/-- SOURCE: AdStruct.h:73-75 -/
def new : DictNode ζ := mk false [] fun _ => none

def wordend : DictNode ζ → Bool
  | mk wordend _ _ => wordend

def refererZones : DictNode ζ → List ζ
  | mk _ zones _ => zones

def node : DictNode ζ → Byte → Option (DictNode ζ)
  | mk _ _ node => node

/-- The child for a character, made where there is none. SOURCE: AdStruct.cpp:23-32 -/
def insert (n : DictNode ζ) (c : Byte) (wordend : Bool) : DictNode ζ :=
  (n.node c).getD (mk wordend [] fun _ => none)

/-- The node with another child for a character. -/
def setNode (n : DictNode ζ) (c : Byte) (child : DictNode ζ) : DictNode ζ :=
  mk n.wordend n.refererZones fun d => if d = c then some child else n.node d

/-- SOURCE: AdStruct.cpp:162 -/
def addZone (n : DictNode ζ) (zone : ζ) : DictNode ζ := mk n.wordend (n.refererZones ++ [zone]) n.node

/-- `*`. -/
def star : Byte := 42

/-- Where the search is behind a node that it has found, none at the end of the text if no pattern
ends there. -/
def landed (m : DictNode ζ) (searchEnd : Bool) : Option (DictNode ζ) :=
  if searchEnd ∧ ¬m.wordend then none else some m

/-- SOURCE: AdStruct.cpp:34-96 -/
def getNext2 (n : DictNode ζ) (c : Byte) (lastisinteger searchEnd : Bool) : Option (DictNode ζ) :=
  match n.node c with
  | some m => m.landed searchEnd
  | none =>
    match n.node star with
    | some m =>
      if isDigit c then
        if searchEnd then m.landed true else some n
      else if lastisinteger then
        match m.node c with
        | some m' => m'.landed searchEnd
        | none => none
      else none
    | none => none

end DictNode

namespace DictTree

/-- What an insert makes of the node that the rest of the text begins at.
SOURCE: AdStruct.cpp:136-143 -/
def insertAt (zone : ζ) : List Byte → DictNode ζ → DictNode ζ
  | [], n => n.addZone zone
  | c :: cs, n => n.setNode c (insertAt zone cs (n.insert c (cs = [])))

/-- SOURCE: AdStruct.cpp:136-143 -/
def insert (root : DictNode ζ) (str : List Byte) (zone : ζ) : DictNode ζ := insertAt zone str root

/-- The loop of `search`. SOURCE: AdStruct.cpp:150-160 -/
def searchFrom (lastisinteger : Bool) : List Byte → DictNode ζ → Option (DictNode ζ)
  | [], index => some index
  | c :: cs, index => (index.getNext2 c lastisinteger (cs = [])).bind (searchFrom (isDigit c) cs)

/-- The zones, none where nothing is found. SOURCE: AdStruct.cpp:145-165 -/
def search (root : DictNode ζ) (str : List Byte) : Option (List ζ) :=
  (searchFrom false str root).map DictNode.refererZones

/-- The tree behind some inserts. -/
def build (inserts : List (List Byte × ζ)) : DictNode ζ :=
  inserts.foldl (fun root e => insert root e.1 e.2) .new

end DictTree

end Oce.AdEngine
