import Mathlib.Algebra.Group.Int.Defs
import Mathlib.Algebra.Group.Nat.Defs
import Mathlib.Data.Int.Order.Basic
import Mathlib.Data.List.Basic

/-!
# The translator of bid units

A bid unit names who an advertisement is for by a gender code, a stage code and texts of grades,
ages, schools and areas, which are translated into lists of keys; `-1` stands for all grades and
ages, `0` for all schools and areas. Each translation pushes its keys onto a vector it is given
and says whether it came to the end of its text; what it has pushed before stays there.

The tokenizer, `split` and `lexical_cast` are those of boost, of which nothing is assumed; a
text is the list of its characters.
-/

set_option autoImplicit false

namespace Oce.AdEngine

/-- What is used of boost: the tokens of a text and its parts between separators, and the numbers
that are cast from a text, none where the cast throws. -/
structure Boost where
  tokens : Char → List Char → List (List Char)
  split : Char → List Char → List (List Char)
  toShort : List Char → Option ℤ
  toUInt : List Char → Option ℤ

/-- A number as it is in a `short`. -/
def asShort (n : ℤ) : ℤ := n.bmod (2 ^ 16)

/-- A number as it is in a `uint64_t`. -/
def asUInt (n : ℤ) : ℤ := n % 2 ^ 64

/-- `&` of two `int`s. -/
def bitAnd (a b : ℤ) : ℕ := (a % 2 ^ 32).toNat &&& (b % 2 ^ 32).toNat

/-- SOURCE: user_profile.proto:4-16 -/
structure UserProfile where
  id : ℤ
  stage : ℤ
  gender : ℤ
  age : ℤ
  school : ℤ
  grade : ℤ
  current_area : List Char
  ip_area : List Char
  deriving DecidableEq, Repr

namespace Translator

variable (b : Boost)

/-- SOURCE: AdTranslator.cpp:119-134 -/
def ProcessGender (gender_code : ℤ) (genders : List ℤ) : Bool × List ℤ :=
  (true, genders ++
    if gender_code = 0 ∨ gender_code = 1 then [gender_code]
    else if gender_code = 2 then [0, 1]
    else [])

/-- SOURCE: AdTranslator.cpp:136-154 -/
def ProcessStage (stage_code : ℤ) (stages : List ℤ) : Bool × List ℤ :=
  (true, stages ++ (if bitAnd stage_code 1 ≠ 0 then [1] else []) ++
    (if bitAnd stage_code 2 ≠ 0 then [2] else []) ++ if bitAnd stage_code 4 ≠ 0 then [4] else [])

/-- The two ends that a token names, zero where it names none.
SOURCE: AdTranslator.cpp:171-181, 211-221 -/
def bounds : List (List Char) → Option (ℤ × ℤ)
  | [] => some (0, 0)
  | [t] => (b.toShort t).map fun n => (n, 0)
  | t :: t' :: _ => (b.toShort t).bind fun n => (b.toShort t').map fun n' => (n, n')

/-- The keys of a token. A `short` does not get past 32767, so that pushing does not end before
there is no memory left, which is a failure like that of a cast.
SOURCE: AdTranslator.cpp:182-187, 222-227 -/
def range (token : List Char) : Option (List ℤ) :=
  (bounds b (b.tokens ',' token)).bind fun ends =>
    let stop := if ends.2 = 0 ∧ 0 < ends.1 then ends.1 else ends.2
    if ends.1 ≤ stop ∧ stop = 32767 then none
    else some ((List.range (stop - ends.1 + 1).toNat).map fun i => ends.1 + i)

/-- The keys of tokens, up to the first that fails. -/
def pushTokens (f : List Char → Option (List ℤ)) : List (List Char) → List ℤ → Bool × List ℤ
  | [], keys => (true, keys)
  | t :: ts, keys =>
    match f t with
    | none => (false, keys)
    | some more => pushTokens f ts (keys ++ more)

/-- Ranges between semicolons, all of them for an empty text. -/
def pushRanges (code : List Char) (keys : List ℤ) : Bool × List ℤ :=
  if code = [] then (true, keys ++ [-1]) else pushTokens (range b) (b.tokens ';' code) keys

/-- SOURCE: AdTranslator.cpp:157-197 -/
def ProcessGrade (grade_code : List Char) (grades : List ℤ) : Bool × List ℤ :=
  pushRanges b grade_code grades

/-- SOURCE: AdTranslator.cpp:198-237 -/
def ProcessAge (age_code : List Char) (ages : List ℤ) : Bool × List ℤ := pushRanges b age_code ages

/-- The text from the first `0086` on. SOURCE: AdTranslator.cpp:277-279 -/
def from0086 : List Char → Option (List Char)
  | [] => none
  | c :: s => if "0086".toList.isPrefixOf (c :: s) then some (c :: s) else from0086 s

/-- SOURCE: AdTranslator.cpp:268-290 -/
def ProcessLeadingArea (area_code : List Char) (areas : List ℤ) : Bool × List ℤ :=
  pushTokens (fun t =>
    match from0086 t with
    | none => some []
    | some s => (b.toUInt s).map fun area => [area]) (b.tokens ',' area_code) areas

/-- SOURCE: AdTranslator.cpp:292-310 -/
def ProcessRealSchool (school_code : List Char) (schools : List ℤ) : Bool × List ℤ :=
  pushTokens (fun t => (b.toUInt t).map fun school => [school]) (b.tokens ',' school_code) schools

/-- The areas of the first part and the schools of the second, whether these come to their ends
or not. SOURCE: AdTranslator.cpp:239-266 -/
def ProcessSchool (school_code : List Char) (areas schools : List ℤ) : Bool × List ℤ × List ℤ :=
  if school_code = [] then (true, areas, schools ++ [0])
  else
    let result := b.split ';' school_code
    (true,
      match result[0]? with
      | some (c :: s) => (ProcessLeadingArea b (c :: s) areas).2
      | _ => areas,
      match result[1]? with
      | some (c :: s) => (ProcessRealSchool b (c :: s) schools).2
      | _ => schools)

/-- SOURCE: AdTranslator.cpp:312-335 -/
def ProcessArea (area_code : List Char) (areas : List ℤ) : Bool × List ℤ :=
  if area_code = [] then (true, areas ++ [0])
  else pushTokens (fun t => (b.toUInt t).map fun area => [area]) (b.tokens ',' area_code) areas

end Translator

/-! ## Areas -/

/-- SOURCE: AdTranslator.cpp:98, AdInvertedIndex.cpp:156 -/
def province (key : ℤ) : ℤ := key / 10000000000 * 10000000000

/-- SOURCE: AdTranslator.cpp:99, AdInvertedIndex.cpp:157 -/
def COUNTRY : ℤ := 86000000000000

/-! ## Bid units that are matched one by one -/

/-- SOURCE: AdTranslator.h:39-46 -/
structure BidUnit where
  gender : ℤ
  stage : ℤ
  grade : List ℤ
  age : List ℤ
  school : List ℤ
  area : List ℤ
  school_area : List ℤ
  deriving DecidableEq, Repr

namespace BidUnit

/-- The vectors are filled as far as the translations come. SOURCE: AdTranslator.cpp:18-33 -/
def new (b : Boost) (gender stage : ℤ) (grade age school area : List Char) : BidUnit :=
  let unit : BidUnit :=
    ⟨asShort gender, asShort stage, [], (Translator.ProcessAge b age []).2, [], [], []⟩
  if unit.stage = 2 then
    let schools := (Translator.ProcessSchool b school [] []).2
    { unit with
      school_area := schools.1
      school := schools.2
      grade := (Translator.ProcessGrade b grade []).2 }
  else if stage = 4 then { unit with area := (Translator.ProcessArea b area []).2 }
  else if stage = 6 then { unit with area := (Translator.ProcessArea b area []).2, grade := [-1] }
  else unit

/-- SOURCE: AdTranslator.cpp:88-117 -/
def AreaMatch (key : ℤ) (area : List ℤ) : Bool :=
  area = [] ∨ area.head? = some 0 ∨ key ∈ area ∨
    (province key ≠ key ∧ province key ∈ area) ∨ (province key ≠ COUNTRY ∧ COUNTRY ∈ area)

/-- Whether the area of a text matches; a cast that throws leaves `Match` with false.
SOURCE: AdTranslator.cpp:68, 76, 80-85 -/
def AreaTextMatch (b : Boost) (text : List Char) (area : List ℤ) : Bool :=
  match b.toUInt text with
  | none => false
  | some key => AreaMatch key area

/-- SOURCE: AdTranslator.cpp:35-86 -/
def Match (b : Boost) (u : BidUnit) (p : UserProfile) : Bool :=
  if u.gender ≠ 2 ∧ p.gender ≠ u.gender then false
  else if bitAnd p.stage u.stage = 0 then false
  else if u.age ≠ [] ∧ u.age.head? ≠ some (-1) ∧ asShort p.age ∉ u.age then false
  else if p.stage = 2 then
    if u.school = [] ∨ u.school.head? = some 0 ∨ asUInt p.school ∈ u.school ∨
        AreaTextMatch b p.current_area u.school_area then
      u.grade = [] ∨ u.grade.head? = some (-1) ∨ p.grade ∈ u.grade
    else false
  else if p.stage = 4 then AreaTextMatch b p.ip_area u.area
  else false

end BidUnit

end Oce.AdEngine
