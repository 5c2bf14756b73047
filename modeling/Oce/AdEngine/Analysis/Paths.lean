import Mathlib.Data.Nat.Bitwise
import Oce.AdEngine.Analysis.Targets

/-!
# The two ways to match

A group of one display type is matched by its bid unit, one of another is found by the index.
Both check a gender, a stage, an age, a grade and a place, each in its own way: the unit takes an
empty list, or one that begins with the key for all, as naming all; the index looks for the key
for all wherever it stands, but for areas not at all. `Alike` says for each of the five when they
come out the same; where they do not, one of the two has to turn the profile away elsewhere.
-/

set_option autoImplicit false

namespace Oce.AdEngine

open AdInvertedIndex Translator

variable {b : Boost} {isForBrand : Bool} {row : BidUnitRow} {rows : List BidUnitRow}
  {groups : ℤ → Option AdGroup} {p : UserProfile} {u : BidUnit} {gid z : ℤ}

/-! ## The unit of a row -/

namespace BidUnitRow

/-- The bid unit of a row. -/
def unit (b : Boost) (row : BidUnitRow) : BidUnit :=
  .new b row.cast_gender row.cast_stage row.cast_grade row.cast_age row.cast_school row.cast_area

/-- What its texts are translated into. -/
def grades (b : Boost) (row : BidUnitRow) : List ℤ := (ProcessGrade b row.cast_grade []).2

def ages (b : Boost) (row : BidUnitRow) : List ℤ := (ProcessAge b row.cast_age []).2

def schools (b : Boost) (row : BidUnitRow) : List ℤ := (ProcessSchool b row.cast_school [] []).2.2

def leading (b : Boost) (row : BidUnitRow) : List ℤ := (ProcessSchool b row.cast_school [] []).2.1

def areas (b : Boost) (row : BidUnitRow) : List ℤ := (ProcessArea b row.cast_area []).2

end BidUnitRow

/-- The conditions of `Match`. -/
def Takes (b : Boost) (u : BidUnit) (p : UserProfile) : Condition → Prop
  | .gender => u.gender = 2 ∨ p.gender = u.gender
  | .stage => (p.stage = 2 ∨ p.stage = 4) ∧ bitAnd p.stage u.stage ≠ 0
  | .age => u.age = [] ∨ u.age.head? = some (-1) ∨ asShort p.age ∈ u.age
  | .grade => p.stage = 4 ∨ u.grade = [] ∨ u.grade.head? = some (-1) ∨ p.grade ∈ u.grade
  | .place => if p.stage = 4 then BidUnit.AreaTextMatch b p.ip_area u.area = true
    else u.school = [] ∨ u.school.head? = some 0 ∨ asUInt p.school ∈ u.school ∨
      BidUnit.AreaTextMatch b p.current_area u.school_area = true

/-- A unit matches if it takes every condition. -/
theorem match_iff : u.Match b p = true ↔ ∀ c, Takes b u p c := by
  unfold BidUnit.Match
  constructor
  · intro h
    split_ifs at h with hgender hstage hage h2 hschool h4
    · intro c
      unfold Takes
      cases c with
      | gender => tauto
      | stage => exact ⟨.inl h2, hstage⟩
      | age => tauto
      | grade => exact .inr (of_decide_eq_true h)
      | place =>
          rw [if_neg (by omega)]
          exact hschool
    · intro c
      unfold Takes
      cases c with
      | gender => tauto
      | stage => exact ⟨.inr h4, hstage⟩
      | age => tauto
      | grade => exact .inl h4
      | place =>
          rw [if_pos h4]
          exact h
  · intro h
    have hgender : u.gender = 2 ∨ p.gender = u.gender := h .gender
    obtain ⟨hor, hstage⟩ : (p.stage = 2 ∨ p.stage = 4) ∧ bitAnd p.stage u.stage ≠ 0 := h .stage
    have hage : u.age = [] ∨ u.age.head? = some (-1) ∨ asShort p.age ∈ u.age := h .age
    have hgrade : p.stage = 4 ∨ u.grade = [] ∨ u.grade.head? = some (-1) ∨ p.grade ∈ u.grade := h .grade
    have hplace := h .place
    unfold Takes at hplace
    rw [if_neg (by tauto), if_neg hstage, if_neg (by tauto)]
    rcases hor with h2 | h4
    · rw [if_neg (by omega)] at hplace
      rw [if_pos h2, if_pos hplace]
      exact decide_eq_true (hgrade.resolve_left (by omega))
    · rw [if_pos h4] at hplace
      rw [if_neg (by omega), if_pos h4]
      exact hplace

/-- A unit of a row, by the stage code. -/
theorem unit_eq (b : Boost) (row : BidUnitRow) : row.unit b =
    ⟨asShort row.cast_gender, asShort row.cast_stage,
      if asShort row.cast_stage = 2 then row.grades b else if row.cast_stage = 6 then [-1] else [],
      row.ages b,
      if asShort row.cast_stage = 2 then row.schools b else [],
      if asShort row.cast_stage = 2 then []
      else if row.cast_stage = 4 ∨ row.cast_stage = 6 then row.areas b else [],
      if asShort row.cast_stage = 2 then row.leading b else []⟩ := by
  unfold BidUnitRow.unit BidUnit.new
  dsimp only
  by_cases h2 : asShort row.cast_stage = 2
  · simp only [h2, if_true]
    rfl
  · simp only [if_neg h2]
    by_cases h4 : row.cast_stage = 4
    · have h6 : row.cast_stage ≠ 6 := by omega
      simp only [h4, if_true, true_or]
      rfl
    · by_cases h6 : row.cast_stage = 6
      · simp only [h6, if_true, or_true]
        rfl
      · simp only [h4, h6, or_self, if_false]
        rfl

theorem asShort_of_code {n : ℤ} (h : n = 2 ∨ n = 4 ∨ n = 6) : asShort n = n := by
  rcases h with rfl | rfl | rfl <;> decide

/-! ## Stages -/

/-- A bit below the sixteenth is the same in a `short`. -/
theorem bitAnd_asShort {i : ℕ} (hi : i < 16) (n : ℤ) :
    bitAnd ((2 ^ i : ℕ) : ℤ) (asShort n) = 0 ↔ bitAnd n ((2 ^ i : ℕ) : ℤ) = 0 := by
  have hlt : 2 ^ i < 2 ^ 32 := Nat.pow_lt_pow_right (by omega) (by omega)
  have hpow : (((2 ^ i : ℕ) : ℤ) % 2 ^ 32).toNat = 2 ^ i := by
    generalize 2 ^ i = m at hlt
    omega
  have hmod : (asShort n % 2 ^ 32).toNat % 2 ^ 16 = (n % 2 ^ 32).toNat % 2 ^ 16 := by
    unfold asShort
    rw [Int.bmod_def]
    split_ifs <;> omega
  have hbit : (asShort n % 2 ^ 32).toNat.testBit i = (n % 2 ^ 32).toNat.testBit i := by
    have h := congrArg (fun x => x.testBit i) hmod
    rw [Nat.testBit_mod_two_pow, Nat.testBit_mod_two_pow, decide_eq_true hi] at h
    exact h
  unfold bitAnd
  rw [hpow, Nat.and_comm, Nat.and_two_pow, Nat.and_two_pow, hbit]

theorem mem_stages {c k : ℤ} : k ∈ (ProcessStage c []).2 ↔
    k = 1 ∧ bitAnd c 1 ≠ 0 ∨ k = 2 ∧ bitAnd c 2 ≠ 0 ∨ k = 4 ∧ bitAnd c 4 ≠ 0 := by
  unfold ProcessStage
  dsimp only
  rw [List.nil_append, List.mem_append, List.mem_append, or_assoc]
  refine or_congr ?_ (or_congr ?_ ?_) <;> split_ifs with h <;> simp [h]

/-- For students and employees both look at the same bit. -/
theorem bitAnd_ne_zero_iff {us : ℤ} (hus : us = 2 ∨ us = 4) (c : ℤ) :
    bitAnd us (asShort c) ≠ 0 ↔ asShort us ∈ (ProcessStage c []).2 := by
  rw [mem_stages, asShort_of_code (hus.elim .inl fun h => .inr (.inl h))]
  rcases hus with rfl | rfl
  · have hbit := bitAnd_asShort (i := 1) (by omega) c
    constructor
    · exact fun h => .inr (.inl ⟨rfl, fun h0 => h (hbit.mpr h0)⟩)
    · rintro (⟨h, -⟩ | ⟨-, h⟩ | ⟨h, -⟩)
      · omega
      · exact fun h0 => h (hbit.mp h0)
      · omega
  · have hbit := bitAnd_asShort (i := 2) (by omega) c
    constructor
    · exact fun h => .inr (.inr ⟨rfl, fun h0 => h (hbit.mpr h0)⟩)
    · rintro (⟨h, -⟩ | ⟨h, -⟩ | ⟨-, h⟩)
      · omega
      · omega
      · exact fun h0 => h (hbit.mp h0)

/-- The unit is for students and employees only. -/
def StageAlike (c us : ℤ) : Prop := us = 2 ∨ us = 4 ∨ asShort us ∉ (ProcessStage c []).2

/-- Stage: the match and the keys agree exactly where the two are alike. -/
theorem stage_alike (c us : ℤ) :
    ((us = 2 ∨ us = 4) ∧ bitAnd us (asShort c) ≠ 0 ↔ asShort us ∈ (ProcessStage c []).2) ↔
      StageAlike c us := by
  unfold StageAlike
  by_cases hus : us = 2 ∨ us = 4
  · have hsame : (us = 2 ∨ us = 4) ∧ bitAnd us (asShort c) ≠ 0 ↔ asShort us ∈ (ProcessStage c []).2 := by
      rw [← bitAnd_ne_zero_iff hus c]
      exact ⟨fun h => h.2, fun h => ⟨hus, h⟩⟩
    exact iff_of_true hsame (or_assoc.mp (.inl hus))
  · constructor
    · exact fun h => .inr (.inr fun hmem => hus (h.mpr hmem).1)
    · intro h
      rw [← or_assoc] at h
      exact iff_of_false (fun hand => hus hand.1) (h.resolve_left hus)

/-! ## Genders -/

/-- Code 2 is for the genders 0 and 1 in the index, and for every gender in a unit. -/
def GenderAlike (c g : ℤ) : Prop :=
  if c = 2 then asShort g = 0 ∨ asShort g = 1
  else if c = 0 ∨ c = 1 then asShort g = c → g = c
  else asShort c ≠ 2 ∧ g ≠ asShort c

/-- Gender: the match and the keys agree exactly where the two are alike. -/
theorem gender_alike (c g : ℤ) :
    (asShort c = 2 ∨ g = asShort c ↔ asShort g ∈ (ProcessGender c []).2) ↔ GenderAlike c g := by
  unfold GenderAlike ProcessGender
  dsimp only
  rw [List.nil_append]
  by_cases h2 : c = 2
  · have h01 : ¬ (c = 0 ∨ c = 1) := by omega
    rw [if_neg h01, if_pos h2, if_pos h2, List.mem_cons, List.mem_singleton]
    have hshort : asShort c = 2 := by rw [h2]; rfl
    exact ⟨fun h => h.mp (.inl hshort), fun h => iff_of_true (.inl hshort) h⟩
  · rw [if_neg h2, if_neg h2]
    by_cases h01 : c = 0 ∨ c = 1
    · have hshort : asShort c = c := by
        rcases h01 with rfl | rfl <;> rfl
      rw [if_pos h01, if_pos h01, List.mem_singleton, hshort]
      constructor
      · exact fun h hg => (h.mpr hg).resolve_left h2
      · refine fun h => ⟨fun hor => ?_, fun hg => .inr (h hg)⟩
        rw [hor.resolve_left h2, hshort]
    · rw [if_neg h01, if_neg h01]
      constructor
      · intro h
        have hnot : ¬ (asShort c = 2 ∨ g = asShort c) := fun hor => nomatch h.mp hor
        exact not_or.mp hnot
      · exact fun h => iff_of_false (not_or.mpr h) nofun

/-! ## Lists with a key for all -/

/-- The list is not empty, and when it does not begin with the key for all, that key is not
there for anyone else. -/
def ListAlike (all : ℤ) (keys : List ℤ) (m i : ℤ) : Prop :=
  keys ≠ [] ∧ (keys.head? = some all ∨ (m ∈ keys ↔ i ∈ keys ∨ all ∈ keys))

theorem mem_of_head? {keys : List ℤ} {all : ℤ} (h : keys.head? = some all) : all ∈ keys :=
  List.mem_of_mem_head? (Option.mem_def.mpr h)

/-- Lists of keys: the match and the keys agree exactly where the two are alike. -/
theorem list_alike (all : ℤ) (keys : List ℤ) (m i : ℤ) :
    (keys = [] ∨ keys.head? = some all ∨ m ∈ keys ↔ i ∈ keys ∨ all ∈ keys) ↔
      ListAlike all keys m i := by
  unfold ListAlike
  by_cases hnil : keys = []
  · subst hnil
    simp
  · by_cases hhead : keys.head? = some all
    · exact iff_of_true (iff_of_true (.inr (.inl hhead)) (.inr (mem_of_head? hhead)))
        ⟨hnil, .inl hhead⟩
    · rw [or_iff_right hnil, or_iff_right hhead, or_iff_right hhead]
      exact ⟨fun h => ⟨hnil, h⟩, fun h => h.2⟩

/-! ## Grades -/

/-- Stage code 6 names all grades; with any other than 2 nothing is indexed. -/
def GradeAlike (b : Boost) (row : BidUnitRow) (n : ℤ) : Prop :=
  if row.cast_stage = 2 then ListAlike (-1) (row.grades b) n (asShort n)
  else row.cast_stage = 6 ∨ (asShort row.cast_stage = 2 ∧
    row.grades b ≠ [] ∧ (row.grades b).head? ≠ some (-1) ∧ n ∉ row.grades b)

/-- Grade: the match and the keys agree exactly where the two are alike. -/
theorem grade_alike (hacc : Accepted b row) (n : ℤ) :
    ((row.unit b).grade = [] ∨ (row.unit b).grade.head? = some (-1) ∨ n ∈ (row.unit b).grade ↔
      asShort n ∈ unitKeys b row .grade ∨ -1 ∈ unitKeys b row .grade) ↔ GradeAlike b row n := by
  unfold GradeAlike
  rw [unit_eq, unitKeys_grade]
  dsimp only
  by_cases h2 : row.cast_stage = 2
  · have hshort : asShort row.cast_stage = 2 := by rw [h2]; rfl
    have hadded : added (ProcessGrade b row.cast_grade []) = row.grades b := if_pos hacc.grade
    rw [if_pos hshort, if_pos h2, if_pos h2, hadded]
    exact list_alike (-1) (row.grades b) n (asShort n)
  · rw [if_neg h2, if_neg h2]
    by_cases h6 : row.cast_stage = 6
    · have hshort : asShort row.cast_stage ≠ 2 := by rw [h6]; decide
      rw [if_neg hshort, if_pos h6, if_pos ⟨h6, hacc.area⟩]
      exact iff_of_true (iff_of_true (.inr (.inl rfl)) (.inr List.mem_cons_self)) (.inl h6)
    · have hnone : ¬ (asShort n ∈ ([] : List ℤ) ∨ -1 ∈ ([] : List ℤ)) := by simp
      have hand : ¬ (row.cast_stage = 6 ∧ (ProcessArea b row.cast_area []).1 = true) :=
        fun hand => h6 hand.1
      rw [if_neg hand, if_neg h6, iff_false_right hnone, or_iff_right h6]
      by_cases hshort : asShort row.cast_stage = 2
      · rw [if_pos hshort, not_or, not_or]
        exact ⟨fun h => ⟨hshort, h⟩, fun h => h.2⟩
      · rw [if_neg hshort]
        exact iff_of_false (fun h => h (.inl rfl)) fun h => hshort h.1

/-! ## Places -/

/-- The area, its province or the country is among the areas of the unit. -/
def AreaIn (b : Boost) (row : BidUnitRow) (key : ℤ) : Prop :=
  AreaFound (fun d k => k ∈ unitKeys b row d) key

theorem areaIn_iff {areas : List ℤ} (h : unitKeys b row .area = areas) (key : ℤ) :
    AreaFound (fun _ k => k ∈ areas) key ↔ AreaIn b row key := by
  subst h
  exact Iff.rfl

/-- Employees are found by areas, all of which are named by none or by a first one of 0. -/
def AreaAlike (b : Boost) (row : BidUnitRow) (text : List Char) : Prop :=
  ∀ key, b.toUInt text = some key → AreaIn b row key ∨
    ((row.cast_stage = 4 ∨ row.cast_stage = 6) ∧ row.areas b ≠ [] ∧ (row.areas b).head? ≠ some 0)

/-- A unit for schools has none that match. -/
def NoSchool (b : Boost) (row : BidUnitRow) (school : ℤ) : Prop :=
  row.schools b ≠ [] ∧ (row.schools b).head? ≠ some 0 ∧ asUInt school ∉ row.schools b

/-- Students are found by schools or leading areas with stage code 2; a unit names all of them
when either list is empty or begins with 0. With other codes the index looks for their areas. -/
def SchoolAlike (b : Boost) (row : BidUnitRow) (p : UserProfile) : Prop :=
  if row.cast_stage = 2 then
    match b.toUInt p.current_area with
    | none => NoSchool b row p.school
    | some key => asUInt p.school ∈ row.schools b ∨ AreaIn b row key ∨
        ((row.schools b = [] ∨ (row.schools b).head? = some 0 ∨
          row.leading b = [] ∨ (row.leading b).head? = some 0) ↔ 0 ∈ row.schools b)
  else if asShort row.cast_stage = 2 then
    NoSchool b row p.school ∧ BidUnit.AreaTextMatch b p.current_area (row.leading b) = false
  else ∃ key, b.toUInt p.current_area = some key ∧ AreaIn b row key

theorem areaText_iff {text : List Char} {areas : List ℤ} :
    BidUnit.AreaTextMatch b text areas = true ↔ ∃ key, b.toUInt text = some key ∧
      (areas = [] ∨ areas.head? = some 0 ∨ AreaFound (fun _ k => k ∈ areas) key) := by
  unfold BidUnit.AreaTextMatch BidUnit.AreaMatch AreaFound
  cases b.toUInt text with
  | none => simp
  | some key => simp

/-- Area: the match and the keys agree exactly where the two are alike. -/
theorem area_alike (hacc : Accepted b row) (text : List Char) :
    (BidUnit.AreaTextMatch b text (row.unit b).area = true ↔
      ∃ key, b.toUInt text = some key ∧ AreaIn b row key) ↔ AreaAlike b row text := by
  unfold AreaAlike
  rw [areaText_iff]
  cases hkey : b.toUInt text with
  | none => simp
  | some key =>
      simp only [Option.some.injEq, exists_eq_left', forall_eq']
      rw [unit_eq]
      dsimp only
      by_cases h46 : row.cast_stage = 4 ∨ row.cast_stage = 6
      · have hcode : row.cast_stage ≠ 2 := by omega
        have hshort : asShort row.cast_stage ≠ 2 := by rwa [asShort_of_code (.inr h46)]
        have hadded : unitKeys b row .area = row.areas b := by
          rw [unitKeys_area, if_neg hcode, if_pos h46]
          exact if_pos hacc.area
        rw [if_neg hshort, if_pos h46, areaIn_iff hadded]
        by_cases hin : AreaIn b row key
        · simp [hin]
        · simp [hin, h46]
      · have hnil : (if asShort row.cast_stage = 2 then [] else
            if row.cast_stage = 4 ∨ row.cast_stage = 6 then row.areas b else []) = [] := by
          rw [if_neg h46, ite_self]
        rw [hnil]
        simp [h46]

/-- School: the match and the keys agree exactly where the two are alike. -/
theorem school_alike (p : UserProfile) :
    ((row.unit b).school = [] ∨ (row.unit b).school.head? = some 0 ∨
        asUInt p.school ∈ (row.unit b).school ∨
        BidUnit.AreaTextMatch b p.current_area (row.unit b).school_area = true ↔
      ∃ key, b.toUInt p.current_area = some key ∧ (asUInt p.school ∈ unitKeys b row .school ∨
        0 ∈ unitKeys b row .school ∨ AreaIn b row key)) ↔ SchoolAlike b row p := by
  unfold SchoolAlike
  rw [unit_eq, unitKeys_school]
  dsimp only
  by_cases h2 : row.cast_stage = 2
  · have hshort : asShort row.cast_stage = 2 := by rw [h2]; rfl
    have hleading : unitKeys b row .area = row.leading b := by
      rw [unitKeys_area, if_pos h2]
      rfl
    have hschools : (ProcessSchool b row.cast_school [] []).2.2 = row.schools b := rfl
    rw [if_pos hshort, if_pos hshort, if_pos h2, if_pos h2, areaText_iff, hschools]
    cases b.toUInt p.current_area with
    | none =>
        unfold NoSchool
        simp only [reduceCtorEq, false_and, exists_false, or_false, iff_false, not_or]
    | some key =>
        simp only [Option.some.injEq, exists_eq_left', areaIn_iff hleading]
        by_cases hschool : asUInt p.school ∈ row.schools b
        · simp [hschool]
        · by_cases hin : AreaIn b row key
          · simp [hin]
          · simp only [hschool, hin, false_or, or_false]
  · rw [if_neg h2, if_neg h2]
    by_cases hshort : asShort row.cast_stage = 2
    · have h46 : ¬ (row.cast_stage = 4 ∨ row.cast_stage = 6) := by
        intro h46
        rw [asShort_of_code (.inr h46)] at hshort
        omega
      have hnone : ∀ key, ¬ AreaIn b row key := by
        intro key
        have hnil : unitKeys b row .area = [] := by
          rw [unitKeys_area, if_neg h2, if_neg h46]
        rw [← areaIn_iff hnil]
        unfold AreaFound
        simp
      rw [if_pos hshort, if_pos hshort, if_pos hshort]
      unfold NoSchool
      simp only [List.not_mem_nil, hnone, or_self, and_false, exists_false, iff_false, not_or,
        Bool.not_eq_true]
      tauto
    · rw [if_neg hshort, if_neg hshort, if_neg hshort]
      simp

/-! ## The two paths -/

/-- In a condition the unit and the index take the profile alike. -/
def Alike (b : Boost) (row : BidUnitRow) (p : UserProfile) : Condition → Prop
  | .gender => GenderAlike row.cast_gender p.gender
  | .stage => StageAlike row.cast_stage p.stage
  | .age => ListAlike (-1) (row.ages b) (asShort p.age) (asShort p.age)
  | .grade => p.stage = 4 ∨ GradeAlike b row p.grade
  | .place => if p.stage = 4 then AreaAlike b row p.ip_area else SchoolAlike b row p

/-- The keys of the unit are found for a condition. -/
def UnitFinds (b : Boost) (row : BidUnitRow) (p : UserProfile) : Condition → Prop :=
  KeyFinds b p fun d k => k ∈ unitKeys b row d

/-- What takes the profile in a condition turns it away in another one. -/
def Masked (takes : Condition → Prop) (c : Condition) : Prop := takes c ∧ ∃ c', ¬ takes c'

/-- Where the two are not alike, the one that takes the profile turns it away elsewhere. -/
def Agree (b : Boost) (row : BidUnitRow) (p : UserProfile) : Prop :=
  ∀ c, Alike b row p c ∨ Masked (Takes b (row.unit b) p) c ∨ Masked (UnitFinds b row p) c

/-- The place of a unit is found as it is named. -/
theorem place_alike (hacc : Accepted b row) :
    ((if p.stage = 4 then BidUnit.AreaTextMatch b p.ip_area (row.unit b).area = true
      else (row.unit b).school = [] ∨ (row.unit b).school.head? = some 0 ∨
        asUInt p.school ∈ (row.unit b).school ∨
        BidUnit.AreaTextMatch b p.current_area (row.unit b).school_area = true) ↔
      PlaceFound b p fun d k => k ∈ unitKeys b row d) ↔
      if p.stage = 4 then AreaAlike b row p.ip_area else SchoolAlike b row p := by
  unfold PlaceFound
  by_cases h4 : p.stage = 4
  · rw [if_pos h4, if_pos h4, if_pos h4]
    exact area_alike hacc p.ip_area
  · rw [if_neg h4, if_neg h4, if_neg h4]
    exact school_alike p

/-- In each condition the unit takes the profiles that its keys are found for when the two are
alike there. -/
theorem takes_alike (hacc : Accepted b row) (c : Condition) :
    (Takes b (row.unit b) p c ↔ UnitFinds b row p c) ↔ Alike b row p c := by
  have hunit := unit_eq b row
  cases c with
  | gender =>
      have hgender : (row.unit b).gender = asShort row.cast_gender := by rw [hunit]
      unfold Takes UnitFinds KeyFinds Alike
      rw [hgender]
      exact gender_alike _ _
  | stage =>
      have hstage : (row.unit b).stage = asShort row.cast_stage := by rw [hunit]
      unfold Takes UnitFinds KeyFinds Alike
      rw [hstage]
      exact stage_alike _ _
  | age =>
      have hage : (row.unit b).age = row.ages b := by rw [hunit]
      have hages : unitKeys b row .age = row.ages b := if_pos hacc.age
      show ((row.unit b).age = [] ∨ (row.unit b).age.head? = some (-1) ∨ asShort p.age ∈ (row.unit b).age ↔
        asShort p.age ∈ unitKeys b row .age ∨ -1 ∈ unitKeys b row .age) ↔ _
      rw [hage, hages]
      exact list_alike _ _ _ _
  | grade =>
      unfold Takes UnitFinds KeyFinds Alike
      by_cases h4 : p.stage = 4
      · exact iff_of_true (iff_of_true (.inl h4) (.inl h4)) (.inl h4)
      · rw [or_iff_right h4, or_iff_right h4, or_iff_right h4]
        exact grade_alike hacc _
  | place => exact place_alike hacc

/-- Two ways to take a profile that compare in each condition come out the same when what takes it
in a condition in which they differ turns it away in another. -/
theorem forall_iff_masked {takes finds : Condition → Prop} :
    ((∀ c, takes c) ↔ ∀ c, finds c) ↔
      ∀ c, (takes c ↔ finds c) ∨ Masked takes c ∨ Masked finds c := by
  constructor
  · intro h c
    by_cases hall : ∀ c, takes c
    · exact .inl (iff_of_true (hall c) (h.mp hall c))
    · have hnot : ¬ ∀ c, finds c := fun hfinds => hall (h.mpr hfinds)
      by_cases ht : takes c
      · exact .inr (.inl ⟨ht, not_forall.mp hall⟩)
      · by_cases hf : finds c
        · exact .inr (.inr ⟨hf, not_forall.mp hnot⟩)
        · exact .inl (iff_of_false ht hf)
  · intro h
    constructor
    · intro hall c
      rcases h c with hsame | ⟨-, c', hc'⟩ | hfinds
      · exact hsame.mp (hall c)
      · exact absurd (hall c') hc'
      · exact hfinds.1
    · intro hall c
      rcases h c with hsame | htakes | ⟨-, c', hc'⟩
      · exact hsame.mpr (hall c)
      · exact htakes.1
      · exact absurd (hall c') hc'

/-- A unit takes the profiles that its keys are found for exactly when the two agree. -/
theorem accepts_iff_found (hacc : Accepted b row) :
    ((∀ c, Takes b (row.unit b) p c) ↔ ∀ c, UnitFinds b row p c) ↔ Agree b row p := by
  rw [forall_iff_masked]
  exact forall_congr' fun c => or_congr_left (takes_alike hacc c)

/-- The group is among those that `Get` returns after the load. -/
def Returned (b : Boost) (isForBrand : Bool) (groups : ℤ → Option AdGroup) (rows : List BidUnitRow)
    (s : AdInvertedIndex) (p : UserProfile) (z gid : ℤ) : Prop :=
  ∃ r, (s.TotalLoad b isForBrand rows groups).2.1.Get b p z ∅ = some r ∧ gid ∈ r.2

/-- A group is found by the keys that are added for it. -/
theorem returned_iff (s : AdInvertedIndex) (hrows : rows ≠ []) :
    Returned b isForBrand groups rows s p z gid ↔
      Found b p fun d k => ∃ keys, Adds b isForBrand groups rows gid z keys ∧ k ∈ keys d := by
  obtain ⟨hsome, hget⟩ := load_spec b isForBrand groups p z s hrows
  constructor
  · rintro ⟨r, hr, hmem⟩
    exact (hget r hr gid).mp hmem
  · intro hfound
    obtain ⟨r, hr⟩ := Option.isSome_iff_exists.mp (hsome.mpr (.inr hfound.place.isNumber))
    exact ⟨r, hr, (hget r hr gid).mpr hfound⟩

/-- A group that owns one unit adds the keys of that unit. -/
theorem adds_iff (hacc : Accepted b row) (hrow : row ∈ rows)
    (howns : ∀ r ∈ rows, r.adgroup_id = row.adgroup_id → r = row)
    (hz : z ∈ zonesOf isForBrand groups row) (d : Dim) (k : ℤ) :
    (∃ keys, Adds b isForBrand groups rows row.adgroup_id z keys ∧ k ∈ keys d) ↔
      k ∈ unitKeys b row d := by
  constructor
  · rintro ⟨keys, ⟨r, hr, hid, hpass⟩, hk⟩
    rw [howns r hr hid] at hpass
    have hkeys : keys = unitKeys b row := passes_translated hacc.translated hpass
    rwa [hkeys] at hk
  · intro hk
    obtain ⟨keys, hpass, hkeys⟩ := exists_pass b row ⟨[], []⟩ hz
    exact ⟨keys, ⟨row, hrow, rfl, hpass⟩, hkeys d k hk⟩

/-- A unit of group 1 for students of both genders and all ages and grades. -/
def forStudents (school : String) : BidUnitRow := ⟨1, 5, 0, 2, 2, [], [], school.toList, []⟩

def student : UserProfile := ⟨78, 2, 1, 20, 77, 0, "86110000000000".toList, []⟩

end Oce.AdEngine
