import Oce.AdEngine.Analysis.Keys

/-!
# Who the index finds

What a unit names, translated on its own. A pass of its row adds at least these keys, and no
others when its texts are accepted.

A unit is for a profile when it names the gender, the stage, the age, the grade and the place of
the profile. The index knows groups, not units: after a load it answers for a zone the groups for
which each of the five is met by one of their units, not all by the same one. For a group whose
units differ in one of the five at most these are the groups that have a unit for the profile.
-/

set_option autoImplicit false

namespace Oce.AdEngine

open AdInvertedIndex Translator

section UnitKeys

variable {b : Boost} {row : BidUnitRow} {z k : ℤ} {d : Dim} {v : KeyVectors}

/-! ## Vectors that are not empty -/

theorem pushTokens_append (f : List Char → Option (List ℤ)) (ts : List (List Char)) (keys : List ℤ) :
    pushTokens f ts keys = ((pushTokens f ts []).1, keys ++ (pushTokens f ts []).2) := by
  induction ts generalizing keys with
  | nil => simp [pushTokens]
  | cons t ts ih =>
      unfold pushTokens
      cases f t with
      | none => simp
      | some more =>
          dsimp only
          rw [ih (keys ++ more), ih ([] ++ more)]
          simp

theorem pushRanges_append (code : List Char) (keys : List ℤ) :
    pushRanges b code keys = ((pushRanges b code []).1, keys ++ (pushRanges b code []).2) := by
  unfold pushRanges
  split_ifs
  · rfl
  · exact pushTokens_append _ _ _

theorem ProcessArea_append (code : List Char) (keys : List ℤ) :
    ProcessArea b code keys = ((ProcessArea b code []).1, keys ++ (ProcessArea b code []).2) := by
  unfold ProcessArea
  split_ifs
  · rfl
  · exact pushTokens_append _ _ _

/-- The areas of a school text go behind what there is. -/
theorem ProcessSchool_areas (code : List Char) (areas : List ℤ) :
    ProcessSchool b code areas [] =
      (true, areas ++ (ProcessSchool b code [] []).2.1, (ProcessSchool b code [] []).2.2) := by
  unfold ProcessSchool
  split_ifs
  · simp
  · dsimp only
    cases (b.split ';' code)[0]? with
    | none => simp
    | some t =>
        cases t with
        | nil => simp
        | cons c t =>
            dsimp only
            unfold ProcessLeadingArea
            rw [pushTokens_append]

theorem mem_added {r : Bool × List ℤ} : k ∈ added r ↔ r.1 = true ∧ k ∈ r.2 := by
  unfold added
  split_ifs with h
  · simp [h]
  · simp [h]

/-! ## Keys -/

/-- The keys that a unit names: none in a dimension whose text is not accepted. -/
def unitKeys (b : Boost) (row : BidUnitRow) : UnitKeys
  | .gender => (ProcessGender row.cast_gender []).2
  | .stage => (ProcessStage row.cast_stage []).2
  | .age => added (ProcessAge b row.cast_age [])
  | .grade =>
    if row.cast_stage = 2 then added (ProcessGrade b row.cast_grade [])
    else if row.cast_stage = 6 ∧ (ProcessArea b row.cast_area []).1 then [-1]
    else []
  | .area =>
    if row.cast_stage = 2 then (ProcessSchool b row.cast_school [] []).2.1
    else if row.cast_stage = 4 ∨ row.cast_stage = 6 then added (ProcessArea b row.cast_area [])
    else []
  | .school => if row.cast_stage = 2 then (ProcessSchool b row.cast_school [] []).2.2 else []

theorem unitKeys_grade (b : Boost) (row : BidUnitRow) : unitKeys b row .grade =
    if row.cast_stage = 2 then added (ProcessGrade b row.cast_grade [])
    else if row.cast_stage = 6 ∧ (ProcessArea b row.cast_area []).1 then [-1] else [] := rfl

theorem unitKeys_area (b : Boost) (row : BidUnitRow) : unitKeys b row .area =
    if row.cast_stage = 2 then (ProcessSchool b row.cast_school [] []).2.1
    else if row.cast_stage = 4 ∨ row.cast_stage = 6 then added (ProcessArea b row.cast_area [])
    else [] := rfl

theorem unitKeys_school (b : Boost) (row : BidUnitRow) : unitKeys b row .school =
    if row.cast_stage = 2 then (ProcessSchool b row.cast_school [] []).2.2 else [] := rfl

/-! ## Keys of a pass -/

theorem rowKeys_gender (v : KeyVectors) :
    (rowKeys b row v).1 .gender = added (ProcessGender row.cast_gender v.short_keys) := by
  unfold rowKeys
  dsimp only
  split_ifs <;> rfl

/-- Stages and ages begin with an empty vector, as genders and stages are always accepted. -/
theorem rowKeys_stage (v : KeyVectors) :
    (rowKeys b row v).1 .stage = added (ProcessStage row.cast_stage []) := by
  unfold rowKeys
  dsimp only
  split_ifs <;> rfl

theorem rowKeys_age (v : KeyVectors) :
    (rowKeys b row v).1 .age = added (ProcessAge b row.cast_age []) := by
  unfold rowKeys
  dsimp only
  split_ifs <;> rfl

theorem rowKeys_grade (v : KeyVectors) : (rowKeys b row v).1 .grade =
    if row.cast_stage = 2 then added (ProcessGrade b row.cast_grade (left (ProcessAge b row.cast_age [])))
    else if row.cast_stage = 6 ∧ (ProcessArea b row.cast_area v.uint_keys).1 then
      left (ProcessAge b row.cast_age []) ++ [-1]
    else [] := by
  unfold rowKeys
  dsimp only
  by_cases h2 : row.cast_stage = 2
  · rw [if_pos h2, if_pos h2]
    rfl
  · rw [if_neg h2, if_neg h2]
    by_cases h46 : row.cast_stage = 4 ∨ row.cast_stage = 6
    · rw [if_pos h46]
      rfl
    · rw [if_neg h46, if_neg fun hand => h46 (.inr hand.1)]

theorem rowKeys_area (v : KeyVectors) : (rowKeys b row v).1 .area =
    if row.cast_stage = 2 then (ProcessSchool b row.cast_school v.uint_keys []).2.1
    else if row.cast_stage = 4 ∨ row.cast_stage = 6 then added (ProcessArea b row.cast_area v.uint_keys)
    else [] := by
  unfold rowKeys
  dsimp only
  rw [ProcessSchool_areas, if_pos rfl, if_pos rfl]
  split_ifs <;> rfl

theorem rowKeys_school (v : KeyVectors) : (rowKeys b row v).1 .school =
    if row.cast_stage = 2 then (ProcessSchool b row.cast_school [] []).2.2 else [] := by
  unfold rowKeys
  dsimp only
  rw [ProcessSchool_areas, if_pos rfl, if_pos rfl]
  split_ifs <;> rfl

theorem mem_added_of_append {f : List ℤ → Bool × List ℤ}
    (happend : ∀ keys, f keys = ((f []).1, keys ++ (f []).2)) (keys : List ℤ) (h : k ∈ added (f [])) :
    k ∈ added (f keys) := by
  rw [mem_added] at h ⊢
  rw [happend]
  exact ⟨h.1, List.mem_append_right _ h.2⟩

/-- Keys that were left in a vector only come on top. -/
theorem unitKeys_subset (v : KeyVectors) (h : k ∈ unitKeys b row d) : k ∈ (rowKeys b row v).1 d := by
  cases d with
  | gender =>
      rw [rowKeys_gender]
      exact mem_added.mpr ⟨rfl, List.mem_append_right _ h⟩
  | stage =>
      rw [rowKeys_stage]
      exact mem_added.mpr ⟨rfl, h⟩
  | age =>
      rw [rowKeys_age]
      exact h
  | grade =>
      have harea : (ProcessArea b row.cast_area v.uint_keys).1 = (ProcessArea b row.cast_area []).1 := by
        rw [ProcessArea_append row.cast_area v.uint_keys]
      rw [unitKeys_grade] at h
      rw [rowKeys_grade, harea]
      split_ifs at h ⊢
      · exact mem_added_of_append (pushRanges_append row.cast_grade) _ h
      · exact List.mem_append_right _ h
      · exact h
  | area =>
      rw [unitKeys_area] at h
      rw [rowKeys_area, ProcessSchool_areas]
      split_ifs at h ⊢
      · exact List.mem_append_right _ h
      · exact mem_added_of_append (ProcessArea_append row.cast_area) _ h
      · exact h
  | school =>
      rw [rowKeys_school]
      exact h

/-- Every pass of a row adds what its unit names. -/
theorem exists_pass (b : Boost) (row : BidUnitRow) (v : KeyVectors) {zones : List ℤ} (hz : z ∈ zones) :
    ∃ keys, (z, keys) ∈ passes b row zones v ∧ ∀ d k, k ∈ unitKeys b row d → k ∈ keys d := by
  induction zones generalizing v with
  | nil => cases hz
  | cons z' zones ih =>
      unfold passes
      rcases List.mem_cons.mp hz with rfl | hz
      · exact ⟨_, List.mem_cons_self, fun d k hk => unitKeys_subset v hk⟩
      · obtain ⟨keys, hmem, hkeys⟩ := ih (rowKeys b row v).2 hz
        exact ⟨keys, List.mem_cons_of_mem _ hmem, hkeys⟩

/-- The translator comes to the end of the texts of ages, grades and areas; with a school text it
always does. -/
structure Accepted (b : Boost) (row : BidUnitRow) : Prop where
  age : (ProcessAge b row.cast_age []).1 = true
  grade : (ProcessGrade b row.cast_grade []).1 = true
  area : (ProcessArea b row.cast_area []).1 = true

/-- The translator comes to the end of the texts that it is given for the stage code. -/
structure Translated (b : Boost) (row : BidUnitRow) : Prop where
  age : (ProcessAge b row.cast_age []).1 = true
  grade : row.cast_stage = 2 → (ProcessGrade b row.cast_grade []).1 = true
  area : row.cast_stage = 4 ∨ row.cast_stage = 6 → (ProcessArea b row.cast_area []).1 = true

/-- A row with accepted texts is translated to the end whatever its stage code. -/
theorem Accepted.translated (h : Accepted b row) : Translated b row := ⟨h.age, fun _ => h.grade, fun _ => h.area⟩

/-- A row that is translated to the end leaves nothing. -/
theorem rowKeys_left (h : Translated b row) : (rowKeys b row ⟨[], []⟩).2 = ⟨[], []⟩ := by
  have hages : left (ProcessAge b row.cast_age []) = [] := if_pos h.age
  have hstages : left (ProcessStage row.cast_stage (left (ProcessGender row.cast_gender []))) = [] := rfl
  have hschool : (ProcessSchool b row.cast_school [] []).1 = true := by rw [ProcessSchool_areas]
  unfold rowKeys
  dsimp only
  rw [hstages, hages, if_pos hschool]
  by_cases h2 : row.cast_stage = 2
  · have hgrades : left (ProcessGrade b row.cast_grade []) = [] := if_pos (h.grade h2)
    rw [if_pos h2, hgrades]
    dsimp only
    rw [if_pos hschool]
  · rw [if_neg h2]
    by_cases h46 : row.cast_stage = 4 ∨ row.cast_stage = 6
    · have hareas : left (ProcessArea b row.cast_area []) = [] := if_pos (h.area h46)
      rw [if_pos h46, hareas, ite_self]
    · rw [if_neg h46]

/-- A row that is translated to the end adds what its unit names. -/
theorem rowKeys_translated (h : Translated b row) : (rowKeys b row ⟨[], []⟩).1 = unitKeys b row := by
  have hages : left (ProcessAge b row.cast_age []) = [] := if_pos h.age
  funext d
  cases d with
  | gender => exact rowKeys_gender _
  | stage => exact rowKeys_stage _
  | age => exact rowKeys_age _
  | grade =>
      rw [rowKeys_grade, hages]
      rfl
  | area => exact rowKeys_area _
  | school => exact rowKeys_school _

/-- Each of its passes adds the same. -/
theorem passes_translated (h : Translated b row) {zones : List ℤ} {e : ℤ × UnitKeys}
    (he : e ∈ passes b row zones ⟨[], []⟩) : e.2 = unitKeys b row := by
  induction zones with
  | nil => cases he
  | cons z zones ih =>
      unfold passes at he
      rw [rowKeys_translated h, rowKeys_left h] at he
      rcases List.mem_cons.mp he with rfl | he
      · rfl
      · exact ih he

end UnitKeys

variable {b : Boost} {isForBrand : Bool} {row : BidUnitRow} {rows : List BidUnitRow}
  {groups : ℤ → Option AdGroup} {p : UserProfile} {gid z k : ℤ} {d : Dim}

/-! ## What a unit is for -/

/-- The area, its province or the country is named, or all areas are. -/
def AreaNamed (areas : List ℤ) (key : ℤ) : Prop :=
  0 ∈ areas ∨ key ∈ areas ∨ province key ∈ areas ∨ COUNTRY ∈ areas

/-- By stage, the area of the address, or the school or the current area. -/
def PlaceNamed (b : Boost) (p : UserProfile) (keys : UnitKeys) : Prop :=
  if p.stage = 4 then ∃ key, b.toUInt p.ip_area = some key ∧ AreaNamed (keys .area) key
  else asUInt p.school ∈ keys .school ∨ 0 ∈ keys .school ∨
    ∃ key, b.toUInt p.current_area = some key ∧ AreaNamed (keys .area) key

/-- The profile meets a condition of a unit that names keys. -/
def Meets (b : Boost) (p : UserProfile) (keys : UnitKeys) : Condition → Prop
  | .gender => asShort p.gender ∈ keys .gender
  | .stage => asShort p.stage ∈ keys .stage
  | .age => asShort p.age ∈ keys .age ∨ -1 ∈ keys .age
  | .grade => p.stage = 4 ∨ asShort p.grade ∈ keys .grade ∨ -1 ∈ keys .grade
  | .place => PlaceNamed b p keys

/-- A unit of the group that is indexed in the zone. -/
def Owns (isForBrand : Bool) (groups : ℤ → Option AdGroup) (rows : List BidUnitRow) (z gid : ℤ)
    (row : BidUnitRow) : Prop :=
  row ∈ rows ∧ row.adgroup_id = gid ∧ z ∈ zonesOf isForBrand groups row

/-- One of the units of the group that are indexed in the zone is for the profile. -/
def Targeted (b : Boost) (isForBrand : Bool) (groups : ℤ → Option AdGroup) (rows : List BidUnitRow)
    (p : UserProfile) (z gid : ℤ) : Prop :=
  ∃ row, Owns isForBrand groups rows z gid row ∧ ∀ c, Meets b p (unitKeys b row) c

/-- Each condition is met with one of the units of the group, not all with the same one. -/
def MetInEach (b : Boost) (isForBrand : Bool) (groups : ℤ → Option AdGroup) (rows : List BidUnitRow)
    (p : UserProfile) (z gid : ℤ) : Prop :=
  ∀ c, ∃ row, Owns isForBrand groups rows z gid row ∧ Meets b p (unitKeys b row) c

/-- Two units name the same for a condition. -/
def SameFor (keys keys' : UnitKeys) (c : Condition) : Prop := ∀ d ∈ c.dims, keys d = keys' d

/-- The units of the group differ in one condition at most. -/
def OneApart (b : Boost) (isForBrand : Bool) (groups : ℤ → Option AdGroup) (rows : List BidUnitRow)
    (z gid : ℤ) : Prop :=
  ∃ c₀, ∀ row row', Owns isForBrand groups rows z gid row → Owns isForBrand groups rows z gid row' →
    ∀ c ≠ c₀, SameFor (unitKeys b row) (unitKeys b row') c

/-- The unit is translated to the end and does not name all areas by the key 0. -/
structure PlainUnit (b : Boost) (row : BidUnitRow) : Prop extends Translated b row where
  areas : 0 ∉ unitKeys b row .area

/-! ## Units that differ in one condition -/

/-- What a unit names for a condition decides whether the profile meets it. -/
theorem SameFor.meets {keys keys' : UnitKeys} {c : Condition} (h : SameFor keys keys' c)
    (hmeets : Meets b p keys c) : Meets b p keys' c := by
  cases c with
  | gender =>
      have hgender : keys .gender = keys' .gender := h _ (by decide)
      unfold Meets at hmeets ⊢
      rwa [← hgender]
  | stage =>
      have hstage : keys .stage = keys' .stage := h _ (by decide)
      unfold Meets at hmeets ⊢
      rwa [← hstage]
  | age =>
      have hage : keys .age = keys' .age := h _ (by decide)
      unfold Meets at hmeets ⊢
      rwa [← hage]
  | grade =>
      have hgrade : keys .grade = keys' .grade := h _ (by decide)
      unfold Meets at hmeets ⊢
      rwa [← hgrade]
  | place =>
      have harea : keys .area = keys' .area := h _ (by decide)
      have hschool : keys .school = keys' .school := h _ (by decide)
      unfold Meets PlaceNamed at hmeets ⊢
      rwa [← harea, ← hschool]

/-- Then the unit that meets the condition they differ in meets the others as well. -/
theorem OneApart.metInEach_iff (h : OneApart b isForBrand groups rows z gid) :
    MetInEach b isForBrand groups rows p z gid ↔ Targeted b isForBrand groups rows p z gid := by
  constructor
  · intro hmet
    obtain ⟨c₀, hsame⟩ := h
    obtain ⟨row, hrow, hmeets⟩ := hmet c₀
    refine ⟨row, hrow, fun c => ?_⟩
    by_cases hc : c = c₀
    · exact hc ▸ hmeets
    · obtain ⟨row', hrow', hmeets'⟩ := hmet c
      exact (hsame row' row hrow' hrow c hc).meets hmeets'
  · rintro ⟨row, hrow, hmeets⟩ c
    exact ⟨row, hrow, hmeets c⟩

/-! ## What is found -/

/-- The keys that a group of plain units is found by are those that its units name. -/
theorem adds_plain (h : ∀ row, Owns isForBrand groups rows z gid row → PlainUnit b row) (d : Dim) (k : ℤ) :
    (∃ keys, Adds b isForBrand groups rows gid z keys ∧ k ∈ keys d) ↔
      ∃ row, Owns isForBrand groups rows z gid row ∧ k ∈ unitKeys b row d := by
  constructor
  · rintro ⟨keys, ⟨row, hrow, hid, hpass⟩, hk⟩
    have hz : z ∈ zonesOf isForBrand groups row := mem_zones_of_mem_passes hpass
    have hkeys : keys = unitKeys b row := passes_translated (h row ⟨hrow, hid, hz⟩).toTranslated hpass
    exact ⟨row, ⟨hrow, hid, hz⟩, hkeys ▸ hk⟩
  · rintro ⟨row, ⟨hrow, hid, hz⟩, hk⟩
    obtain ⟨keys, hpass, hkeys⟩ := exists_pass b row ⟨[], []⟩ hz
    exact ⟨keys, ⟨row, hrow, hid, hpass⟩, hkeys d k hk⟩

/-- Where no unit names all areas, an area is looked for as it is named. -/
theorem areaFound_iff {P : BidUnitRow → Prop} {keys : BidUnitRow → UnitKeys}
    (hareas : ∀ row, P row → 0 ∉ keys row .area) (key : ℤ) :
    AreaFound (fun d k => ∃ row, P row ∧ k ∈ keys row d) key ↔
      ∃ row, P row ∧ AreaNamed (keys row .area) key := by
  unfold AreaFound AreaNamed
  constructor
  · rintro (⟨row, hrow, hk⟩ | ⟨-, row, hrow, hk⟩ | ⟨-, row, hrow, hk⟩)
    · exact ⟨row, hrow, .inr (.inl hk)⟩
    · exact ⟨row, hrow, .inr (.inr (.inl hk))⟩
    · exact ⟨row, hrow, .inr (.inr (.inr hk))⟩
  · rintro ⟨row, hrow, hk | hk | hk | hk⟩
    · exact absurd hk (hareas row hrow)
    · exact .inl ⟨row, hrow, hk⟩
    · by_cases hne : province key = key
      · exact .inl ⟨row, hrow, hne ▸ hk⟩
      · exact .inr (.inl ⟨hne, row, hrow, hk⟩)
    · by_cases hcountry : province key = COUNTRY
      · rw [← hcountry] at hk
        by_cases hne : province key = key
        · exact .inl ⟨row, hrow, hne ▸ hk⟩
        · exact .inr (.inl ⟨hne, row, hrow, hk⟩)
      · exact .inr (.inr ⟨hcountry, row, hrow, hk⟩)

/-- Each condition is looked for among the keys of all units. -/
theorem keyFinds_iff_meets {P : BidUnitRow → Prop} {keys : BidUnitRow → UnitKeys}
    (hsome : ∃ row, P row) (hareas : ∀ row, P row → 0 ∉ keys row .area)
    (hnumber : (b.toUInt p.areaText).isSome = true) (c : Condition) :
    KeyFinds b p (fun d k => ∃ row, P row ∧ k ∈ keys row d) c ↔ ∃ row, P row ∧ Meets b p (keys row) c := by
  cases c with
  | gender => exact Iff.rfl
  | stage => exact Iff.rfl
  | age =>
      unfold KeyFinds Meets
      rw [← exists_or]
      exact exists_congr fun row => and_or_left.symm
  | grade =>
      unfold KeyFinds Meets
      obtain ⟨row₀, hrow₀⟩ := hsome
      constructor
      · rintro (h4 | ⟨row, hrow, hk⟩ | ⟨row, hrow, hk⟩)
        · exact ⟨row₀, hrow₀, .inl h4⟩
        · exact ⟨row, hrow, .inr (.inl hk)⟩
        · exact ⟨row, hrow, .inr (.inr hk)⟩
      · rintro ⟨row, hrow, h4 | hk | hk⟩
        · exact .inl h4
        · exact .inr (.inl ⟨row, hrow, hk⟩)
        · exact .inr (.inr ⟨row, hrow, hk⟩)
  | place =>
      unfold KeyFinds Meets PlaceFound PlaceNamed
      unfold UserProfile.areaText at hnumber
      by_cases h4 : p.stage = 4
      · simp only [if_pos h4, areaFound_iff hareas]
        constructor
        · rintro ⟨key, hkey, row, hrow, hnamed⟩
          exact ⟨row, hrow, key, hkey, hnamed⟩
        · rintro ⟨row, hrow, key, hkey, hnamed⟩
          exact ⟨key, hkey, row, hrow, hnamed⟩
      · rw [if_neg h4] at hnumber
        obtain ⟨key, hkey⟩ := Option.isSome_iff_exists.mp hnumber
        simp only [if_neg h4, areaFound_iff hareas, hkey, Option.some.injEq, exists_eq_left']
        constructor
        · rintro (⟨row, hrow, hk⟩ | ⟨row, hrow, hk⟩ | ⟨row, hrow, hnamed⟩)
          · exact ⟨row, hrow, .inl hk⟩
          · exact ⟨row, hrow, .inr (.inl hk)⟩
          · exact ⟨row, hrow, .inr (.inr hnamed)⟩
        · rintro ⟨row, hrow, hk | hk | hnamed⟩
          · exact .inl ⟨row, hrow, hk⟩
          · exact .inr (.inl ⟨row, hrow, hk⟩)
          · exact .inr (.inr ⟨row, hrow, hnamed⟩)

/-- A group of plain units is found when each condition is met with one of them. -/
theorem found_iff_metInEach (hnumber : (b.toUInt p.areaText).isSome = true)
    (h : ∀ row, Owns isForBrand groups rows z gid row → PlainUnit b row) :
    (Found b p fun d k => ∃ keys, Adds b isForBrand groups rows gid z keys ∧ k ∈ keys d) ↔
      MetInEach b isForBrand groups rows p z gid := by
  have hhas : (fun d k => ∃ keys, Adds b isForBrand groups rows gid z keys ∧ k ∈ keys d) =
      fun d k => ∃ row, Owns isForBrand groups rows z gid row ∧ k ∈ unitKeys b row d := by
    funext d k
    exact propext (adds_plain h d k)
  rw [hhas, found_iff]
  constructor
  · intro hfinds c
    obtain ⟨row, hrow, -⟩ := hfinds .gender
    exact (keyFinds_iff_meets ⟨row, hrow⟩ (fun row hrow => (h row hrow).areas) hnumber c).mp (hfinds c)
  · intro hmet c
    obtain ⟨row, hrow, -⟩ := hmet .gender
    exact (keyFinds_iff_meets ⟨row, hrow⟩ (fun row hrow => (h row hrow).areas) hnumber c).mpr (hmet c)

/-! ## The answer -/

/-- `Get` answers the groups of the zone that are for the profile, and no others. -/
def Answers (b : Boost) (isForBrand : Bool) (groups : ℤ → Option AdGroup) (rows : List BidUnitRow)
    (s : AdInvertedIndex) (p : UserProfile) (z : ℤ) : Prop :=
  ∃ r, (s.TotalLoad b isForBrand rows groups).2.1.Get b p z ∅ = some r ∧
    ∀ gid, gid ∈ r.2 ↔ Targeted b isForBrand groups rows p z gid

/-- The number of a text of digits. -/
def digits (s : List Char) : Option ℤ :=
  if s = [] ∨ ¬ s.all Char.isDigit then none
  else some (s.foldl (fun n c => 10 * n + (c.toNat - 48 : ℕ)) 0)

def plainBoost : Boost where
  tokens sep s := (s.splitOn sep).filter (· ≠ [])
  split sep s := s.splitOn sep
  toShort := digits
  toUInt := digits

/-- Group 1 is shown in zone 9. -/
def sampleGroups (gid : ℤ) : Option AdGroup := if gid = 1 then some ⟨4, [9], 0, none⟩ else none

/-- A unit of group 1 for employees of both genders, of all ages unless it names one, of all
areas unless it names one. -/
def forEmployees (age area : String) : BidUnitRow :=
  ⟨1, 5, 0, 2, 4, [], age.toList, [], area.toList⟩

def forGender (row : BidUnitRow) (gender : ℤ) : BidUnitRow := { row with cast_gender := gender }

def employee : UserProfile := ⟨77, 4, 0, 30, 0, 0, [], "86110000000000".toList⟩

/-- A unit of group 1 for employees of the given gender and age in Beijing. -/
def inBeijing (gender : ℤ) (age : String) : BidUnitRow :=
  forGender (forEmployees age "86110000000000") gender

end Oce.AdEngine
