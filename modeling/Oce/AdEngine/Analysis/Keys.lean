import Mathlib.Data.Finset.Lattice.Lemmas
import Oce.AdEngine.Model.InvertedIndex

/-!
# What is in the index

After a load a group is under a key of a zone when one of its rows has added the key in one of
its passes over the zones of the group. `Get` finds the groups that are, in each dimension, under
one of the keys it looks for there.
-/

set_option autoImplicit false

namespace Oce.AdEngine

open Function AdInvertedIndex

variable {b : Boost} {isForBrand : Bool} {row : BidUnitRow} {rows : List BidUnitRow}
  {groups : ℤ → Option AdGroup} {p : UserProfile} {gid z k : ℤ} {d : Dim}

variable {index : KeyIndex} {groups' : ℤ → Option AdGroup} {has : Dim → ℤ → Prop}

/-! ## Passes -/

/-- The passes of a row over zones, each with the keys it adds. -/
def passes (b : Boost) (row : BidUnitRow) : List ℤ → KeyVectors → List (ℤ × UnitKeys)
  | [], _ => []
  | z :: zones, v => (z, (rowKeys b row v).1) :: passes b row zones (rowKeys b row v).2

theorem mem_zones_of_mem_passes {zones : List ℤ} {v : KeyVectors} {keys : UnitKeys}
    (h : (z, keys) ∈ passes b row zones v) : z ∈ zones := by
  induction zones generalizing v with
  | nil => cases h
  | cons z' zones ih =>
      unfold passes at h
      rcases List.mem_cons.mp h with h | h
      · cases h
        exact List.mem_cons_self
      · exact List.mem_cons_of_mem _ (ih h)

theorem dimIndex_update (zi : ℤ → Option DimIndex) (z' : ℤ) (dim : DimIndex) :
    dimIndex (update zi z' (some dim)) z = if z = z' then dim else dimIndex zi z := by
  unfold dimIndex
  by_cases hz : z = z'
  · rw [if_pos hz, hz, update_self, Option.getD_some]
  · rw [if_neg hz, update_of_ne hz]

theorem mem_Add {keys : List ℤ} {g : ℤ} :
    gid ∈ index.Add keys g k ↔ gid ∈ index k ∨ gid = g ∧ k ∈ keys := by
  unfold KeyIndex.Add
  split_ifs with hk
  · rw [Finset.mem_insert, or_comm]
    simp [hk]
  · simp [hk]

/-- What one row puts under a key of a zone. -/
theorem mem_loadZones (zones : List ℤ) (v : KeyVectors) (zi : ℤ → Option DimIndex) :
    gid ∈ dimIndex (loadZones b row zones v zi) z d k ↔
      gid ∈ dimIndex zi z d k ∨
        gid = row.adgroup_id ∧ ∃ e ∈ passes b row zones v, e.1 = z ∧ k ∈ e.2 d := by
  induction zones generalizing v zi with
  | nil => simp [loadZones, passes]
  | cons z' zones ih =>
      unfold loadZones passes
      dsimp only
      rw [ih, dimIndex_update, List.exists_mem_cons_iff]
      by_cases hz : z = z'
      · subst hz
        rw [if_pos rfl, mem_Add]
        tauto
      · rw [if_neg hz]
        have hne : z' ≠ z := fun h => hz h.symm
        tauto

theorem isSome_loadZones (zones : List ℤ) (v : KeyVectors) (zi : ℤ → Option DimIndex) :
    (loadZones b row zones v zi z).isSome ↔ (zi z).isSome ∨ z ∈ zones := by
  induction zones generalizing v zi with
  | nil => simp [loadZones]
  | cons z' zones ih =>
      unfold loadZones
      dsimp only
      rw [ih, List.mem_cons]
      by_cases hz : z = z'
      · subst hz
        simp
      · rw [update_of_ne hz]
        simp [hz]

/-! ## Rows -/

/-- The zones that a row is indexed in. -/
def zonesOf (isForBrand : Bool) (groups : ℤ → Option AdGroup) (row : BidUnitRow) : List ℤ :=
  match groups row.adgroup_id with
  | none => []
  | some group =>
    if row.member_id ≠ 999 ∧ isIndexed isForBrand group.display_type then group.zone_ids else []

/-- A row is indexed as before when display types and zones are as before. -/
def SameZones (groups groups' : ℤ → Option AdGroup) : Prop :=
  ∀ gid, (groups' gid).map (fun g => (g.display_type, g.zone_ids)) =
    (groups gid).map fun g => (g.display_type, g.zone_ids)

theorem SameZones.zonesOf_eq (h : SameZones groups groups') (row : BidUnitRow) :
    zonesOf isForBrand groups' row = zonesOf isForBrand groups row := by
  have hrow := h row.adgroup_id
  unfold zonesOf
  cases h' : groups' row.adgroup_id with
  | none =>
      cases hg : groups row.adgroup_id with
      | none => rfl
      | some g =>
          rw [h', hg] at hrow
          cases hrow
  | some g' =>
      cases hg : groups row.adgroup_id with
      | none =>
          rw [h', hg] at hrow
          cases hrow
      | some g =>
          rw [h', hg] at hrow
          simp only [Option.map_some, Option.some.injEq, Prod.mk.injEq] at hrow
          dsimp only
          rw [hrow.1, hrow.2]

theorem sameZones_update {g g' : AdGroup} (hg : groups gid = some g)
    (htype : g'.display_type = g.display_type) (hzones : g'.zone_ids = g.zone_ids) :
    SameZones groups (update groups gid (some g')) := by
  intro gid'
  by_cases h : gid' = gid
  · rw [h, update_self, hg, Option.map_some, Option.map_some, htype, hzones]
  · rw [update_of_ne h]

/-- What a row does to the indexes and to the groups. -/
theorem loadRow_eq (b : Boost) (isForBrand : Bool) (groups : ℤ → Option AdGroup) (row : BidUnitRow)
    (zi : ℤ → Option DimIndex) :
    (loadRow b isForBrand (zi, groups) row).1 =
        loadZones b row (zonesOf isForBrand groups row) ⟨[], []⟩ zi ∧
      SameZones groups (loadRow b isForBrand (zi, groups) row).2 := by
  unfold loadRow zonesOf
  dsimp only
  cases hg : groups row.adgroup_id with
  | none => exact ⟨rfl, fun _ => rfl⟩
  | some g =>
      have hone : SameZones groups (update groups row.adgroup_id
          (some { g with bid_unit_id := row.bid_unit_id })) := sameZones_update hg rfl rfl
      dsimp only
      by_cases hmember : row.member_id = 999
      · have hnot : ¬ (row.member_id ≠ 999 ∧ isIndexed isForBrand g.display_type = true) :=
          fun hand => hand.1 hmember
        rw [if_pos hmember, if_neg hnot]
        exact ⟨rfl, hone⟩
      · rw [if_neg hmember]
        by_cases hindexed : isIndexed isForBrand g.display_type
        · rw [if_pos hindexed, if_pos ⟨hmember, hindexed⟩]
          exact ⟨rfl, hone⟩
        · have hnot : ¬ (row.member_id ≠ 999 ∧ isIndexed isForBrand g.display_type = true) :=
            fun hand => hindexed hand.2
          rw [if_neg hindexed, if_neg hnot]
          split_ifs
          · refine ⟨rfl, ?_⟩
            rw [update_idem]
            exact sameZones_update hg rfl rfl
          · exact ⟨rfl, hone⟩

/-- The keys that are added for a group in a zone. -/
def Adds (b : Boost) (isForBrand : Bool) (groups : ℤ → Option AdGroup) (rows : List BidUnitRow)
    (gid z : ℤ) (keys : UnitKeys) : Prop :=
  ∃ row ∈ rows, row.adgroup_id = gid ∧
    (z, keys) ∈ passes b row (zonesOf isForBrand groups row) ⟨[], []⟩

/-- What the rows leave under one key of one zone. -/
theorem foldl_loadRow (b : Boost) (isForBrand : Bool) (gid z : ℤ) (d : Dim) (k : ℤ)
    (zi : ℤ → Option DimIndex) (rows : List BidUnitRow) (hgroups : SameZones groups groups') :
    (gid ∈ dimIndex (rows.foldl (loadRow b isForBrand) (zi, groups')).1 z d k ↔
      gid ∈ dimIndex zi z d k ∨ ∃ keys, Adds b isForBrand groups rows gid z keys ∧ k ∈ keys d) ∧
    (((rows.foldl (loadRow b isForBrand) (zi, groups')).1 z).isSome ↔
      (zi z).isSome ∨ ∃ row ∈ rows, z ∈ zonesOf isForBrand groups row) := by
  induction rows generalizing zi groups' with
  | nil => simp [Adds]
  | cons row rows ih =>
      obtain ⟨hzi, hsame⟩ := loadRow_eq b isForBrand groups' row zi
      have htrans : SameZones groups (loadRow b isForBrand (zi, groups') row).2 :=
        fun gid => (hsame gid).trans (hgroups gid)
      obtain ⟨hmem, hsome⟩ := ih (loadRow b isForBrand (zi, groups') row).1 htrans
      rw [hgroups.zonesOf_eq] at hzi
      rw [List.foldl_cons]
      constructor
      · refine hmem.trans ?_
        rw [hzi, mem_loadZones, or_assoc]
        refine or_congr_right ?_
        constructor
        · rintro (⟨rfl, e, he, rfl, hk⟩ | ⟨keys, ⟨r, hr, hid, hpass⟩, hk⟩)
          · exact ⟨e.2, ⟨row, List.mem_cons_self, rfl, he⟩, hk⟩
          · exact ⟨keys, ⟨r, List.mem_cons_of_mem _ hr, hid, hpass⟩, hk⟩
        · rintro ⟨keys, ⟨r, hr, rfl, hpass⟩, hk⟩
          rcases List.mem_cons.mp hr with rfl | hr
          · exact .inl ⟨rfl, _, hpass, rfl, hk⟩
          · exact .inr ⟨keys, ⟨r, hr, rfl, hpass⟩, hk⟩
      · refine hsome.trans ?_
        rw [hzi, isSome_loadZones, or_assoc, List.exists_mem_cons_iff]

/-! ## Finding -/

/-- The area, its province or the country is among the keys. -/
def AreaFound (has : Dim → ℤ → Prop) (key : ℤ) : Prop :=
  has .area key ∨ (province key ≠ key ∧ has .area (province key)) ∨
    (province key ≠ COUNTRY ∧ has .area COUNTRY)

/-- The place of a profile is among the keys: the area of its address for employees, the school
or the current area for all others; a text that is not a number stops the search. -/
def PlaceFound (b : Boost) (p : UserProfile) (has : Dim → ℤ → Prop) : Prop :=
  if p.stage = 4 then ∃ key, b.toUInt p.ip_area = some key ∧ AreaFound has key
  else ∃ key, b.toUInt p.current_area = some key ∧
    (has .school (asUInt p.school) ∨ has .school 0 ∨ AreaFound has key)

/-- In each dimension a key of the profile, or the one for all, is among the keys. -/
structure Found (b : Boost) (p : UserProfile) (has : Dim → ℤ → Prop) : Prop where
  gender : has .gender (asShort p.gender)
  stage : has .stage (asShort p.stage)
  age : has .age (asShort p.age) ∨ has .age (-1)
  grade : p.stage = 4 ∨ has .grade (asShort p.grade) ∨ has .grade (-1)
  place : PlaceFound b p has

/-- What a profile is matched by. -/
inductive Condition where
  | gender
  | stage
  | age
  | grade
  | place
  deriving DecidableEq, Repr

/-- The dimensions that a condition is about. -/
def Condition.dims : Condition → List Dim
  | .gender => [.gender]
  | .stage => [.stage]
  | .age => [.age]
  | .grade => [.grade]
  | .place => [.area, .school]

/-- A key of the profile for a condition, or the one for all, is among the keys. -/
def KeyFinds (b : Boost) (p : UserProfile) (has : Dim → ℤ → Prop) : Condition → Prop
  | .gender => has .gender (asShort p.gender)
  | .stage => has .stage (asShort p.stage)
  | .age => has .age (asShort p.age) ∨ has .age (-1)
  | .grade => p.stage = 4 ∨ has .grade (asShort p.grade) ∨ has .grade (-1)
  | .place => PlaceFound b p has

theorem found_iff : Found b p has ↔ ∀ c, KeyFinds b p has c := by
  constructor
  · intro h c
    cases c with
    | gender => exact h.gender
    | stage => exact h.stage
    | age => exact h.age
    | grade => exact h.grade
    | place => exact h.place
  · exact fun h => ⟨h .gender, h .stage, h .age, h .grade, h .place⟩

/-- The text of the area that `Get` casts. -/
def UserProfile.areaText (p : UserProfile) : List Char :=
  if p.stage = 4 then p.ip_area else p.current_area

theorem mem_GetWithAll {all : ℤ} :
    gid ∈ index.GetWithAll all k ↔ gid ∈ index k ∨ gid ∈ index all := Finset.mem_union

/-- Under the area, its province or the country. -/
theorem mem_GetWithAllAreas : gid ∈ index.GetWithAllAreas k ↔
    gid ∈ index k ∨ (province k ≠ k ∧ gid ∈ index (province k)) ∨
      (province k ≠ COUNTRY ∧ gid ∈ index COUNTRY) := by
  have hite : ∀ {P : Prop} [Decidable P] {s : Finset ℤ}, gid ∈ (if P then s else ∅) ↔ P ∧ gid ∈ s := by
    intro P _ s
    split_ifs with hP
    · exact ⟨fun h => ⟨hP, h⟩, fun h => h.2⟩
    · exact ⟨fun h => absurd h (Finset.notMem_empty _), fun h => absurd h.1 hP⟩
  unfold KeyIndex.GetWithAllAreas
  rw [Finset.mem_union, Finset.mem_union, hite, hite, or_assoc]

/-- **What `Get` answers.** -/
theorem get_spec (s : AdInvertedIndex) :
    ((s.Get b p z ∅).isSome ↔ s.zone_index z = none ∨ (b.toUInt p.areaText).isSome) ∧
      ∀ r, s.Get b p z ∅ = some r →
        ∀ gid, gid ∈ r.2 ↔ Found b p fun d k => gid ∈ dimIndex s.zone_index z d k := by
  unfold AdInvertedIndex.Get UserProfile.areaText
  cases hz : s.zone_index z with
  | none =>
      refine ⟨by simp, fun r hr gid => ?_⟩
      cases hr
      refine ⟨fun h => absurd h (Finset.notMem_empty _), fun h => ?_⟩
      have := h.gender
      unfold dimIndex at this
      rw [hz] at this
      exact absurd this (Finset.notMem_empty _)
  | some dim =>
      have hdim : dimIndex s.zone_index z = dim := by
        unfold dimIndex
        rw [hz]
        rfl
      rw [hdim]
      dsimp only
      by_cases hstage : p.stage = 4
      · rw [if_pos hstage, if_pos hstage]
        refine ⟨by simp, fun r hr gid => ?_⟩
        obtain ⟨key, hkey, rfl⟩ := Option.map_eq_some_iff.mp hr
        dsimp only
        rw [Finset.mem_inter, Finset.mem_inter, Finset.empty_union, Finset.mem_inter, mem_GetWithAll,
          mem_GetWithAllAreas]
        constructor
        · rintro ⟨⟨⟨hgender, hst⟩, hage⟩, harea⟩
          refine ⟨hgender, hst, hage, .inl hstage, ?_⟩
          unfold PlaceFound
          rw [if_pos hstage]
          exact ⟨key, hkey, harea⟩
        · intro h
          have hplace := h.place
          unfold PlaceFound at hplace
          rw [if_pos hstage] at hplace
          obtain ⟨key', hkey', harea⟩ := hplace
          rw [hkey] at hkey'
          cases hkey'
          exact ⟨⟨⟨h.gender, h.stage⟩, h.age⟩, harea⟩
      · rw [if_neg hstage, if_neg hstage]
        refine ⟨by simp, fun r hr gid => ?_⟩
        obtain ⟨key, hkey, rfl⟩ := Option.map_eq_some_iff.mp hr
        dsimp only
        rw [Finset.mem_inter, Finset.mem_inter, Finset.mem_inter, Finset.empty_union, Finset.mem_inter,
          mem_GetWithAll, mem_GetWithAll, Finset.mem_union, mem_GetWithAll, mem_GetWithAllAreas, or_assoc]
        constructor
        · rintro ⟨⟨⟨⟨hgender, hst⟩, hage⟩, hgrade⟩, hplace⟩
          refine ⟨hgender, hst, hage, .inr hgrade, ?_⟩
          unfold PlaceFound
          rw [if_neg hstage]
          exact ⟨key, hkey, hplace⟩
        · intro h
          have hplace := h.place
          unfold PlaceFound at hplace
          rw [if_neg hstage] at hplace
          obtain ⟨key', hkey', hplace⟩ := hplace
          rw [hkey] at hkey'
          cases hkey'
          exact ⟨⟨⟨⟨h.gender, h.stage⟩, h.age⟩, h.grade.resolve_left hstage⟩, hplace⟩

theorem PlaceFound.isNumber (h : PlaceFound b p has) : (b.toUInt p.areaText).isSome = true := by
  unfold PlaceFound at h
  unfold UserProfile.areaText
  split_ifs at h ⊢
  · obtain ⟨key, hkey, -⟩ := h
    rw [hkey]
    rfl
  · obtain ⟨key, hkey, -⟩ := h
    rw [hkey]
    rfl

/-- **What `Get` answers after a load**: the groups that are found by the keys added for them. -/
theorem load_spec (b : Boost) (isForBrand : Bool) (groups : ℤ → Option AdGroup) (p : UserProfile)
    (z : ℤ) (s : AdInvertedIndex) (hrows : rows ≠ []) :
    (((s.TotalLoad b isForBrand rows groups).2.1.Get b p z ∅).isSome ↔
        (∀ row ∈ rows, z ∉ zonesOf isForBrand groups row) ∨ (b.toUInt p.areaText).isSome) ∧
      ∀ r, (s.TotalLoad b isForBrand rows groups).2.1.Get b p z ∅ = some r → ∀ gid, gid ∈ r.2 ↔
        Found b p fun d k => ∃ keys, Adds b isForBrand groups rows gid z keys ∧ k ∈ keys d := by
  have hrefl : SameZones groups groups := fun _ => rfl
  have hfold := fun gid d k => foldl_loadRow b isForBrand gid z d k (fun _ => none) rows hrefl
  have hzone : (rows.foldl (loadRow b isForBrand) (fun _ => none, groups)).1 z = none ↔
      ∀ row ∈ rows, z ∉ zonesOf isForBrand groups row := by
    rw [← Option.not_isSome_iff_eq_none, (hfold 0 .gender 0).2]
    simp
  unfold AdInvertedIndex.TotalLoad
  rw [if_neg hrows]
  dsimp only
  obtain ⟨hsome, hget⟩ := get_spec (b := b) (p := p) (z := z)
    ⟨(rows.foldl (loadRow b isForBrand) (fun _ => none, groups)).1⟩
  rw [hzone] at hsome
  refine ⟨hsome, fun r hr gid => ?_⟩
  have hhas : (fun d k =>
      gid ∈ dimIndex (rows.foldl (loadRow b isForBrand) (fun _ => none, groups)).1 z d k) =
      fun d k => ∃ keys, Adds b isForBrand groups rows gid z keys ∧ k ∈ keys d := by
    funext d k
    refine propext ((hfold gid d k).1.trans ⟨fun h => h.resolve_left ?_, .inr⟩)
    exact Finset.notMem_empty _
  rw [hget r hr gid, hhas]

end Oce.AdEngine
