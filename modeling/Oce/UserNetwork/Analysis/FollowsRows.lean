import Mathlib.Data.List.Perm.Basic
import Oce.Base.Run
import Oce.UserNetwork.Analysis.CacheFollows

/-!
# When the entries follow the tables

An operation is one of three shapes (`Call`), and for each the statement and the call agree
under a condition on the user's rows. Of the thirty-nine operations four do not always meet
it: `removeCollegeInfo` and `removeWorkspaceInfo` (with `removeWorkplaceInfoByWorkId`) select
records by another field than rows, `addJuniorHighSchoolInfo` compares the new id with the
owner of the records held, and `addRegionInfo` replaces rows of which the cache is not told.
-/

set_option autoImplicit false

namespace Oce.UserNetwork

open Oce.Base

variable {S : Schema} {st : State S} {k : InfoType} {userId : ℤ}

variable {fields : Fields} {selects : Info → Bool} {rows l : List Info} {row rs : Info}
  {data : Str2StrMap} {typeId : ℤ}

/-! ## The data of a call -/

/-- The data names every column but the one that the database gives. -/
def NamesAll (k : InfoType) (data : Str2StrMap) : Prop :=
  ∀ c ∈ columns k, c ≠ .id → ∃ p ∈ data, columnOf k p.1 = some c

/-- The fields name no other owner than the user the operation is for. -/
def NamesOwner (userId : ℤ) (fields : Fields) : Prop :=
  ∀ v : ℤ, (⟨.userId, v⟩ : (c : Column) × c.Value) ∈ fields → v = userId

/-- What the server stores, if it accepts the data, is what the call on the entry reads, and the
user's. -/
def StoresRead (S : Schema) (k : InfoType) (userId : ℤ) (data : Str2StrMap) : Prop :=
  ∀ fields, S.fields k data = some fields → fieldsOf k data = some fields ∧ NamesOwner userId fields

/-- The generated id is an `int`, and an id that the data has under the key `id` is not 0, for which
the server would generate another one. -/
def Keyed (S : Schema) (k : InfoType) (data : Str2StrMap) (auto : ℤ) : Prop :=
  IsInt auto ∧ ((∃ p ∈ data, p.1 = ascii "id") → ∀ fields, S.fields k data = some fields →
    (⟨.id, (0 : ℤ)⟩ : (c : Column) × c.Value) ∉ fields)

/-- The owner of a row whose fields are set. -/
theorem userId_setFields (h : NamesOwner userId fields) (r : Info)
    (hr : r.userId = userId ∨ ∃ p ∈ fields, p.1 = .userId) : (setFields k r fields).userId = userId := by
  by_cases hnamed : ∃ p ∈ fields, p.1 = .userId
  · obtain ⟨v, hmem, hv⟩ := exists_setFields_of_named (userId_mem_columns k) hnamed r
    exact hv.trans (h v hmem)
  · have hown : r.userId = userId := hr.resolve_right hnamed
    exact (setFields_of_not_named (fun p hp he => hnamed ⟨p, hp, he⟩) r).trans hown

theorem id_newRow (S : Schema) (k : InfoType) (fields : Fields) (auto : ℤ) :
    (Table.newRow S k fields auto).id = Table.insertId S k fields auto := by
  unfold Table.newRow Info.id
  exact Function.update_self _ _ _

section NewRow

variable {data : Str2StrMap} {fields : Fields} {auto : ℤ}

/-- Every column but the id takes the value that is named for it. -/
theorem newRow_of_ne {c : Column} (hall : ∀ c ∈ columns k, c ≠ .id → ∃ p ∈ fields, p.1 = c)
    (hc : c ≠ .id) (r : Info) (hr : c ∉ columns k → r c = Info.blank c) :
    Table.newRow S k fields auto c = setFields k r fields c := by
  refine (Function.update_of_ne hc _ _).trans ?_
  unfold Table.describedRow
  by_cases hmem : c ∈ columns k
  · exact setFields_of_named hmem (hall c hmem hc) _ _
  · rw [setFields_of_not_column hmem, setFields_of_not_column hmem, if_neg fun h => hmem h.1, hr hmem]

/-- The id of the new row: a named one other than 0, or the generated one. -/
theorem insertId_cases (S : Schema) (k : InfoType) (fields : Fields) (auto : ℤ) :
    (Table.insertId S k fields auto = auto ∧
        ((⟨.id, (0 : ℤ)⟩ : (c : Column) × c.Value) ∈ fields ∨ ∀ f ∈ fields, f.1 ≠ .id)) ∨
      ((⟨.id, Table.insertId S k fields auto⟩ : (c : Column) × c.Value) ∈ fields ∧
        ∀ r, (setFields k r fields).id = Table.insertId S k fields auto) := by
  unfold Table.insertId
  by_cases hnamed : ∃ f ∈ fields, f.1 = .id
  · obtain ⟨v, hmem, hv⟩ := exists_setFields_of_named (id_mem_columns k) hnamed
      (fun c => if c ∈ columns k ∧ c ≠ .id then S.columnDefault k c else Info.blank c)
    have hid : (Table.describedRow S k fields).id = v := hv
    rw [hid]
    by_cases hzero : v = 0
    · subst hzero
      exact .inl ⟨if_pos rfl, .inl hmem⟩
    · rw [if_neg hzero]
      refine .inr ⟨hmem, fun r => ?_⟩
      exact (setFields_of_named (id_mem_columns k) hnamed _ _).trans hv
  · have hnone : ∀ f ∈ fields, f.1 ≠ .id := fun f hf he => hnamed ⟨f, hf, he⟩
    have hid : (Table.describedRow S k fields).id = 0 :=
      (setFields_of_not_named hnone _).trans (if_neg fun h => h.2 rfl)
    rw [if_pos hid]
    exact .inl ⟨rfl, .inr hnone⟩

/-- The data of an addition that the claim on its call can rely on. -/
structure Named (S : Schema) (k : InfoType) (userId : ℤ) (data : Str2StrMap) (auto : ℤ) : Prop where
  all : NamesAll k data
  stored : StoresRead S k userId data
  keyed : Keyed S k data auto

theorem Named.fields_all (h : Named S k userId data auto) (hfields : S.fields k data = some fields) :
    ∀ c ∈ columns k, c ≠ .id → ∃ f ∈ fields, f.1 = c := by
  intro c hc hid
  obtain ⟨p, hp, hcol⟩ := h.all c hc hid
  obtain ⟨v, hv⟩ := exists_field (h.stored fields hfields).1 hp hcol
  exact ⟨_, hv, rfl⟩

theorem Named.userId_newRow (h : Named S k userId data auto)
    (hfields : S.fields k data = some fields) : (Table.newRow S k fields auto).userId = userId := by
  have hall := h.fields_all hfields
  refine (newRow_of_ne hall (by decide) Info.blank fun _ => rfl).trans ?_
  exact userId_setFields (h.stored fields hfields).2 _
    (.inr (hall .userId (userId_mem_columns k) (by decide)))

theorem Named.isInt_insertId (h : Named S k userId data auto)
    (hfields : S.fields k data = some fields) : IsInt (Table.insertId S k fields auto) := by
  obtain ⟨hauto, -⟩ | ⟨hmem, -⟩ := insertId_cases S k fields auto
  · rw [hauto]
    exact h.keyed.1
  · obtain ⟨p, -, -, hread⟩ := (mem_fieldsOf (h.stored fields hfields).1).mp hmem
    simpa using (Option.filter_eq_some_iff.mp hread).2

/-- The texts that the call on the entry is given set the record to the row that is stored. -/
theorem Named.setProperties_withId (h : Named S k userId data auto)
    (hfields : S.fields k data = some fields) :
    setProperties k Info.blank (State.withId data (asInt (Table.insertId S k fields auto))) =
      some (Table.newRow S k fields auto) := by
  have hread := (h.stored fields hfields).1
  have hint := h.isInt_insertId hfields
  rw [asInt_of_isInt hint, setProperties_eq]
  unfold State.withId
  by_cases hkey : ∃ p ∈ data, p.1 = ascii "id"
  · rw [if_pos hkey, hread, Option.map_some]
    refine congrArg some (funext fun c => ?_)
    by_cases hc : c = .id
    · subst hc
      refine Eq.trans ?_ (id_newRow S k fields auto).symm
      obtain ⟨-, hzero | hnone⟩ | ⟨-, hset⟩ := insertId_cases S k fields auto
      · exact absurd hzero (h.keyed.2 hkey fields hfields)
      · -- the key `id` names the column
        obtain ⟨p, hp, hname⟩ := hkey
        have hcol : columnOf k p.1 = some .id := hname ▸ columnOf_id k
        obtain ⟨v, hv⟩ := exists_field hread hp hcol
        exact absurd rfl (hnone _ hv)
      · exact hset _
    · exact (newRow_of_ne (h.fields_all hfields) hc Info.blank fun _ => rfl).symm
  · have hid : fieldsOf k [(ascii "id", intDigits (Table.insertId S k fields auto))] =
        some [⟨.id, Table.insertId S k fields auto⟩] := by
      rw [fieldsOf_cons_of_some (c := .id) (columnOf_id k)]
      refine (congrArg (Option.bind · _) (lexicalCastInt_intDigits hint)).trans rfl
    rw [if_neg hkey, fieldsOf_append, hread, hid]
    simp only [Option.bind_some, Option.map_some]
    rw [setFields_append, setFields_cons, setFields_nil, setField_of_mem _ (id_mem_columns k)]
    refine congrArg some (funext fun c => ?_)
    by_cases hc : c = .id
    · subst hc
      exact (Function.update_self _ _ _).trans (id_newRow S k fields auto).symm
    · refine (Function.update_of_ne hc _ _).trans ?_
      exact (newRow_of_ne (h.fields_all hfields) hc Info.blank fun _ => rfl).symm

end NewRow

/-! ## Statements that add a row -/

namespace Table

variable {t t' : Table S k} {data : Str2StrMap} {auto index : ℤ}

/-- An insert adds the new row, unless it clashes. -/
theorem insertInto_eq_some (h : t.insertInto data auto = some (t', index)) :
    ∃ fields, S.fields k data = some fields ∧ t'.rows = t.rows ++ [newRow S k fields auto] ∧
      index = insertId S k fields auto ∧ ∀ r ∈ t.rows, ¬ S.Clash k r (newRow S k fields auto) := by
  unfold insertInto at h
  split at h
  · cases h
  · next fields hfields =>
      split at h
      · cases h
      · split at h
        · next hclash =>
            cases h
            exact ⟨fields, hfields, rfl, rfl, hclash⟩
        · cases h

theorem replaceInto_eq_some (h : t.replaceInto data auto = some (t', index)) :
    ∃ fields, S.fields k data = some fields ∧
      t'.rows = t.spared (newRow S k fields auto) ++ [newRow S k fields auto] ∧
      index = insertId S k fields auto := by
  unfold replaceInto at h
  split at h
  · cases h
  · next fields hfields =>
      split at h
      · cases h
      · cases h
        exact ⟨fields, hfields, rfl, rfl⟩

theorem update_eq_some (h : t.update userId selects data = some t') :
    ∃ fields, S.fields k data = some fields ∧ t'.rows = t.updatedRows userId selects fields := by
  unfold update at h
  split at h
  · cases h
  · next fields hfields =>
      split at h
      · cases h
        exact ⟨fields, hfields, rfl⟩
      · cases h

/-- The new row is one of its owner's rows. -/
theorem rowsOf_append {t' : Table S k} (h : t'.rows = rows ++ [row]) (hrow : row.userId = userId) :
    t'.rowsOf userId = (rows.filter fun r => r.userId = userId) ++ [row] := by
  simp [rowsOf, h, List.filter_append, hrow]

theorem rowsOf_append_of_ne {t' : Table S k} (h : t'.rows = rows ++ [row]) {v : ℤ}
    (hrow : row.userId ≠ v) : t'.rowsOf v = rows.filter fun r => r.userId = v := by
  simp [rowsOf, h, List.filter_append, hrow]

end Table

theorem addChange_of_found (h : ∃ r ∈ l, addInfoField k r = rs.id) : addChange rs k l = l := by
  unfold addChange
  rw [if_pos]
  simpa using h

theorem addChange_of_fresh (h : ∀ r ∈ l, addInfoField k r ≠ rs.id) :
    addChange rs k l = l ++ [rs] := by
  unfold addChange
  rw [if_neg]
  simpa using h

/-- An `add` keeps the entries in line if the record is pushed exactly when a row is new to the
list it finds. -/
theorem add_follows (hst : Consistent st) {t : Table S k} {index : ℤ}
    (hrow : setProperties k Info.blank (State.withId data (asInt index)) = some row)
    (hid : row.id = index)
    (hother : ∀ v, v ≠ userId → st.cache v ≠ none → (t.rowsOf v).Perm ((st.db k).rowsOf v))
    (hfound : st.cache userId ≠ none → (∃ r ∈ (st.db k).rowsOf userId, addInfoField k r = index) →
      (t.rowsOf userId).Perm ((st.db k).rowsOf userId))
    (hfresh : st.cache userId ≠ none → (∀ r ∈ (st.db k).rowsOf userId, addInfoField k r ≠ index) →
      (t.rowsOf userId).Perm ((st.db k).rowsOf userId ++ [row]))
    (hloaded : st.cache userId = none → ∃ r ∈ t.rowsOf userId, addInfoField k r = index) :
    Consistent (st.add k userId data (some (t, index))) ∧
      Frame st (st.add k userId data (some (t, index))) userId k fun _ => false := by
  have hcall := addInfo_eq_repack hrow
  have hcached : ∀ l : List Info, st.cache userId ≠ none → l.Perm ((st.db k).rowsOf userId) →
      (addChange row k l).Perm (t.rowsOf userId) := by
    intro l hc hl
    by_cases h : ∃ r ∈ (st.db k).rowsOf userId, addInfoField k r = index
    · rw [addChange_of_found]
      · exact hl.trans (hfound hc h).symm
      · obtain ⟨r, hr, hri⟩ := h
        exact ⟨r, hl.mem_iff.mpr hr, hri.trans hid.symm⟩
    · have hne : ∀ r ∈ (st.db k).rowsOf userId, addInfoField k r ≠ index :=
        fun r hr he => h ⟨r, hr, he⟩
      rw [addChange_of_fresh]
      · exact (hl.append_right _).trans (hfresh hc hne).symm
      · intro r hr
        rw [hid]
        exact hne r (hl.mem_iff.mp hr)
  constructor
  · apply onEntry_follows hst hcall hother hcached
    intro hc
    obtain ⟨r, hr, hri⟩ := hloaded hc
    rw [addChange_of_found ⟨r, hr, hri.trans hid.symm⟩]
  · apply onEntry_frame hst hcall hcached
    intro l _
    unfold addChange
    split
    · exact List.filter_sublist
    · exact List.filter_sublist.trans (List.sublist_append_left _ _)

section Additions

variable {data : Str2StrMap} {auto : ℤ}

/-- `INSERT` with `addInfo`. -/
theorem insert_follows (hst : Consistent st) (hnamed : Named S k userId data auto)
    (hagree : ∀ t index, (st.db k).insertInto data auto = some (t, index) →
      (st.cache userId ≠ none → ∀ r ∈ (st.db k).rowsOf userId, addInfoField k r ≠ index) ∧
        (st.cache userId = none → ∃ r ∈ t.rowsOf userId, addInfoField k r = index)) :
    Consistent (st.add k userId data ((st.db k).insertInto data auto)) ∧
      Frame st (st.add k userId data ((st.db k).insertInto data auto)) userId k fun _ => false := by
  cases hres : (st.db k).insertInto data auto with
  | none => exact ⟨hst, frame_self st userId k _⟩
  | some p =>
      obtain ⟨t, index⟩ := p
      obtain ⟨hfresh, hloaded⟩ := hagree t index hres
      obtain ⟨fields, hfields, hrows, rfl, -⟩ := Table.insertInto_eq_some hres
      have hu := hnamed.userId_newRow hfields
      apply add_follows hst (hnamed.setProperties_withId hfields) (id_newRow S k fields auto)
      · intro v hv _
        rw [Table.rowsOf_append_of_ne hrows fun he => hv (he.symm.trans hu)]
        exact .refl _
      · intro hc ⟨r, hr, hri⟩
        exact absurd hri (hfresh hc r hr)
      · intro _ _
        rw [Table.rowsOf_append hrows hu]
        exact .refl _
      · exact hloaded

/-- For the kinds whose records are compared by id, a new row's id is new to the entry. -/
theorem insert_follows_of_id (hst : Consistent st) (hnamed : Named S k userId data auto)
    (hfield : addInfoField k = Info.id) :
    Consistent (st.add k userId data ((st.db k).insertInto data auto)) ∧
      Frame st (st.add k userId data ((st.db k).insertInto data auto)) userId k fun _ => false := by
  apply insert_follows hst hnamed
  intro t index hres
  obtain ⟨fields, hfields, hrows, rfl, hclash⟩ := Table.insertInto_eq_some hres
  rw [hfield]
  constructor
  · intro _ r hr he
    apply hclash r (Table.mem_rowsOf.mp hr).1
    exact .inl (he.trans (id_newRow S k fields auto).symm)
  · intro _
    refine ⟨Table.newRow S k fields auto, ?_, id_newRow S k fields auto⟩
    rw [Table.mem_rowsOf, hrows]
    exact ⟨by simp, hnamed.userId_newRow hfields⟩

end Additions

/-- A row that is replaced by itself. -/
theorem spared_perm (hnodup : rows.Nodup) (hmem : row ∈ rows) {p : Info → Bool}
    (hrow : p row = false) (h : ∀ r ∈ rows, p r = false → r = row) :
    (rows.filter p ++ [row]).Perm rows := by
  have hgone : rows.filter (fun r => ¬ p r) = [row] := by
    apply List.perm_singleton.mp
    refine (List.perm_ext_iff_of_nodup (hnodup.filter _) (List.nodup_singleton row)).mpr fun r => ?_
    rw [List.mem_filter, List.mem_singleton]
    constructor
    · rintro ⟨hr, hp⟩
      exact h r hr (by simpa using hp)
    · rintro rfl
      exact ⟨hmem, by simp [hrow]⟩
  have hsplit := List.filter_append_perm p rows
  have hnot : rows.filter (fun r => !p r) = [row] := by
    rw [← hgone]
    exact List.filter_congr fun r _ => by simp
  rw [hnot] at hsplit
  exact hsplit

/-- `REPLACE` with `addInfo`, when every row that goes is the new row itself or has an owner
without an entry. -/
theorem replace_follows (hst : Consistent st) {auto : ℤ} (hnamed : Named S k userId data auto)
    (hfield : addInfoField k = Info.id)
    (hagree : ∀ fields, S.fields k data = some fields → ∀ r ∈ (st.db k).rows,
      S.Clash k r (Table.newRow S k fields auto) →
        r = Table.newRow S k fields auto ∨ st.cache r.userId = none) :
    Consistent (st.add k userId data ((st.db k).replaceInto data auto)) ∧
      Frame st (st.add k userId data ((st.db k).replaceInto data auto)) userId k fun _ => false := by
  cases hres : (st.db k).replaceInto data auto with
  | none => exact ⟨hst, frame_self st userId k _⟩
  | some p =>
      obtain ⟨t, index⟩ := p
      obtain ⟨fields, hfields, hrows, rfl⟩ := Table.replaceInto_eq_some hres
      have hu := hnamed.userId_newRow hfields
      have hid := id_newRow S k fields auto
      have hsame : ∀ v, st.cache v ≠ none → ∀ r ∈ (st.db k).rowsOf v,
          S.Clash k r (Table.newRow S k fields auto) → r = Table.newRow S k fields auto := by
        intro v hv r hr hclash
        obtain ⟨hmem, howner⟩ := Table.mem_rowsOf.mp hr
        exact (hagree fields hfields r hmem hclash).resolve_right (howner ▸ hv)
      have hsplit : ∀ v, ((st.db k).spared (Table.newRow S k fields auto)).filter (fun r => r.userId = v) =
          ((st.db k).rowsOf v).filter fun r => ¬ S.Clash k r (Table.newRow S k fields auto) := by
        intro v
        simp only [Table.spared, Table.rowsOf, List.filter_filter]
        exact List.filter_congr fun r _ => Bool.and_comm _ _
      have hall_spared : ∀ v, (∀ r ∈ (st.db k).rowsOf v, ¬ S.Clash k r (Table.newRow S k fields auto)) →
          ((st.db k).spared (Table.newRow S k fields auto)).filter (fun r => r.userId = v) =
            (st.db k).rowsOf v := by
        intro v h
        rw [hsplit, List.filter_eq_self]
        simpa using h
      apply add_follows hst (hnamed.setProperties_withId hfields) hid
      · intro v hv hc
        refine .of_eq ((Table.rowsOf_append_of_ne hrows fun he => hv (he.symm.trans hu)).trans
          (hall_spared v ?_))
        intro r hr hclash
        have hr' := hsame v hc r hr hclash
        apply hv
        rw [← hu, ← hr']
        exact (Table.mem_rowsOf.mp hr).2.symm
      · rintro hc ⟨r, hr, hri⟩
        rw [hfield] at hri
        have hclash : S.Clash k r (Table.newRow S k fields auto) := .inl (hri.trans hid.symm)
        have hrow : r = Table.newRow S k fields auto := hsame userId hc r hr hclash
        rw [Table.rowsOf_append hrows hu, hsplit]
        apply spared_perm ((st.db k).rowsOf_nodup userId) (hrow ▸ hr)
        · simpa using hrow ▸ hclash
        · intro r' hr' hp
          exact hsame userId hc r' hr' (by simpa using hp)
      · intro hc hne
        rw [Table.rowsOf_append hrows hu]
        refine .of_eq (congrArg (· ++ _) (hall_spared userId ?_))
        intro r hr hclash
        apply hne r hr
        rw [hfield, hsame userId hc r hr hclash, hid]
      · intro _
        refine ⟨Table.newRow S k fields auto, ?_, ?_⟩
        · rw [Table.mem_rowsOf, hrows]
          exact ⟨by simp, hu⟩
        · rw [hfield, hid]

/-! ## Statements that change or delete rows -/

/-- The rows of a user after `UPDATE`. -/
theorem rowsOf_update {t t' : Table S k} (hown : NamesOwner userId fields)
    (hrows : t'.rows = t.updatedRows userId selects fields) (v : ℤ) :
    t'.rowsOf v = (t.rowsOf v).map fun r =>
      if r.userId = userId ∧ selects r = true then setFields k r fields else r := by
  have hsame : ∀ r : Info, (if r.userId = userId ∧ selects r = true then setFields k r fields
      else r).userId = r.userId := by
    intro r
    split
    · next hr => rw [userId_setFields hown r (.inl hr.1), hr.1]
    · rfl
  unfold Table.rowsOf
  rw [hrows, Table.updatedRows, List.filter_map]
  congr 1
  apply List.filter_congr
  intro r _
  exact congrArg (fun w => decide (w = v)) (hsame r)

/-- The records that are not selected stay. -/
theorem kept_setChange (hsel : ∀ r, selects r = decide (setInfoField k r = typeId))
    (fields : Fields) (l : List Info) :
    (l.filter fun r => ¬ selects r).Sublist (setChange typeId fields k l) := by
  unfold setChange
  induction l with
  | nil => exact .refl _
  | cons r l ih =>
      rw [List.map_cons]
      by_cases hr : setInfoField k r = typeId
      · rw [List.filter_cons_of_neg (by simp [hsel, hr])]
        exact ih.cons _
      · rw [List.filter_cons_of_pos (by simp [hsel, hr]), if_neg hr]
        exact ih.cons_cons _

/-- `UPDATE` with `setInfo`: both select by the same field. -/
theorem set_follows (hst : Consistent st) (hstored : StoresRead S k userId data)
    (hsel : ∀ r, selects r = decide (setInfoField k r = typeId)) :
    Consistent (st.set k userId selects typeId data) ∧
      Frame st (st.set k userId selects typeId data) userId k selects := by
  unfold State.set
  cases hres : (st.db k).update userId selects data with
  | none => exact ⟨hst, frame_self st userId k selects⟩
  | some t =>
      obtain ⟨fields, hfields, hupdated⟩ := Table.update_eq_some hres
      obtain ⟨hread, hown⟩ := hstored fields hfields
      have hcall := setInfo_eq_repack hread typeId
      have hrows := rowsOf_update hown hupdated
      have hself : t.rowsOf userId = setChange typeId fields k ((st.db k).rowsOf userId) := by
        rw [hrows]
        apply List.map_congr_left
        intro r hr
        simp [(Table.mem_rowsOf.mp hr).2, hsel]
      have hcached : ∀ l : List Info, st.cache userId ≠ none → l.Perm ((st.db k).rowsOf userId) →
          (setChange typeId fields k l).Perm (t.rowsOf userId) := by
        intro l _ hl
        rw [hself]
        exact hl.map _
      constructor
      · apply onEntry_follows hst hcall _ hcached
        · intro _
          apply List.Perm.of_eq
          rw [hself]
          unfold setChange
          rw [List.map_map]
          apply List.map_congr_left
          intro r _
          by_cases hr : setInfoField k r = typeId
          · simp [hr, setFields_setFields]
          · simp [hr]
        · intro v hv _
          apply List.Perm.of_eq
          rw [hrows]
          refine (List.map_congr_left fun r hr => if_neg fun h => ?_).trans (List.map_id _)
          exact hv ((Table.mem_rowsOf.mp hr).2.symm.trans h.1)
      · apply onEntry_frame hst hcall hcached
        intro l _
        exact kept_setChange hsel fields l

/-- `DELETE` with `removeInfo`: the call selects, of the user's rows, those that the statement does.
Without an entry it may select fewer, since it finds the rows that are left. -/
theorem remove_follows (hst : Consistent st) {f : Info → Bool} {changeType : ChangeType}
    (hseq : ∀ l, removeSeq typeId l changeType k = l.filter fun r => ¬ f r)
    (hagree : ∀ r ∈ (st.db k).rowsOf userId, (f r → selects r) ∧
      (selects r → f r ∨ st.cache userId = none)) :
    Consistent (st.remove k userId selects typeId changeType) ∧
      Frame st (st.remove k userId selects typeId changeType) userId k selects := by
  let t := (st.db k).deleteFrom userId selects
  have hrows : ∀ v, t.rowsOf v =
      ((st.db k).rowsOf v).filter fun r => ¬ (r.userId = userId ∧ selects r = true) := by
    intro v
    simp only [t, Table.deleteFrom, Table.rowsOf, List.filter_filter]
    exact List.filter_congr fun r _ => Bool.and_comm _ _
  have hself : t.rowsOf userId = ((st.db k).rowsOf userId).filter fun r => ¬ selects r := by
    rw [hrows]
    apply List.filter_congr
    intro r hr
    simp [(Table.mem_rowsOf.mp hr).2]
  have hcached : ∀ l : List Info, st.cache userId ≠ none → l.Perm ((st.db k).rowsOf userId) →
      (removeSeq typeId l changeType k).Perm (t.rowsOf userId) := by
    intro l hc hl
    rw [hseq, hself]
    refine (hl.filter _).trans (.of_eq (List.filter_congr fun r hr => ?_))
    have hiff : f r = true ↔ selects r = true :=
      ⟨(hagree r hr).1, fun hs => ((hagree r hr).2 hs).resolve_right hc⟩
    simp [hiff]
  have hcall : ∀ bp, some (removeInfo typeId k changeType bp) =
      some (repack k (fun seq => removeSeq typeId seq changeType k) bp) := fun _ => rfl
  constructor
  · apply onEntry_follows (t := t) hst hcall _ hcached
    · intro _
      rw [hseq, List.filter_eq_self.mpr]
      intro r hr
      rw [hself, List.mem_filter] at hr
      have hnot : f r ≠ true := fun hf => by simpa [(hagree r hr.1).1 hf] using hr.2
      simpa using hnot
    · intro v hv _
      rw [hrows, List.filter_eq_self.mpr]
      intro r hr
      simp [(Table.mem_rowsOf.mp hr).2, hv]
  · apply onEntry_frame (t := t) hst hcall hcached
    intro l hl
    rw [hseq]
    have hsub : (l.filter fun r => ¬ selects r) =
        (l.filter fun r => ¬ f r).filter fun r => ¬ selects r := by
      rw [List.filter_filter]
      apply List.filter_congr
      intro r hr
      have himp := (hagree r (hl.mem_iff.mp hr)).1
      cases hf : f r <;> cases hs : selects r <;> simp_all
    rw [hsub]
    exact List.filter_sublist

end Oce.UserNetwork
