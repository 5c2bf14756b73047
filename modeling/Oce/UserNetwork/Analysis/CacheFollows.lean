import Mathlib.Data.List.Nodup
import Oce.UserNetwork.Model.Manager

/-!
# The cache entries follow the tables

`Consistent` says that every entry holds its owner's rows, whatever their order; `Frame` that
the records an operation does not select stay in the entry. Each operation is a statement
and a call: `onEntry_follows` says what must hold of the two for both, and the three shapes
(`add`, `set`, `remove`) are read off from it.
-/

set_option autoImplicit false

namespace Oce.UserNetwork

open Function Oce.Base

variable {c : Column} {fields : Fields} {data : Str2StrMap} {userId : ℤ} {r : Info}
  {bp : BinString}

/-!
## What a call makes of an entry

`addInfo`, `setInfo` and `removeInfo` take the records of an entry out, change the list of one
kind and pack them again (`repack`). Packing loses nothing of a record that has only the
columns of its kind and the entry's owner as its `userId`, so such a call is the change of
the one list: the records of the other kinds come out as they went in.
-/

/-! ## Setting columns -/

theorem id_mem_columns (k : InfoType) : Column.id ∈ columns k := by cases k <;> decide

theorem userId_mem_columns (k : InfoType) : Column.userId ∈ columns k := by cases k <;> decide

theorem columns_nodup (k : InfoType) : (columns k).Nodup := by cases k <;> decide

theorem packed_eq_erase (k : InfoType) : packed k = (columns k).erase .userId := by
  cases k <;> rfl

theorem mem_packed {k : InfoType} : c ∈ packed k ↔ c ≠ .userId ∧ c ∈ columns k := by
  rw [packed_eq_erase, (columns_nodup k).mem_erase_iff]

@[simp] theorem setFields_nil (k : InfoType) (r : Info) : setFields k r [] = r := rfl

@[simp] theorem setFields_cons (k : InfoType) (r : Info) (p : (c : Column) × c.Value)
    (fields : Fields) :
    setFields k r (p :: fields) = setFields k (setField k r p) fields := rfl

theorem setFields_append (k : InfoType) (r : Info) (fields fields' : Fields) :
    setFields k r (fields ++ fields') = setFields k (setFields k r fields) fields' := by
  unfold setFields
  rw [List.foldl_append]

theorem setField_of_mem {k : InfoType} (r : Info) {p : (c : Column) × c.Value}
    (h : p.1 ∈ columns k) : setField k r p = update r p.1 p.2 := if_pos h

/-- The value of a column that the fields do not name stays. -/
theorem setFields_of_not_named {k : InfoType} (h : ∀ p ∈ fields, p.1 ≠ c) (r : Info) :
    setFields k r fields c = r c := by
  induction fields generalizing r with
  | nil => rfl
  | cons p fields ih =>
      have hc : c ≠ p.1 := fun he => h p (by simp) he.symm
      rw [setFields_cons, ih (fun q hq => h q (by simp [hq]))]
      unfold setField
      split
      · exact update_of_ne hc _ _
      · rfl

/-- The value of a named column depends on the fields alone. -/
theorem setFields_of_named {k : InfoType} (hc : c ∈ columns k) (h : ∃ p ∈ fields, p.1 = c)
    (r r' : Info) : setFields k r fields c = setFields k r' fields c := by
  induction fields generalizing r r' with
  | nil =>
      obtain ⟨p, hp, -⟩ := h
      cases hp
  | cons p fields ih =>
      rw [setFields_cons, setFields_cons]
      by_cases hrest : ∃ q ∈ fields, q.1 = c
      · exact ih hrest _ _
      · have hnot : ∀ q ∈ fields, q.1 ≠ c := fun q hq he => hrest ⟨q, hq, he⟩
        obtain ⟨q, hq, rfl⟩ := h
        rcases List.mem_cons.mp hq with rfl | hq
        · rw [setFields_of_not_named hnot, setFields_of_not_named hnot,
            setField_of_mem r hc, setField_of_mem r' hc, update_self,
            update_self]
        · exact absurd rfl (hnot q hq)

/-- A named column takes one of the values that are named for it. -/
theorem exists_setFields_of_named {k : InfoType} (hc : c ∈ columns k) (h : ∃ p ∈ fields, p.1 = c)
    (r : Info) :
    ∃ v : c.Value, (⟨c, v⟩ : (c : Column) × c.Value) ∈ fields ∧ setFields k r fields c = v := by
  induction fields generalizing r with
  | nil =>
      obtain ⟨p, hp, -⟩ := h
      cases hp
  | cons p fields ih =>
      by_cases hrest : ∃ q ∈ fields, q.1 = c
      · obtain ⟨v, hmem, hv⟩ := ih hrest (setField k r p)
        exact ⟨v, List.mem_cons_of_mem _ hmem, hv⟩
      · have hnot : ∀ q ∈ fields, q.1 ≠ c := fun q hq he => hrest ⟨q, hq, he⟩
        obtain ⟨q, hq, rfl⟩ := h
        rcases List.mem_cons.mp hq with rfl | hq
        · refine ⟨q.2, List.mem_cons_self, ?_⟩
          rw [setFields_cons, setFields_of_not_named hnot, setField_of_mem r hc, update_self]
        · exact absurd rfl (hnot q hq)

/-- Setting the same columns again changes nothing. -/
theorem setFields_setFields (k : InfoType) (r : Info) (fields : Fields) :
    setFields k (setFields k r fields) fields = setFields k r fields := by
  funext c
  by_cases hc : c ∈ columns k
  · by_cases hnamed : ∃ p ∈ fields, p.1 = c
    · exact setFields_of_named hc hnamed _ _
    · exact setFields_of_not_named (fun p hp he => hnamed ⟨p, hp, he⟩) _
  · exact setFields_of_not_column hc _ _

/-- Setting the columns of a list to the values of a record. -/
theorem setFields_values {k : InfoType} {l : List Column} (hl : ∀ c ∈ l, c ∈ columns k)
    (r base : Info) :
    setFields k base (l.map fun c => ⟨c, r c⟩) = fun c => if c ∈ l then r c else base c := by
  induction l generalizing base with
  | nil => rfl
  | cons a l ih =>
      rw [List.map_cons, setFields_cons, ih (fun c hc => hl c (by simp [hc])),
        setField_of_mem base (hl a (by simp))]
      funext c
      by_cases hc : c ∈ l
      · simp [hc]
      · by_cases he : c = a
        · subst he
          simp [hc]
        · simp [hc, he]

/-! ## Reading the texts -/

/-- What the texts are read as, none if one cannot be read. A key that is no column is left out. -/
def fieldsOf (k : InfoType) : Str2StrMap → Option Fields
  | [] => some []
  | p :: data =>
    match columnOf k p.1 with
    | none => fieldsOf k data
    | some c => do
      let v ← ValueOf.read c.isText p.2
      let fields ← fieldsOf k data
      some (⟨c, v⟩ :: fields)

section Reading

variable {k : InfoType} {p : List Byte × List Byte} {c : Column}

/-- A key names a column of its kind. -/
theorem mem_of_columnOf {key : List Byte} (h : columnOf k key = some c) : c ∈ columns k :=
  List.mem_of_find?_eq_some h

theorem fieldsOf_cons_of_none (h : columnOf k p.1 = none) (data : Str2StrMap) :
    fieldsOf k (p :: data) = fieldsOf k data := by
  rw [fieldsOf, h]

theorem fieldsOf_cons_of_some (h : columnOf k p.1 = some c) (data : Str2StrMap) :
    fieldsOf k (p :: data) = (ValueOf.read c.isText p.2).bind fun v =>
      (fieldsOf k data).bind fun fields => some (⟨c, v⟩ :: fields) := by
  rw [fieldsOf, h]
  rfl

theorem setProperty_of_none (h : columnOf k p.1 = none) (r : Info) : setProperty k r p = some r := by
  rw [setProperty, h]

theorem setProperty_of_some (h : columnOf k p.1 = some c) (r : Info) :
    setProperty k r p = (ValueOf.read c.isText p.2).map fun v => setField k r ⟨c, v⟩ := by
  rw [setProperty, h]
  exact congrArg (Option.map · _) (funext fun v => (if_pos (mem_of_columnOf h)).symm)

/-- The properties are set one after the other if all of them can be read. -/
theorem setProperties_eq (k : InfoType) (r : Info) (data : Str2StrMap) :
    setProperties k r data = (fieldsOf k data).map (setFields k r) := by
  unfold setProperties
  induction data generalizing r with
  | nil => rfl
  | cons p data ih =>
      rw [List.foldlM_cons]
      cases hc : columnOf k p.1 with
      | none =>
          rw [setProperty_of_none hc, fieldsOf_cons_of_none hc]
          exact ih r
      | some c =>
          rw [setProperty_of_some hc, fieldsOf_cons_of_some hc]
          cases ValueOf.read c.isText p.2 with
          | none => rfl
          | some v =>
              refine (ih _).trans ?_
              cases fieldsOf k data <;> rfl

/-- The fields of two parts of the values. -/
theorem fieldsOf_append (k : InfoType) (data data' : Str2StrMap) :
    fieldsOf k (data ++ data') =
      (fieldsOf k data).bind fun fields => (fieldsOf k data').map fun fields' => fields ++ fields' := by
  induction data with
  | nil => simp [fieldsOf]
  | cons p data ih =>
      rw [List.cons_append]
      cases hc : columnOf k p.1 with
      | none => rw [fieldsOf_cons_of_none hc, fieldsOf_cons_of_none hc, ih]
      | some c =>
          rw [fieldsOf_cons_of_some hc, fieldsOf_cons_of_some hc, ih]
          cases ValueOf.read c.isText p.2 with
          | none => rfl
          | some v => cases fieldsOf k data <;> cases fieldsOf k data' <;> rfl

/-- A field is one of the texts. -/
theorem mem_fieldsOf (h : fieldsOf k data = some fields) {f : (c : Column) × c.Value} :
    f ∈ fields ↔ ∃ p ∈ data, columnOf k p.1 = some f.1 ∧ ValueOf.read f.1.isText p.2 = some f.2 := by
  induction data generalizing fields with
  | nil =>
      cases h
      simp
  | cons p data ih =>
      cases hc : columnOf k p.1 with
      | none =>
          rw [fieldsOf_cons_of_none hc] at h
          simp [ih h, hc]
      | some c =>
          rw [fieldsOf_cons_of_some hc] at h
          obtain ⟨v, hv, h⟩ := Option.bind_eq_some_iff.mp h
          obtain ⟨rest, hrest, h⟩ := Option.bind_eq_some_iff.mp h
          cases h
          rw [List.mem_cons, ih hrest, List.exists_mem_cons_iff]
          refine or_congr ?_ Iff.rfl
          constructor
          · rintro rfl
            exact ⟨hc, hv⟩
          · rintro ⟨hc', hv'⟩
            obtain ⟨c', v'⟩ := f
            cases hc.symm.trans hc'
            cases hv.symm.trans hv'
            rfl

/-- What is read of a text is a field. -/
theorem exists_field (h : fieldsOf k data = some fields) (hp : p ∈ data)
    (hc : columnOf k p.1 = some c) : ∃ v : c.Value, (⟨c, v⟩ : (c : Column) × c.Value) ∈ fields := by
  obtain ⟨before, behind, rfl⟩ := List.append_of_mem hp
  rw [fieldsOf_append, fieldsOf_cons_of_some hc] at h
  obtain ⟨first, -, h⟩ := Option.bind_eq_some_iff.mp h
  obtain ⟨rest, hrest, rfl⟩ := Option.map_eq_some_iff.mp h
  obtain ⟨v, -, hrest⟩ := Option.bind_eq_some_iff.mp hrest
  obtain ⟨last, -, hrest⟩ := Option.bind_eq_some_iff.mp hrest
  cases hrest
  exact ⟨v, List.mem_append_right _ List.mem_cons_self⟩

/-- The key that the generated id is put under. -/
theorem columnOf_id (k : InfoType) : columnOf k (ascii "id") = some .id := by cases k <;> decide

end Reading

/-! ## Packing and unpacking -/

/-- A record with another owner. -/
def ownedBy (userId : ℤ) (r : Info) : Info := update r .userId userId

theorem ownedBy_of_eq (h : r.userId = userId) : ownedBy userId r = r := by
  rw [← h]
  exact update_eq_self _ _

/-- A record of its kind comes out of the buffer as it went in, its owner apart. -/
theorem unpack_values {k : InfoType} (h : OfKind k r) (userId : ℤ) :
    unpack k userId ((packed k).map fun c => ⟨c, r c⟩) = ownedBy userId r := by
  unfold unpack
  rw [setFields_values fun c hc => (mem_packed.mp hc).2]
  funext c
  by_cases he : c = .userId
  · subst he
    simp [mem_packed, ownedBy]
  · rw [ownedBy, update_of_ne he, update_of_ne he]
    by_cases hc : c ∈ columns k
    · rw [if_pos (mem_packed.mpr ⟨he, hc⟩)]
    · rw [if_neg fun hp => hc (mem_packed.mp hp).2]
      exact (h c hc).symm

/-- The records of an entry. -/
def BinString.seq (bp : BinString) (k : InfoType) : List Info := (NetworkData.unSerialize bp).seq k

/-- The records are of kind `k` and the owner's. -/
def Owned (k : InfoType) (userId : ℤ) (l : List Info) : Prop := ∀ r ∈ l, OfKind k r ∧ r.userId = userId

theorem seq_serialize (data : NetworkData) {k : InfoType} (h : Owned k data.userId (data.seq k)) :
    data.serialize.seq k = data.seq k := by
  have hone : ∀ r ∈ data.seq k,
      unpack k data.userId ((packed k).map fun c => ⟨c, r c⟩) = r := by
    intro r hr
    rw [unpack_values (h r hr).1, ownedBy_of_eq (h r hr).2]
  simp only [BinString.seq, NetworkData.unSerialize, NetworkData.serialize, List.map_map]
  exact (List.map_congr_left hone).trans (List.map_id _)

/-! ## The calls -/

/-- An entry with the list of one kind changed. -/
def repack (k : InfoType) (change : List Info → List Info) (bp : BinString) : BinString :=
  let source := NetworkData.unSerialize bp
  NetworkData.serialize { source with seq := update source.seq k (change (source.seq k)) }

/-- The changed sequence. -/
theorem seq_repack_self {k : InfoType} {change : List Info → List Info}
    (h : Owned k bp.userId (change (bp.seq k))) : (repack k change bp).seq k = change (bp.seq k) := by
  let source : NetworkData :=
    ⟨bp.userId, update (NetworkData.unSerialize bp).seq k (change (bp.seq k))⟩
  have hself : source.seq k = change (bp.seq k) := update_self _ _ _
  have howned : Owned k source.userId (source.seq k) := by
    rw [hself]
    exact h
  exact (seq_serialize source howned).trans hself

/-- The other sequences stay. -/
theorem seq_repack_of_ne {k k' : InfoType} (hk : k' ≠ k) (change : List Info → List Info)
    (h : Owned k' bp.userId (bp.seq k')) : (repack k change bp).seq k' = bp.seq k' := by
  let source : NetworkData :=
    ⟨bp.userId, update (NetworkData.unSerialize bp).seq k (change (bp.seq k))⟩
  have hother : source.seq k' = bp.seq k' := update_of_ne hk _ _
  have howned : Owned k' source.userId (source.seq k') := by
    rw [hother]
    exact h
  exact (seq_serialize source howned).trans hother

/-- The change that `addInfo` makes. -/
def addChange (rs : Info) (k : InfoType) (seq : List Info) : List Info :=
  if seq.any (fun r => addInfoField k r = rs.id) then seq else seq ++ [rs]

/-- The change that `setInfo` makes. -/
def setChange (typeId : ℤ) (fields : Fields) (k : InfoType) (seq : List Info) : List Info :=
  seq.map fun r => if setInfoField k r = typeId then setFields k r fields else r

theorem addInfo_eq_repack {k : InfoType} {rs : Info}
    (h : setProperties k Info.blank data = some rs) (bp : BinString) :
    addInfo data k bp = some (repack k (addChange rs k) bp) := by
  unfold addInfo
  rw [h]
  rfl

/-- `setInfo` changes one sequence. -/
theorem setInfo_eq_repack {k : InfoType} (h : fieldsOf k data = some fields) (typeId : ℤ)
    (bp : BinString) :
    setInfo typeId data k bp = some (repack k (setChange typeId fields k) bp) := by
  have hmap : ∀ seq : List Info,
      (seq.mapM fun r => if setInfoField k r = typeId then setProperties k r data else some r) =
        some (setChange typeId fields k seq) := by
    intro seq
    refine Eq.trans (congrArg (List.mapM · seq) (funext fun r => ?_)) List.mapM_pure
    rw [setProperties_eq, h]
    split <;> rfl
  unfold setInfo
  simp only [hmap, Option.bind_eq_bind, Option.bind_some]
  rfl

variable {S : Schema}

/-- Every entry holds its owner's rows. -/
def Consistent (st : State S) : Prop :=
  ∀ userId bp, st.cache userId = some bp →
    bp.userId = userId ∧ ∀ k, (bp.seq k).Perm ((st.db k).rowsOf userId)

/-- An operation of one user on one kind that leaves the other users' entries, the other kinds
and the records it does not select as they were. -/
structure Frame (st st' : State S) (userId : ℤ) (k : InfoType) (selects : Info → Bool) : Prop where
  others : ∀ v bp, st.cache v = some bp → ∃ bp', st'.cache v = some bp' ∧
    ∀ k', v ≠ userId ∨ k' ≠ k → bp'.seq k' = bp.seq k'
  kept : ∀ bp, st.cache userId = some bp → ∃ bp', st'.cache userId = some bp' ∧
    ((bp.seq k).filter fun r => ¬ selects r).Sublist (bp'.seq k)

theorem frame_self (st : State S) (userId : ℤ) (k : InfoType) (selects : Info → Bool) :
    Frame st st userId k selects where
  others _ bp hbp := ⟨bp, hbp, fun _ _ => rfl⟩
  kept bp hbp := ⟨bp, hbp, List.filter_sublist⟩

/-! ## The rows of a user -/

namespace Table

variable {k : InfoType}

theorem mem_rowsOf {t : Table S k} : r ∈ t.rowsOf userId ↔ r ∈ t.rows ∧ r.userId = userId := by
  simp [rowsOf, List.mem_filter]

theorem owned_rowsOf (t : Table S k) (userId : ℤ) : Owned k userId (t.rowsOf userId) := by
  intro r hr
  obtain ⟨hr, hu⟩ := mem_rowsOf.mp hr
  exact ⟨t.shape r hr, hu⟩

theorem ids_nodup (t : Table S k) : (t.rows.map Info.id).Nodup := by
  rw [List.Nodup, List.pairwise_map]
  exact t.keys.imp fun h he => h (.inl he)

theorem rowsOf_nodup (t : Table S k) (userId : ℤ) : (t.rowsOf userId).Nodup :=
  List.Nodup.filter _ (List.Nodup.of_map _ t.ids_nodup)

end Table

theorem Owned.of_perm {k : InfoType} {l l' : List Info} (h : l.Perm l') (hl' : Owned k userId l') :
    Owned k userId l := fun r hr => hl' r (h.mem_iff.mp hr)

theorem rowsOf_written_of_ne {st : State S} {k k' : InfoType} (t : Table S k) (h : k' ≠ k) (v : ℤ) :
    ((st.written t).db k').rowsOf v = (st.db k').rowsOf v :=
  congrArg (fun table : Table S k' => table.rowsOf v) (update_of_ne h t st.db)

theorem rowsOf_written_self {st : State S} {k : InfoType} (t : Table S k) (v : ℤ) :
    ((st.written t).db k).rowsOf v = t.rowsOf v :=
  congrArg (fun table : Table S k => table.rowsOf v) (update_self k t st.db)

/-! ## A statement and a call -/

theorem cache_onEntry_self {st : State S} {call : BinString → Option BinString}
    (h : call (st.getNetworkCacheData userId) = some bp) :
    (st.onEntry userId call).cache userId = some bp := by
  refine (update_self _ _ _).trans ?_
  rw [h, Option.getD_some]

theorem cache_onEntry_of_ne {v : ℤ} (h : v ≠ userId) (st : State S)
    (call : BinString → Option BinString) : (st.onEntry userId call).cache v = st.cache v :=
  update_of_ne h _ _

theorem getNetworkCacheData_of_some {st : State S} {k : InfoType} (t : Table S k)
    (h : st.cache userId = some bp) : (st.written t).getNetworkCacheData userId = bp := by
  simp [State.getNetworkCacheData, State.written, h]

theorem getNetworkCacheData_of_none {st : State S} {k : InfoType} (t : Table S k)
    (h : st.cache userId = none) :
    (st.written t).getNetworkCacheData userId = (st.written t).create userId := by
  unfold State.getNetworkCacheData
  rw [show (st.written t).cache userId = none from h, Option.getD_none]

/-- An entry that is loaded holds the rows. -/
theorem seq_create (st : State S) (userId : ℤ) (k : InfoType) :
    (st.create userId).seq k = (st.db k).rowsOf userId :=
  seq_serialize ⟨userId, fun k => (st.db k).rowsOf userId⟩ ((st.db k).owned_rowsOf userId)

section OnEntry

variable {st : State S} {k : InfoType} {userId : ℤ} {t : Table S k}
  {change : List Info → List Info} {selects : Info → Bool} {call : BinString → Option BinString}

/-- What the call finds: its user's entry, with the rows of the other kinds as they are and a
list of its own kind that the change brings in line with the table. -/
theorem found_entry (hst : Consistent st)
    (hcached : ∀ l : List Info, st.cache userId ≠ none → l.Perm ((st.db k).rowsOf userId) →
      (change l).Perm (t.rowsOf userId))
    (hloaded : st.cache userId = none → (change (t.rowsOf userId)).Perm (t.rowsOf userId))
    (hbp : (st.written t).getNetworkCacheData userId = bp) :
    bp.userId = userId ∧ (∀ k', k' ≠ k → (bp.seq k').Perm ((st.db k').rowsOf userId)) ∧
      (change (bp.seq k)).Perm (t.rowsOf userId) := by
  cases hc : st.cache userId with
  | some bp₀ =>
      have hbp₀ : bp = bp₀ := hbp.symm.trans (getNetworkCacheData_of_some t hc)
      subst hbp₀
      obtain ⟨hu, hperm⟩ := hst userId bp hc
      refine ⟨hu, fun k' _ => hperm k', hcached _ ?_ (hperm k)⟩
      rw [hc]
      exact Option.some_ne_none _
  | none =>
      have hcreate : bp = (st.written t).create userId :=
        hbp.symm.trans (getNetworkCacheData_of_none t hc)
      subst hcreate
      refine ⟨rfl, fun k' hk' => ?_, ?_⟩
      · rw [seq_create, rowsOf_written_of_ne t hk']
      · rw [seq_create, rowsOf_written_self]
        exact hloaded hc

/-- A statement on the rows of `userId` and a call that makes the same change to the list of the
entry leave every entry in line with the tables. -/
theorem onEntry_follows (hst : Consistent st) (hcall : ∀ bp, call bp = some (repack k change bp))
    (hother : ∀ v, v ≠ userId → st.cache v ≠ none → (t.rowsOf v).Perm ((st.db k).rowsOf v))
    (hcached : ∀ l : List Info, st.cache userId ≠ none → l.Perm ((st.db k).rowsOf userId) →
      (change l).Perm (t.rowsOf userId))
    (hloaded : st.cache userId = none → (change (t.rowsOf userId)).Perm (t.rowsOf userId)) :
    Consistent ((st.written t).onEntry userId call) := by
  obtain ⟨hu, hkinds, hself⟩ := found_entry hst hcached hloaded rfl
  intro v bp hbp
  by_cases hv : v = userId
  · subst hv
    rw [cache_onEntry_self (hcall _)] at hbp
    cases hbp
    refine ⟨hu, fun k' => ?_⟩
    by_cases hk : k' = k
    · subst hk
      have howned := (t.owned_rowsOf v).of_perm hself
      rw [seq_repack_self (by rw [hu]; exact howned)]
      exact hself.trans (.of_eq (rowsOf_written_self t v).symm)
    · have howned := ((st.db k').owned_rowsOf v).of_perm (hkinds k' hk)
      rw [seq_repack_of_ne hk _ (by rw [hu]; exact howned)]
      exact (hkinds k' hk).trans (.of_eq (rowsOf_written_of_ne t hk v).symm)
  · rw [cache_onEntry_of_ne hv] at hbp
    obtain ⟨hbu, hperm⟩ := hst v bp hbp
    refine ⟨hbu, fun k' => ?_⟩
    by_cases hk : k' = k
    · subst hk
      have hsome : st.cache v ≠ none := fun hn => by cases hbp.symm.trans hn
      exact (hperm k').trans ((hother v hv hsome).symm.trans (.of_eq (rowsOf_written_self t v).symm))
    · exact (hperm k').trans (.of_eq (rowsOf_written_of_ne t hk v).symm)

/-- A call on a cached user follows the rows. -/
theorem onEntry_frame (hst : Consistent st) (hcall : ∀ bp, call bp = some (repack k change bp))
    (hcached : ∀ l : List Info, st.cache userId ≠ none → l.Perm ((st.db k).rowsOf userId) →
      (change l).Perm (t.rowsOf userId))
    (hkept : ∀ l : List Info, l.Perm ((st.db k).rowsOf userId) →
      (l.filter fun r => ¬ selects r).Sublist (change l)) :
    Frame st ((st.written t).onEntry userId call) userId k selects := by
  have hentry : ∀ bp, st.cache userId = some bp →
      ((st.written t).onEntry userId call).cache userId = some (repack k change bp) := by
    intro bp hbp
    rw [cache_onEntry_self (hcall _), getNetworkCacheData_of_some t hbp]
  constructor
  · intro v bp hbp
    by_cases hv : v = userId
    · subst hv
      obtain ⟨hu, hperm⟩ := hst v bp hbp
      refine ⟨_, hentry bp hbp, fun k' hk' => ?_⟩
      have hk : k' ≠ k := hk'.resolve_left fun h => h rfl
      have howned := ((st.db k').owned_rowsOf v).of_perm (hperm k')
      exact seq_repack_of_ne hk _ (by rw [hu]; exact howned)
    · exact ⟨bp, (cache_onEntry_of_ne hv _ _).trans hbp, fun _ _ => rfl⟩
  · intro bp hbp
    obtain ⟨hu, hperm⟩ := hst userId bp hbp
    have hsome : st.cache userId ≠ none := fun hn => by cases hbp.symm.trans hn
    have howned := (t.owned_rowsOf userId).of_perm (hcached _ hsome (hperm k))
    refine ⟨_, hentry bp hbp, ?_⟩
    rw [seq_repack_self (by rw [hu]; exact howned)]
    exact hkept _ (hperm k)

end OnEntry

end Oce.UserNetwork
