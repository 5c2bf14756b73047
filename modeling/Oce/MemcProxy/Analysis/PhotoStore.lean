import Mathlib.Data.List.Induction
import Oce.MemcProxy.Model.PhotoCache

/-!
# What memcached has of the photos

A set is for a target, a photo or a user, and goes under the target's key. Memcached has the last set
under each key, and what a get should find is the last set for each target; the two are the same as
far as no two targets share a key. What a get finds it puts where the entry says.
-/

set_option autoImplicit false

namespace Oce.MemcProxy.PhotoCache

open Oce.Base

/-! ## Targets -/

inductive Target where
  | content (id : Int64)
  | rankInfo (id : Int64)
  | seq (uid : Int32)
  deriving DecidableEq

namespace Target

def key : Target → List Byte
  | content id => getPhotoContentKey id
  | rankInfo id => getPhotoRankInfoKey id
  | seq uid => getPhotoSeqKey uid

/-- The byte of the key in which the kinds differ. -/
def kind : Target → Byte
  | content _ => 67
  | rankInfo _ => 82
  | seq _ => 83

theorem printKey_kind (name : List Byte) (id : ℤ) (h : 6 < name.length) :
    (printKey name id)[6]? = name[6]? := by
  unfold printKey
  rw [List.getElem?_take_of_lt (by decide), List.getElem?_append_left h]

theorem key_kind (t : Target) : t.key[6]? = some t.kind := by
  cases t with
  | content id => exact printKey_kind (ascii "PHOTO_CONTENT#") _ (by decide)
  | rankInfo id => exact printKey_kind (ascii "PHOTO_RANK#") _ (by decide)
  | seq uid => exact printKey_kind (ascii "PHOTO_SEQ#") _ (by decide)

theorem kind_eq {t t' : Target} (h : t.key = t'.key) : t.kind = t'.kind := by
  have hkind := t.key_kind
  rw [h, t'.key_kind] at hkind
  exact (Option.some.inj hkind).symm

theorem content_of_key {t : Target} {id : Int64} (h : t.key = getPhotoContentKey id) :
    ∃ j, t = content j := by
  have hkind : t.kind = (content id).kind := kind_eq h
  cases t with
  | content j => exact ⟨j, rfl⟩
  | rankInfo j => exact absurd hkind (show (82 : Byte) ≠ 67 by decide)
  | seq j => exact absurd hkind (show (83 : Byte) ≠ 67 by decide)

theorem rankInfo_of_key {t : Target} {id : Int64} (h : t.key = getPhotoRankInfoKey id) :
    ∃ j, t = rankInfo j := by
  have hkind : t.kind = (rankInfo id).kind := kind_eq h
  cases t with
  | content j => exact absurd hkind (show (67 : Byte) ≠ 82 by decide)
  | rankInfo j => exact ⟨j, rfl⟩
  | seq j => exact absurd hkind (show (83 : Byte) ≠ 82 by decide)

/-- The key of a user is short enough to be whole. -/
theorem seq_of_key {t : Target} {uid : Int32} (h : t.key = getPhotoSeqKey uid) : t = seq uid := by
  have hwhole : ∀ i : Int32, getPhotoSeqKey i = ascii "PHOTO_SEQ#" ++ intDigits i.toInt := by
    intro i
    have hlt := i.toInt_lt
    have hge := i.le_toInt
    have hdigits : (intDigits i.toInt).length ≤ 10 + 1 := length_intDigits_le (by decide) (by omega)
    apply List.take_of_length_le
    rw [List.length_append]
    exact Nat.le_trans (Nat.add_le_add_left hdigits _) (by decide)
  have hkind : t.kind = (seq uid).kind := kind_eq h
  cases t with
  | content j => exact absurd hkind (show (67 : Byte) ≠ 83 by decide)
  | rankInfo j => exact absurd hkind (show (82 : Byte) ≠ 83 by decide)
  | seq j =>
      have heq : getPhotoSeqKey j = getPhotoSeqKey uid := h
      rw [hwhole, hwhole] at heq
      rw [Int32.toInt_inj.mp (intDigits_injective (List.append_cancel_left heq))]

end Target

/-- The five bytes that the parser of a key leaves out end within its name. -/
theorem idOfKey_printKey {name rest : List Byte} {b : Byte} (hname : name.drop 5 = b :: rest)
    (hb : isDigit b = false) (hsign : b ≠ 43 ∧ b ≠ 45) (id : ℤ) :
    idOfKey name (printKey name id) = -1 := by
  have hlen : 5 ≤ name.length := by
    have hl := congrArg List.length hname
    rw [List.length_drop, List.length_cons] at hl
    omega
  have htext : (printKey name id).drop 5 = b :: (rest ++ intDigits id).take 25 := by
    unfold printKey
    rw [List.drop_take, List.drop_append_of_le_length hlen, hname]
    rfl
  have hread : readInt (b :: (rest ++ intDigits id).take 25) = none := by
    unfold readInt
    split
    · rename_i heq
      exact absurd (List.cons.inj heq).1 hsign.1
    · rename_i heq
      exact absurd (List.cons.inj heq).1 hsign.2
    · rw [List.all_cons, hb, Bool.false_and]
      exact if_neg fun h => nomatch h.2
  unfold idOfKey lexicalCastLong
  rw [htext, hread]
  split
  · rfl
  · rfl

theorem getPhotoId4Content_key (id : Int64) : getPhotoId4Content (getPhotoContentKey id) = -1 :=
  @idOfKey_printKey (ascii "PHOTO_CONTENT#") (ascii "CONTENT#") 95 rfl (by decide) (by decide) id.toInt

theorem getPhotoId4RankInfo_key (id : Int64) : getPhotoId4RankInfo (getPhotoRankInfoKey id) = -1 :=
  @idOfKey_printKey (ascii "PHOTO_RANK#") (ascii "RANK#") 95 rfl (by decide) (by decide) id.toInt

/-! ## The last set -/

namespace Op

def target : Op → Target
  | setPhotoContent content => .content content.photoid
  | setEmptyPhotoContent id => .content id
  | setPhotoRankInfo rankInfo => .rankInfo rankInfo.photoid
  | setEmptyPhotoRankInfo id => .rankInfo id
  | setPhotoSeq uid _ => .seq uid
  | setEmptyPhotoSeq uid => .seq uid

/-- What it puts into memcached. -/
def value (l : Libraries) : Op → Bool × List Byte
  | setPhotoContent content => serializePhotoContent l content
  | setEmptyPhotoContent _ => (false, kEmptyPhotoContent)
  | setPhotoRankInfo rankInfo => serializePhotoRankInfo l rankInfo
  | setEmptyPhotoRankInfo _ => (false, kEmptyPhotoRankInfo)
  | setPhotoSeq _ photoSeq => serializePhotoSeq l photoSeq
  | setEmptyPhotoSeq _ => (false, kEmptyPhotoSeq)

def entry (l : Libraries) (o : Op) : Entry := entryOf (o.value l)

end Op

/-- The last set under a key. -/
def lastUnder (history : List Op) (key : List Byte) : Option Op :=
  history.reverse.find? fun o => o.target.key = key

/-- The last set for a target. -/
def lastOf (history : List Op) (target : Target) : Option Op :=
  history.reverse.find? fun o => o.target = target

/-- No two targets of a history have the same key. -/
def DistinctKeys (history : List Op) : Prop :=
  ∀ o ∈ history, ∀ o' ∈ history, o.target.key = o'.target.key → o.target = o'.target

section Last

variable {history : List Op} {o : Op} {t : Target}

theorem step_eq (l : Libraries) (store : Store) (o : Op) :
    step l store o = Function.update store o.target.key (some (o.entry l)) := by
  cases o <;> rfl

/-- **Memcached has the last set under each key.** -/
theorem stored_eq (l : Libraries) (history : List Op) (key : List Byte) :
    stored l history key = (lastUnder history key).map (Op.entry l) := by
  unfold stored lastUnder
  induction history using List.reverseRecOn with
  | nil => rfl
  | append_singleton history o ih =>
      rw [runOps_append, runOps_cons, runOps_nil, step_eq, List.reverse_concat, List.find?_cons]
      by_cases hkey : o.target.key = key
      · rw [hkey, Function.update_self, decide_eq_true rfl]
        rfl
      · rw [Function.update_of_ne (Ne.symm hkey), ih, decide_eq_false hkey]

theorem lastUnder_mem {key : List Byte} (h : lastUnder history key = some o) :
    o ∈ history ∧ o.target.key = key := by
  have hkey := List.find?_some h
  exact ⟨List.mem_reverse.mp (List.mem_of_find?_eq_some h), of_decide_eq_true hkey⟩

theorem lastOf_mem (h : lastOf history t = some o) : o ∈ history ∧ o.target = t := by
  have ht := List.find?_some h
  exact ⟨List.mem_reverse.mp (List.mem_of_find?_eq_some h), of_decide_eq_true ht⟩

theorem exists_lastUnder (h : o ∈ history) : ∃ o', lastUnder history o.target.key = some o' := by
  apply Option.isSome_iff_exists.mp
  exact List.find?_isSome.mpr ⟨o, List.mem_reverse.mpr h, decide_eq_true rfl⟩

theorem exists_lastOf (h : o ∈ history) : ∃ o', lastOf history o.target = some o' := by
  apply Option.isSome_iff_exists.mp
  exact List.find?_isSome.mpr ⟨o, List.mem_reverse.mpr h, decide_eq_true rfl⟩

/-- The last under its key is the last for its target. -/
theorem lastOf_of_lastUnder (h : lastUnder history o.target.key = some o) :
    lastOf history o.target = some o := by
  obtain ⟨-, before, after, hsplit, hbefore⟩ := List.find?_eq_some_iff_append.mp h
  refine List.find?_eq_some_iff_append.mpr ⟨decide_eq_true rfl, before, after, hsplit, fun o' ho' => ?_⟩
  have hne := hbefore o' ho'
  rw [Bool.not_eq_true', decide_eq_false_iff_not] at hne ⊢
  exact fun heq => hne (congrArg Target.key heq)

theorem DistinctKeys.lastUnder (hkeys : DistinctKeys history) (h : lastOf history t = some o) :
    lastUnder history t.key = some o := by
  obtain ⟨hmem, ht⟩ := lastOf_mem h
  obtain ⟨o', ho'⟩ := exists_lastUnder hmem
  obtain ⟨hmem', hkey⟩ := lastUnder_mem ho'
  have htarget := hkeys o' hmem' o hmem hkey
  have hlast := lastOf_of_lastUnder (hkey ▸ ho')
  rw [htarget, ht, h] at hlast
  rw [← ht, ho', Option.some.inj hlast]

end Last

/-! ## The dictionary -/

section Dict

variable {α : Type}

/-- The first entry for an id stays. -/
theorem foldl_insert (ps : List (Int64 × α)) (dict : Int64 → Option α) (id : Int64) :
    ps.foldl insert dict id = (dict id).or ((ps.find? fun p => p.1 = id).map Prod.snd) := by
  induction ps generalizing dict with
  | nil => simp
  | cons p ps ih =>
      rw [List.foldl_cons, ih, List.find?_cons]
      unfold insert
      by_cases hp : p.1 = id
      · subst hp
        rw [decide_eq_true rfl]
        cases hd : dict p.1 with
        | none => simp
        | some v => simp [hd]
      · rw [decide_eq_false hp]
        split
        · rfl
        · rw [Function.update_of_ne (Ne.symm hp)]

theorem mem_get {store : Store} {keys : List (List Byte)} {p : List Byte × Entry} :
    p ∈ store.get keys ↔ p.1 ∈ keys ∧ store p.1 = some p.2 := by
  unfold Store.get
  rw [List.mem_filterMap]
  constructor
  · rintro ⟨key, hkey, hp⟩
    obtain ⟨entry, hentry, rfl⟩ := Option.map_eq_some_iff.mp hp
    exact ⟨List.mem_dedup.mp ((List.mem_insertionSort _).mp hkey), hentry⟩
  · rintro ⟨hkey, hentry⟩
    refine ⟨p.1, (List.mem_insertionSort _).mpr (List.mem_dedup.mpr hkey), ?_⟩
    rw [hentry]
    rfl

variable {store : Store} {keyOf : Int64 → List Byte} {read : List Byte × Entry → Int64 × α}
  {ids : List Int64}

/-- **A get.** What the dictionary has for an id comes from an entry, and every entry is under the id
that it is read with. -/
theorem getDict_eq (hids : ids ≠ []) : ∃ dict, getDict store keyOf read ids = some dict ∧
    (∀ id v, dict id = some v → ∃ i ∈ ids, ∃ entry, store (keyOf i) = some entry ∧
      read (keyOf i, entry) = (id, v)) ∧
    ∀ i ∈ ids, ∀ entry, store (keyOf i) = some entry → (dict (read (keyOf i, entry)).1).isSome = true := by
  set ps := (store.get (ids.map keyOf)).map read with hps
  have hdict : ∀ id, ps.foldl insert (fun _ => none) id = (ps.find? fun p => p.1 = id).map Prod.snd :=
    fun id => (foldl_insert ps _ id).trans Option.none_or
  refine ⟨_, if_neg hids, fun id v hv => ?_, fun i hi entry hentry => ?_⟩
  · rw [hdict] at hv
    obtain ⟨p, hp, rfl⟩ := Option.map_eq_some_iff.mp hv
    have hid := List.find?_some hp
    obtain ⟨q, hq, rfl⟩ := List.mem_map.mp (List.mem_of_find?_eq_some hp)
    obtain ⟨hkey, hentry⟩ := mem_get.mp hq
    obtain ⟨i, hi, hkey⟩ := List.mem_map.mp hkey
    refine ⟨i, hi, q.2, by rw [hkey]; exact hentry, ?_⟩
    rw [hkey]
    exact Prod.ext (of_decide_eq_true hid) rfl
  · rw [hdict, Option.isSome_map]
    refine List.find?_isSome.mpr ⟨read (keyOf i, entry), ?_, decide_eq_true rfl⟩
    exact List.mem_map_of_mem (mem_get.mpr ⟨List.mem_map_of_mem hi, hentry⟩)

end Dict

end Oce.MemcProxy.PhotoCache
