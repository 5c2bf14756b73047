import Mathlib.Data.List.Basic
import Mathlib.Data.List.Nodup
import Mathlib.Data.List.Perm.Subperm
import Mathlib.Order.Lattice

/-!
# Lists in descending key order

A list of records in strictly descending order of a key, as an array that is searched
from its front. `place` is the insertion scan: it stops before the first smaller key, and
at a record with the same key it either replaces that record or refuses the new one.
`removeKey` is the removal by lower bound.

`lookup` is the view of such a list as a finite map from keys to records. A list is
determined by its lookups (`ext_lookup`), so everything about the two operations is said
by what they do to a lookup and to the length.
-/

set_option autoImplicit false

namespace Oce.Base

variable {α κ : Type*} [LinearOrder κ] {key : α → κ}

/-- The keys come in strictly descending order. -/
def Descending (key : α → κ) (l : List α) : Prop := l.Pairwise fun a b => key b < key a

instance (key : α → κ) (l : List α) : Decidable (Descending key l) :=
  inferInstanceAs (Decidable (l.Pairwise fun a b => key b < key a))

/-- What an insertion did. -/
inductive Placed where
  | inserted
  | replaced
  | refused
  deriving DecidableEq, Repr

/-- The insertion of `x`, and the list after it. -/
def place (key : α → κ) (x : α) (overwrite : Bool) : List α → Placed × List α
  | [] => (.inserted, [x])
  | a :: l =>
    if key a < key x then (.inserted, x :: a :: l)
    else if key a = key x then
      if overwrite then (.replaced, x :: l) else (.refused, a :: l)
    else ((place key x overwrite l).1, a :: (place key x overwrite l).2)

/-- The removal of the record with key `k`: whether there was one, and the list after it. -/
def removeKey (key : α → κ) (k : κ) : List α → Bool × List α
  | [] => (false, [])
  | a :: l =>
    if k < key a then ((removeKey key k l).1, a :: (removeKey key k l).2)
    else if key a = k then (true, l)
    else (false, a :: l)

/-- The record with key `k`. -/
def lookup (key : α → κ) (k : κ) : List α → Option α
  | [] => none
  | a :: l => if key a = k then some a else lookup key k l

@[simp] theorem lookup_nil (k : κ) : lookup key k ([] : List α) = none := rfl

theorem lookup_cons (k : κ) (a : α) (l : List α) :
    lookup key k (a :: l) = if key a = k then some a else lookup key k l := rfl

theorem mem_of_lookup {k : κ} {a : α} {l : List α} (h : lookup key k l = some a) :
    a ∈ l ∧ key a = k := by
  induction l with
  | nil => cases h
  | cons b l ih =>
      rw [lookup_cons] at h
      split at h
      · cases h
        exact ⟨List.mem_cons_self, by assumption⟩
      · exact ⟨List.mem_cons_of_mem _ (ih h).1, (ih h).2⟩

theorem lookup_eq_none_iff {k : κ} {l : List α} :
    lookup key k l = none ↔ ∀ a ∈ l, key a ≠ k := by
  induction l with
  | nil => simp
  | cons b l ih =>
      rw [lookup_cons]
      by_cases hb : key b = k
      · simp [hb]
      · simp [hb, ih]

/-- In a descending list a record is found under its own key. -/
theorem lookup_of_mem {l : List α} (hl : Descending key l) {a : α} (ha : a ∈ l) :
    lookup key (key a) l = some a := by
  induction l with
  | nil => cases ha
  | cons b l ih =>
      obtain ⟨hb, hl'⟩ := List.pairwise_cons.mp hl
      rw [lookup_cons]
      rcases List.mem_cons.mp ha with rfl | ha
      · simp
      · have hlt := hb a ha
        rw [if_neg hlt.ne', ih hl' ha]

theorem lookup_eq_some_iff {l : List α} (hl : Descending key l) {k : κ} {a : α} :
    lookup key k l = some a ↔ a ∈ l ∧ key a = k := by
  constructor
  · exact mem_of_lookup
  · rintro ⟨ha, rfl⟩
    exact lookup_of_mem hl ha

/-- Keys above all keys of a list are not found in it. -/
theorem lookup_of_lt {l : List α} {k : κ} (h : ∀ a ∈ l, key a < k) : lookup key k l = none :=
  lookup_eq_none_iff.mpr fun a ha => (h a ha).ne

/-- **A descending list is determined by its records.** -/
theorem ext_mem {l l' : List α} (hl : Descending key l) (hl' : Descending key l')
    (h : ∀ a, a ∈ l ↔ a ∈ l') : l = l' := by
  have hperm : l.Perm l' := (List.perm_ext_iff_of_nodup
    (hl.imp fun hab => fun he => absurd (he ▸ hab) (lt_irrefl _))
    (hl'.imp fun hab => fun he => absurd (he ▸ hab) (lt_irrefl _))).mpr h
  exact hperm.eq_of_pairwise (fun a b _ _ hab hba => absurd (hab.trans hba) (lt_irrefl _)) hl hl'

/-- **A descending list is determined by its lookups.** -/
theorem ext_lookup {l l' : List α} (hl : Descending key l) (hl' : Descending key l')
    (h : ∀ k, lookup key k l = lookup key k l') : l = l' := by
  refine ext_mem hl hl' fun a => ?_
  have h1 := lookup_eq_some_iff hl (k := key a) (a := a)
  have h2 := lookup_eq_some_iff hl' (k := key a) (a := a)
  rw [h] at h1
  simpa using h1.symm.trans h2

/-! ## Insertion -/

theorem mem_of_mem_place {x b : α} {ow : Bool} {l : List α} (h : b ∈ (place key x ow l).2) :
    b = x ∨ b ∈ l := by
  induction l with
  | nil => simpa [place] using h
  | cons a l ih =>
      unfold place at h
      split at h
      · simpa using h
      · split at h
        · split at h
          · rcases List.mem_cons.mp h with h | h
            · exact Or.inl h
            · exact Or.inr (List.mem_cons_of_mem _ h)
          · exact Or.inr h
        · rcases List.mem_cons.mp h with rfl | h
          · exact Or.inr List.mem_cons_self
          · exact (ih h).imp_right (List.mem_cons_of_mem _)

theorem descending_place (x : α) (ow : Bool) {l : List α} (hl : Descending key l) :
    Descending key (place key x ow l).2 := by
  induction l with
  | nil => exact List.pairwise_singleton _ _
  | cons a l ih =>
      obtain ⟨ha, hl'⟩ := List.pairwise_cons.mp hl
      by_cases h1 : key a < key x
      · rw [place, if_pos h1]
        refine List.pairwise_cons.mpr ⟨fun b hb => ?_, hl⟩
        rcases List.mem_cons.mp hb with rfl | hb
        · exact h1
        · exact (ha b hb).trans h1
      by_cases h2 : key a = key x
      · rw [place, if_neg h1, if_pos h2]
        cases ow with
        | false => exact hl
        | true => exact List.pairwise_cons.mpr ⟨fun b hb => h2 ▸ ha b hb, hl'⟩
      · rw [place, if_neg h1, if_neg h2]
        refine List.pairwise_cons.mpr ⟨fun b hb => ?_, ih hl'⟩
        rcases mem_of_mem_place hb with rfl | hb
        · exact lt_of_le_of_ne (not_lt.mp h1) (Ne.symm h2)
        · exact ha b hb

/-- What an insertion does to a lookup: the new record is found unless it was refused. -/
theorem lookup_place (x : α) (ow : Bool) (k : κ) {l : List α} (hl : Descending key l) :
    lookup key k (place key x ow l).2 =
      if (place key x ow l).1 ≠ .refused ∧ key x = k then some x else lookup key k l := by
  induction l with
  | nil => simp [place, lookup]
  | cons a l ih =>
      obtain ⟨ha, hl'⟩ := List.pairwise_cons.mp hl
      by_cases h1 : key a < key x
      · simp [place, h1, lookup_cons]
      by_cases h2 : key a = key x
      · cases ow with
        | false => simp [place, h2]
        | true =>
            by_cases hk : key x = k
            · simp [place, h2, hk, lookup_cons]
            · simp [place, h2, hk, lookup_cons]
      · simp only [place, h1, h2, if_false, lookup_cons, ih hl']
        by_cases hk : key x = k
        · subst hk
          simp [h2]
        · simp [hk]

/-- An insertion inserts exactly when the key is new. -/
theorem place_inserted_iff (x : α) (ow : Bool) {l : List α} (hl : Descending key l) :
    (place key x ow l).1 = .inserted ↔ lookup key (key x) l = none := by
  induction l with
  | nil => simp [place]
  | cons a l ih =>
      obtain ⟨ha, hl'⟩ := List.pairwise_cons.mp hl
      by_cases h1 : key a < key x
      · have hnone : lookup key (key x) (a :: l) = none := by
          refine lookup_of_lt fun b hb => ?_
          rcases List.mem_cons.mp hb with rfl | hb
          · exact h1
          · exact (ha b hb).trans h1
        simp [place, h1, hnone]
      by_cases h2 : key a = key x
      · cases ow <;> simp [place, h2, lookup_cons]
      · simp [place, h1, h2, lookup_cons, ih hl']

/-- An insertion is refused exactly when the key is there and it does not overwrite. -/
theorem place_refused_iff (x : α) (ow : Bool) {l : List α} (hl : Descending key l) :
    (place key x ow l).1 = .refused ↔ ow = false ∧ lookup key (key x) l ≠ none := by
  rw [Ne, ← place_inserted_iff x ow hl]
  induction l with
  | nil => simp [place]
  | cons a l ih =>
      by_cases h1 : key a < key x
      · simp [place, h1]
      by_cases h2 : key a = key x
      · cases ow <;> simp [place, h2]
      · simpa [place, h1, h2] using ih (List.pairwise_cons.mp hl).2

/-- A refused insertion changes nothing. -/
theorem place_of_refused {x : α} {ow : Bool} {l : List α} (h : (place key x ow l).1 = .refused) :
    (place key x ow l).2 = l := by
  induction l with
  | nil => cases h
  | cons a l ih =>
      by_cases h1 : key a < key x
      · simp [place, h1] at h
      by_cases h2 : key a = key x
      · cases ow with
        | false => simp [place, h2]
        | true => simp [place, h2] at h
      · simp only [place, h1, h2, if_false] at h ⊢
        rw [ih h]

theorem length_place (x : α) (ow : Bool) (l : List α) :
    (place key x ow l).2.length =
      if (place key x ow l).1 = .inserted then l.length + 1 else l.length := by
  induction l with
  | nil => rfl
  | cons a l ih =>
      by_cases h1 : key a < key x
      · simp [place, h1]
      by_cases h2 : key a = key x
      · cases ow <;> simp [place, h2]
      · simp only [place, h1, h2, if_false, List.length_cons, ih]
        split <;> rfl

/-! ## Removal -/

theorem removeKey_sublist (k : κ) (l : List α) : List.Sublist (removeKey key k l).2 l := by
  induction l with
  | nil => exact List.Sublist.refl _
  | cons a l ih =>
      unfold removeKey
      split
      · exact ih.cons_cons a
      · split
        · exact List.sublist_cons_self a l
        · exact List.Sublist.refl _

theorem descending_removeKey (k : κ) {l : List α} (hl : Descending key l) :
    Descending key (removeKey key k l).2 :=
  List.Pairwise.sublist (removeKey_sublist k l) hl

theorem length_removeKey_le (k : κ) (l : List α) : (removeKey key k l).2.length ≤ l.length :=
  (removeKey_sublist k l).length_le

/-- A removed key is gone, the others stay. -/
theorem lookup_removeKey (k j : κ) {l : List α} (hl : Descending key l) :
    lookup key j (removeKey key k l).2 = if j = k then none else lookup key j l := by
  induction l with
  | nil => simp [removeKey]
  | cons a l ih =>
      obtain ⟨ha, hl'⟩ := List.pairwise_cons.mp hl
      by_cases h1 : k < key a
      · simp only [removeKey, h1, if_true, lookup_cons, ih hl']
        by_cases hj : j = k
        · subst hj
          simp [h1.ne']
        · simp [hj]
      by_cases h2 : key a = k
      · rw [removeKey, if_neg h1, if_pos h2, lookup_cons]
        by_cases hj : j = k
        · subst hj
          rw [if_pos rfl]
          exact lookup_of_lt fun b hb => h2 ▸ ha b hb
        · rw [if_neg hj, if_neg (h2 ▸ Ne.symm hj)]
      · have hlt : key a < k := lt_of_le_of_ne (not_lt.mp h1) h2
        simp only [removeKey, h1, h2, if_false]
        by_cases hj : j = k
        · subst hj
          rw [if_pos rfl]
          refine lookup_of_lt fun b hb => ?_
          rcases List.mem_cons.mp hb with rfl | hb
          · exact hlt
          · exact (ha b hb).trans hlt
        · rw [if_neg hj]

/-- A removal finds its record exactly when there is one. -/
theorem removeKey_fst (k : κ) {l : List α} (hl : Descending key l) :
    (removeKey key k l).1 = (lookup key k l).isSome := by
  induction l with
  | nil => rfl
  | cons a l ih =>
      obtain ⟨ha, hl'⟩ := List.pairwise_cons.mp hl
      by_cases h1 : k < key a
      · simp [removeKey, h1, lookup_cons, h1.ne', ih hl']
      by_cases h2 : key a = k
      · simp [removeKey, h2, lookup_cons]
      · have hlt : key a < k := lt_of_le_of_ne (not_lt.mp h1) h2
        have hnone : lookup key k l = none := lookup_of_lt fun b hb => (ha b hb).trans hlt
        simp [removeKey, h1, h2, lookup_cons, hnone]

/-- A removal that finds no record changes nothing. -/
theorem removeKey_of_not {k : κ} {l : List α} (h : (removeKey key k l).1 = false) :
    (removeKey key k l).2 = l := by
  induction l with
  | nil => rfl
  | cons a l ih =>
      by_cases h1 : k < key a
      · simp only [removeKey, h1, if_true] at h ⊢
        rw [ih h]
      by_cases h2 : key a = k
      · simp [removeKey, h2] at h
      · simp [removeKey, h1, h2]

/-! ## Counting -/

/-- A descending list has no more records than there are keys it may use. -/
theorem Descending.length_le {l : List α} (hl : Descending key l) {keys : List κ}
    (h : ∀ a ∈ l, key a ∈ keys) : l.length ≤ keys.length := by
  have hnodup : (l.map key).Nodup :=
    List.pairwise_map.mpr (hl.imp fun hab => hab.ne')
  have hsub : (l.map key) ⊆ keys := by
    intro k hk
    obtain ⟨a, ha, rfl⟩ := List.mem_map.mp hk
    exact h a ha
  simpa using (hnodup.subperm hsub).length_le

/-- It has fewer if it does not use one of them. -/
theorem Descending.length_lt {l : List α} (hl : Descending key l) {keys : List κ}
    (h : ∀ a ∈ l, key a ∈ keys) {k : κ} (hk : k ∈ keys) (hnone : lookup key k l = none) :
    l.length < keys.length := by
  have hne := lookup_eq_none_iff.mp hnone
  have hle : l.length ≤ (keys.filter (· ≠ k)).length :=
    hl.length_le fun a ha => List.mem_filter.mpr ⟨h a ha, by simpa using hne a ha⟩
  have hlt : (keys.filter (· ≠ k)).length < keys.length :=
    List.length_filter_lt_length_iff_exists.mpr ⟨k, hk, by simp⟩
  omega

end Oce.Base
