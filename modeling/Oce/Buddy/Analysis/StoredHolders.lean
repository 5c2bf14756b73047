import Oce.Buddy.Model.EntryList

/-!
# What the key-value store gives back

Digits hold none of the three separators, so every cut finds the pieces that were put together, as
long as none of them is empty: the entries of a holder without entries are an empty piece, which no
cut gives back. A number comes back if `strtol` gets that far.
-/

set_option autoImplicit false


namespace Oce.Buddy.TokyoTyrantRelationTranslate

open Oce.Base

variable {longMax n : ℕ} {v : BitVec 32} {sep : Byte} {s t : List Byte} {e : Entry}

/-! ## Cutting -/

theorem not_mem_natDigits (h : isDigit sep = false) (n : ℕ) : sep ∉ natDigits n := by
  intro hmem
  rw [isDigit_of_mem_natDigits hmem] at h
  cases h

/-- Pieces with the separator in front of each. -/
theorem split_flatMap (ts : List (List Byte)) (h : ∀ t ∈ ts, sep ∉ t ∧ t ≠ []) :
    split (ts.flatMap fun t => sep :: t) sep = ts := by
  have hsplit := splitOn_join sep (t := []) List.not_mem_nil fun t ht => (h t ht).1
  rw [List.nil_append] at hsplit
  unfold split
  rw [hsplit, List.filter_cons_of_neg (by simp), List.filter_eq_self]
  intro t ht
  simpa using (h t ht).2

/-- Two pieces with the separator between them. -/
theorem split_pair (hs : sep ∉ s) (ht : sep ∉ t) (hne : s ≠ []) :
    split (s ++ sep :: t) sep = if t = [] then [s] else [s, t] := by
  have hone : ∀ u ∈ [t], sep ∉ u := fun u hu => List.mem_singleton.mp hu ▸ ht
  have hsplit := splitOn_join sep hs hone
  rw [List.flatMap_singleton] at hsplit
  unfold split
  rw [hsplit, List.filter_cons_of_pos (by simpa using hne)]
  by_cases hnil : t = []
  · rw [if_pos hnil, List.filter_cons_of_neg (by simp [hnil]), List.filter_nil]
  · rw [if_neg hnil, List.filter_cons_of_pos (by simpa using hnil), List.filter_nil]

/-! ## Numbers -/

/-- What a number is read back as. -/
def stored (longMax : ℕ) (v : BitVec 32) : BitVec 32 := BitVec.ofNat 32 (min v.toNat longMax)

theorem atoi_natDigits (longMax : ℕ) (v : BitVec 32) :
    atoi longMax (natDigits v.toNat) = stored longMax v := by
  unfold atoi stored
  rw [strtol_natDigits]
  exact BitVec.ofInt_natCast 32 _

theorem stored_eq_iff : stored longMax v = v ↔ v.toNat ≤ longMax := by
  have hv := v.isLt
  unfold stored
  rw [← BitVec.toNat_inj, BitVec.toNat_ofNat, Nat.mod_eq_of_lt (by omega)]
  omega

/-! ## Entries and holders -/

theorem entryText_ne_nil (e : Entry) : entryText e ≠ [] := by
  unfold entryText
  simp

theorem not_mem_entryText (h : isDigit sep = false) (hslash : sep ≠ 47) (e : Entry) :
    sep ∉ entryText e := by
  unfold entryText
  rw [List.mem_append, List.mem_cons]
  rintro (hmem | rfl | hmem)
  · exact not_mem_natDigits h _ hmem
  · exact hslash rfl
  · exact not_mem_natDigits h _ hmem

/-- What an entry is read back as. -/
def storedEntry (longMax : ℕ) (e : Entry) : Entry := ⟨stored longMax e.toId, stored longMax e.desc⟩

theorem readEntry_entryText (longMax : ℕ) (e : Entry) :
    readEntry longMax (entryText e) = some (storedEntry longMax e) := by
  unfold readEntry entryText storedEntry
  rw [split_pair (not_mem_natDigits rfl _) (not_mem_natDigits rfl _) (natDigits_ne_nil _),
    if_neg (natDigits_ne_nil _)]
  dsimp only
  rw [atoi_natDigits, atoi_natDigits]

theorem storedEntry_eq_iff :
    storedEntry longMax e = e ↔ e.toId.toNat ≤ longMax ∧ e.desc.toNat ≤ longMax := by
  cases e
  unfold storedEntry
  rw [Entry.mk.injEq, stored_eq_iff, stored_eq_iff]

/-- **What a stored holder is read back as.** -/
theorem stringToObject_objectToString (longMax : ℕ) (h : EntryListHolder) :
    stringToObject longMax (objectToString h) =
      if h.list = [] then none
      else some ⟨stored longMax h.fromId, h.list.map (storedEntry longMax)⟩ := by
  have hentries : (h.list.flatMap fun e => (58 : Byte) :: entryText e) =
      (h.list.map entryText).flatMap fun t => 58 :: t := by
    rw [List.flatMap_map]
  have hbar : (124 : Byte) ∉ h.list.flatMap fun e => 58 :: entryText e := by
    rw [List.mem_flatMap]
    rintro ⟨e, -, hmem⟩
    cases hmem with
    | tail _ hmem => exact not_mem_entryText rfl (by decide) e hmem
  unfold stringToObject objectToString
  rw [if_neg (by simp), split_pair (not_mem_natDigits rfl _) hbar (natDigits_ne_nil _)]
  by_cases hnil : h.list = []
  · rw [if_pos hnil, hnil]
    rfl
  · have hsome : (h.list.flatMap fun e => (58 : Byte) :: entryText e) ≠ [] := by
      rw [ne_eq, List.flatMap_eq_nil_iff]
      intro hall
      obtain ⟨e, he⟩ := List.exists_mem_of_ne_nil _ hnil
      cases hall e he
    rw [if_neg hnil, if_neg hsome]
    dsimp only
    rw [atoi_natDigits, hentries, split_flatMap, List.filterMap_map]
    · congr 2
      rw [← List.filterMap_eq_map]
      exact List.filterMap_congr fun e _ => readEntry_entryText longMax e
    · intro t ht
      obtain ⟨e, -, rfl⟩ := List.mem_map.mp ht
      exact ⟨not_mem_entryText rfl (by decide) e, entryText_ne_nil e⟩

/-- **A holder survives the store exactly when it has an entry** and no number of it is above the
greatest `long`. -/
theorem survives_store_iff (longMax : ℕ) (h : EntryListHolder) :
    stringToObject longMax (objectToString h) = some h ↔
      h.list ≠ [] ∧ h.fromId.toNat ≤ longMax ∧
        ∀ e ∈ h.list, e.toId.toNat ≤ longMax ∧ e.desc.toNat ≤ longMax := by
  rw [stringToObject_objectToString]
  by_cases hnil : h.list = []
  · simp [hnil]
  · have hmap : h.list.map (storedEntry longMax) = h.list ↔
        ∀ e ∈ h.list, e.toId.toNat ≤ longMax ∧ e.desc.toNat ≤ longMax := by
      conv_lhs => rhs; rw [← List.map_id h.list]
      rw [List.map_inj_left]
      exact forall₂_congr fun e _ => storedEntry_eq_iff
    cases h
    rw [if_neg hnil, Option.some_inj, EntryListHolder.mk.injEq, hmap, stored_eq_iff, and_iff_right hnil]

/-- An owner without relations. -/
theorem empty_list_lost : ¬∀ h : EntryListHolder,
    stringToObject (2 ^ 63 - 1) (objectToString h) = some h := by
  intro hall
  have hempty := hall ⟨123, []⟩
  rw [stringToObject_objectToString, if_pos rfl] at hempty
  cases hempty

end Oce.Buddy.TokyoTyrantRelationTranslate
