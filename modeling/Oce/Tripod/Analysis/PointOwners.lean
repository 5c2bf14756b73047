import Oce.Tripod.Model.ConfigManager
import Oce.Tripod.Model.CacheConfigClient

/-!
# The owner of a point, in C++ and in Java

Both searches stop at the point that is reached from the hash of the key (`Cpp.get_spec`,
`Java.get_spec`). In C++ the point belongs to the first node that wants it, in Java to the last
(`Cpp.owner_eq`, `Java.owner_eq`), so on a ring of the same nodes they differ at most where
several nodes want the point.
-/

set_option autoImplicit false

namespace Oce.Tripod

open Oce.Base

/-! ## Bytes -/

theorem utf8_injective : Function.Injective utf8 := by
  intro s t h
  rw [← String.toByteArray_inj, ByteArray.ext_iff, ← Array.toList_inj]
  exact h

/-- A host and a port. -/
def WellNamed (name : String) : Prop :=
  ∃ host port, utf8 name = host ++ colon :: natDigits port ∧ host ≠ [] ∧ colon ∉ host ∧
    (0 : Byte) ∉ host ∧ port ≤ 65535

theorem zero_not_mem_natDigits (n : ℕ) : (0 : Byte) ∉ natDigits n := by
  intro h
  have hdigit := isDigit_of_mem_natDigits h
  exact absurd hdigit (by decide)

theorem WellNamed.zero_not_mem {name : String} (h : WellNamed name) : (0 : Byte) ∉ utf8 name := by
  obtain ⟨host, port, hname, -, -, hzero, -⟩ := h
  rw [hname, List.mem_append, List.mem_cons]
  rintro (hmem | hmem | hmem)
  · exact hzero hmem
  · exact absurd hmem (by decide)
  · exact zero_not_mem_natDigits port hmem

/-- A host and a port are two parts. -/
theorem WellNamed.splitOn {host : List Byte} {port : ℕ} (h : colon ∉ host) :
    (host ++ colon :: natDigits port).splitOn colon = [host, natDigits port] := by
  have hdigits : colon ∉ natDigits port := fun hmem =>
    absurd (isDigit_of_mem_natDigits hmem) (by decide)
  have hjoin : (host ++ [natDigits port].flatMap fun u => colon :: u).splitOn colon =
      [host, natDigits port] :=
    splitOn_join colon h fun u hu => List.mem_singleton.mp hu ▸ hdigits
  simpa using hjoin

/-- The pool of a host and a port. -/
theorem Cpp.makePool_of_wellNamed {name : String} (h : WellNamed name) :
    ∃ p, Cpp.makePool name = some p ∧ p.node = utf8 name := by
  obtain ⟨host, port, hname, -, hcolon, -, hport⟩ := h
  refine ⟨⟨host, port⟩, ?_, hname.symm⟩
  have hcast : lexicalCastInt (natDigits port) = some (port : ℤ) :=
    lexicalCastInt_intDigits (n := (port : ℤ)) ⟨by omega, by omega⟩
  simp [Cpp.makePool, hname, WellNamed.splitOn hcolon, hcast]

/-- The pool of a host and a port. -/
theorem Java.makePool_of_wellNamed {name : String} (h : WellNamed name) :
    Java.makePool name = some (utf8 name) := by
  obtain ⟨host, port, hname, -, hcolon, -, -⟩ := h
  have hdigits : (natDigits port).isEmpty = false :=
    List.isEmpty_eq_false_iff.mpr (natDigits_ne_nil port)
  have hsplit : Java.split (utf8 name) = [host, natDigits port] := by
    rw [Java.split, hname, WellNamed.splitOn hcolon]
    simp [hdigits]
  rw [Java.makePool, hsplit]
  dsimp only
  rw [hname]

/-- The points of a host and a port are the same in both languages. -/
theorem Cpp.points_eq {md5 : MD5} {name : String} (h : (0 : Byte) ∉ utf8 name) :
    Cpp.points md5 name = Java.points md5 name := by
  have hwhole : ∀ i, cString (utf8 name ++ natDigits i) = utf8 name ++ natDigits i := by
    intro i
    apply cString_eq_self
    rw [List.mem_append]
    rintro (hmem | hmem)
    · exact h hmem
    · exact zero_not_mem_natDigits i hmem
  simp only [Cpp.points, Java.points, Cpp.stringToMD5, hwhole]

theorem Cpp.hashKey_eq {md5 : MD5} {key : List Byte} (h : (0 : Byte) ∉ key) :
    Cpp.hashKey md5 key = Java.hashKey md5 key := by
  unfold Cpp.hashKey Java.hashKey Cpp.stringToMD5
  rw [cString_eq_self h]

/-! ## The searches -/

section Search

variable {T : Type*}

/-- What the bisection has found when it stops. -/
def Stopped (hash : ℕ) (l : List (ℕ × T)) : (ℕ × T) ⊕ ℕ → Prop
  | .inl e => e ∈ l ∧ e.1 = hash
  | .inr right => right < l.length ∧ (∀ j e, j < right → l[j]? = some e → e.1 < hash) ∧
      (right = l.length - 1 ∨ ∀ e, l[right]? = some e → hash ≤ e.1)

/-- **The bisection.** Everything before `left` is below the hash, and what is at `right` is not,
unless `right` has never moved. -/
theorem Cpp.getPairLoop_stopped (hash : ℕ) {l : List (ℕ × T)}
    (hsorted : l.Pairwise fun e e' => e.1 < e'.1) (fuel left right : ℕ)
    (hfuel : right - left ≤ fuel) (hle : left ≤ right) (hright : right < l.length)
    (hbelow : ∀ j e, j < left → l[j]? = some e → e.1 < hash)
    (habove : right = l.length - 1 ∨ ∀ e, l[right]? = some e → hash ≤ e.1) :
    Stopped hash l (Cpp.getPairLoop hash l fuel left right) := by
  induction fuel generalizing left right with
  | zero =>
      obtain rfl : left = right := by omega
      exact ⟨hright, hbelow, habove⟩
  | succ fuel ih =>
      unfold Cpp.getPairLoop
      by_cases hlt : left < right
      · rw [if_pos hlt]
        dsimp only
        have hmiddle : left + (right - left) / 2 < l.length := by omega
        rw [List.getElem?_eq_getElem hmiddle]
        dsimp only
        by_cases hless : l[left + (right - left) / 2].1 < hash
        · rw [if_pos hless]
          refine ih _ _ (by omega) (by omega) hright ?_ habove
          intro j e hj he
          obtain ⟨hjl, rfl⟩ := List.getElem?_eq_some_iff.mp he
          by_cases heq : j = left + (right - left) / 2
          · subst heq
            exact hless
          · exact (List.pairwise_iff_getElem.mp hsorted j (left + (right - left) / 2) hjl hmiddle
              (by omega)).trans hless
        · rw [if_neg hless]
          by_cases hgreater : hash < l[left + (right - left) / 2].1
          · rw [if_pos hgreater]
            refine ih _ _ (by omega) (by omega) hmiddle hbelow (.inr ?_)
            intro e he
            rw [List.getElem?_eq_getElem hmiddle] at he
            cases he
            exact hgreater.le
          · rw [if_neg hgreater]
            exact ⟨List.getElem_mem hmiddle, by omega⟩
      · rw [if_neg hlt]
        obtain rfl : left = right := by omega
        exact ⟨hright, hbelow, habove⟩

/-- The bisection finds the point that is reached from the hash. -/
theorem Cpp.getPair_spec (hash : ℕ) {m : OrdMap ℕ T} (hne : m.entries ≠ []) :
    ∃ e, Cpp.getPair hash m.entries = some e ∧
      Reaches (fun p => (m.find p).isSome) hash e.1 ∧ m.find e.1 = some e.2 := by
  have hsorted := List.pairwise_map.mp m.sorted
  have hlength : 0 < m.entries.length := List.length_pos_iff.mpr hne
  have hstopped := Cpp.getPairLoop_stopped hash hsorted m.entries.length 0
    (m.entries.length - 1) (by omega) (by omega) (by omega) (fun j e hj => by omega) (.inl rfl)
  unfold Cpp.getPair
  dsimp only
  cases hloop : Cpp.getPairLoop hash m.entries m.entries.length 0 (m.entries.length - 1) with
  | inl e =>
      rw [hloop] at hstopped
      obtain ⟨hmem, hhash⟩ := hstopped
      obtain ⟨l₁, l₂, hl⟩ := List.append_of_mem hmem
      refine ⟨e, rfl, OrdMap.reaches_of_first (.inl ⟨l₁, l₂, hl, ?_, hhash.ge⟩)⟩
      intro e' he'
      rw [hl] at hsorted
      exact hhash ▸ (List.pairwise_append.mp hsorted).2.2 e' he' e List.mem_cons_self
  | inr right =>
      rw [hloop] at hstopped
      obtain ⟨hright, hbelow, habove⟩ := hstopped
      dsimp only
      rw [List.getElem?_eq_getElem hright]
      dsimp only
      by_cases hlast : right = m.entries.length - 1 ∧ m.entries[right].1 < hash
      · rw [if_pos hlast]
        have hall : ∀ e' ∈ m.entries, e'.1 < hash := by
          intro e' he'
          obtain ⟨j, hj, rfl⟩ := List.mem_iff_getElem.mp he'
          by_cases heq : j = right
          · subst heq
            exact hlast.2
          · exact hbelow j _ (by omega) (List.getElem?_eq_getElem hj)
        refine ⟨m.entries[0], List.getElem?_eq_getElem hlength,
          OrdMap.reaches_of_first (.inr ⟨hall, ?_⟩)⟩
        rw [List.head?_eq_getElem?, List.getElem?_eq_getElem hlength]
      · rw [if_neg hlast]
        have hge : hash ≤ m.entries[right].1 := by
          rcases habove with hend | habove
          · by_contra hlt
            exact hlast ⟨hend, not_le.mp hlt⟩
          · exact habove _ (List.getElem?_eq_getElem hright)
        refine ⟨_, rfl, OrdMap.reaches_of_first (.inl ⟨m.entries.take right,
          m.entries.drop (right + 1), ?_, ?_, hge⟩)⟩
        · rw [← List.drop_eq_getElem_cons hright, List.take_append_drop]
        · intro e' he'
          obtain ⟨j, hj, rfl⟩ := List.mem_iff_getElem.mp he'
          rw [List.length_take] at hj
          rw [List.getElem_take]
          exact hbelow j _ (by omega) (List.getElem?_eq_getElem (by omega))

/-- `getPair` finds the owner of the point that the key reaches. -/
theorem Cpp.get_spec (md5 : MD5) (key : List Byte) {m : OrdMap ℕ T} (hne : m.entries ≠ []) :
    ∃ p v, Cpp.get md5 m.entries key = some v ∧
      Reaches (fun p => (m.find p).isSome) (Cpp.hashKey md5 key) p ∧ m.find p = some v := by
  obtain ⟨e, hpair, hreaches, hfind⟩ := Cpp.getPair_spec (Cpp.hashKey md5 key) hne
  refine ⟨e.1, e.2, ?_, hreaches, hfind⟩
  rw [Cpp.get, if_neg (fun h => hne (List.length_eq_zero_iff.mp h)), hpair, Option.map_some]

/-- `get` finds the owner of the point that the key reaches. -/
theorem Java.get_spec (md5 : MD5) (key : List Byte) {m : OrdMap ℕ T} (hne : m.entries ≠ []) :
    ∃ p v, (Java.get md5 m key).named = some v ∧
      Reaches (fun p => (m.find p).isSome) (Java.hashKey md5 key) p ∧ m.find p = some v := by
  unfold Java.get
  cases htail : m.entries.filter fun e => decide (Java.hashKey md5 key ≤ e.1) with
  | cons e l =>
      obtain ⟨l₁, l₂, hl, hnot, hge, -⟩ := List.filter_eq_cons_iff.mp htail
      obtain ⟨hreaches, hfind⟩ := OrdMap.reaches_of_first (.inl ⟨l₁, l₂, hl,
        fun e' he' => by simpa using hnot e' he', by simpa using hge⟩)
      exact ⟨e.1, e.2, rfl, hreaches, hfind⟩
  | nil =>
      have hall : ∀ e' ∈ m.entries, e'.1 < Java.hashKey md5 key := by
        intro e' he'
        have hnot := List.filter_eq_nil_iff.mp htail e' he'
        simpa using hnot
      cases hentries : m.entries with
      | nil => exact absurd hentries hne
      | cons e l =>
          obtain ⟨hreaches, hfind⟩ := OrdMap.reaches_of_first (.inr ⟨hall, by rw [hentries]; rfl⟩)
          exact ⟨e.1, e.2, rfl, hreaches, hfind⟩

end Search

end Oce.Tripod
