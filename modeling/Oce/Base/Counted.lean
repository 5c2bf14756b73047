import Mathlib.Algebra.BigOperators.Group.List.Basic
import Mathlib.Algebra.GroupWithZero.Nat
import Mathlib.Data.Int.Order.Basic
import Mathlib.Data.List.Basic
import Oce.Base.OrdMap

/-!
# Maps of counts

A map from keys to how often they occur, as it is kept in a `std::map` with a number for every
key that occurs at all: `Counted m f` says that it has the counts of `f`, and nothing for the
keys that `f` has none of. What is done to such a map is done to the counts.
-/

set_option autoImplicit false

namespace Oce.Base

variable {κ : Type*} [LinearOrder κ] {m m' : OrdMap κ ℤ} {f g : κ → ℕ} {k : κ}

/-- The entry of a count: none for zero. -/
def countEntry (n : ℕ) : Option ℤ := if n = 0 then none else some (n : ℤ)

@[simp] theorem countEntry_zero : countEntry 0 = none := rfl

theorem countEntry_pos {n : ℕ} (h : 0 < n) : countEntry n = some (n : ℤ) := if_neg (by omega)

/-- The map has the counts that are not zero. -/
def Counted (m : OrdMap κ ℤ) (f : κ → ℕ) : Prop := ∀ k, m.find k = countEntry (f k)

/-- What is counted in two parts. -/
theorem countP_add {α : Type*} {l : List α} {p q r : α → Bool}
    (h : ∀ a ∈ l, (p a = true ↔ q a = true ∨ r a = true) ∧ ¬ (q a = true ∧ r a = true)) :
    l.countP p = l.countP q + l.countP r := by
  induction l with
  | nil => rfl
  | cons a l ih =>
      obtain ⟨hor, hnot⟩ := h a List.mem_cons_self
      rw [List.countP_cons, List.countP_cons, List.countP_cons,
        ih fun b hb => h b (List.mem_cons_of_mem _ hb)]
      by_cases hq : q a = true
      · have hr : r a ≠ true := fun hr => hnot ⟨hq, hr⟩
        rw [if_pos (hor.mpr (.inl hq)), if_pos hq, if_neg hr]
        omega
      · by_cases hr : r a = true
        · rw [if_pos (hor.mpr (.inr hr)), if_neg hq, if_pos hr]
          omega
        · rw [if_neg fun hp => (hor.mp hp).elim hq hr, if_neg hq, if_neg hr]
          omega

/-! ## Lists of which one element changes -/

section Lists

variable {α : Type*} {l : List α} {i : ℕ} {x : α}

theorem perm_of_getElem? (h : l[i]? = some x) : l.Perm (x :: l.eraseIdx i) := by
  obtain ⟨hi, rfl⟩ := List.getElem?_eq_some_iff.mp h
  exact (List.getElem_cons_eraseIdx_perm hi).symm

theorem sum_set (h : l[i]? = some x) (w : α → ℕ) (y : α) :
    ((l.set i y).map w).sum + w x = (l.map w).sum + w y := by
  obtain ⟨hi, -⟩ := List.getElem?_eq_some_iff.mp h
  have hset := ((List.set_perm_cons_eraseIdx hi y).map w).sum_eq
  have hold := ((perm_of_getElem? h).map w).sum_eq
  rw [List.map_cons, List.sum_cons] at hset hold
  omega

theorem sum_eraseIdx (h : l[i]? = some x) (w : α → ℕ) :
    ((l.eraseIdx i).map w).sum + w x = (l.map w).sum := by
  have hold := ((perm_of_getElem? h).map w).sum_eq
  rw [List.map_cons, List.sum_cons] at hold
  omega

end Lists

namespace OrdMap

/-- One more of a key. -/
def bump (m : OrdMap κ ℤ) (k : κ) : OrdMap κ ℤ := m.insert k ((m.find k).getD 0 + 1)

/-- The counts of a list of entries added, in order. -/
def addEntries (m : OrdMap κ ℤ) (l : List (κ × ℤ)) : OrdMap κ ℤ :=
  l.foldl (fun m e => m.insert e.1 ((m.find e.1).getD 0 + e.2)) m

/-- The count of a key made less, the key gone when nothing is left of it; there is no taking
from a key that is not there. -/
def takeEntry (m : OrdMap κ ℤ) (e : κ × ℤ) : Option (OrdMap κ ℤ) :=
  match m.find e.1 with
  | none => none
  | some c => some (if c - e.2 = 0 then m.erase e.1 else m.insert e.1 (c - e.2))

/-- The counts of a list of entries taken away, in order. -/
def takeEntries : List (κ × ℤ) → OrdMap κ ℤ → Option (OrdMap κ ℤ)
  | [], m => some m
  | e :: l, m => (m.takeEntry e).bind (takeEntries l)

theorem findEntry_none {l : List (κ × ℤ)} (h : k ∉ l.map Prod.fst) : findEntry k l = none := by
  cases hfind : findEntry k l with
  | none => rfl
  | some v => exact absurd (List.mem_map_of_mem (findEntry_mem hfind)) h

theorem find_addEntries {l : List (κ × ℤ)} (h : (l.map Prod.fst).Pairwise (· < ·))
    (m : OrdMap κ ℤ) (k : κ) : (m.addEntries l).find k =
      match findEntry k l with
      | none => m.find k
      | some n => some ((m.find k).getD 0 + n) := by
  induction l generalizing m with
  | nil => rfl
  | cons e l ih =>
      rw [List.map_cons, List.pairwise_cons] at h
      have hcons : m.addEntries (e :: l) =
          (m.insert e.1 ((m.find e.1).getD 0 + e.2)).addEntries l := rfl
      rw [hcons, ih h.2]
      by_cases hk : k = e.1
      · subst hk
        rw [findEntry_none fun hmem => lt_irrefl _ (h.1 _ hmem)]
        simp [findEntry]
      · rw [find_insert_ne _ _ hk]
        simp only [findEntry, if_neg hk]

theorem find_takeEntry {e : κ × ℤ} {c : ℤ} (hc : m.find e.1 = some c) :
    ∃ r, m.takeEntry e = some r ∧
      r.find e.1 = (if c - e.2 = 0 then none else some (c - e.2)) ∧
      ∀ k, k ≠ e.1 → r.find k = m.find k := by
  unfold takeEntry
  rw [hc]
  refine ⟨_, rfl, ?_, fun k hk => ?_⟩
  · split_ifs
    · rw [find_erase, if_pos rfl]
    · rw [find_insert_self]
  · split_ifs
    · rw [find_erase, if_neg hk]
    · rw [find_insert_ne _ _ hk]

/-- The counts after all entries are taken off. -/
theorem find_takeEntries {l : List (κ × ℤ)} (h : (l.map Prod.fst).Pairwise (· < ·))
    (hl : ∀ k n, findEntry k l = some n → ∃ c, m.find k = some c) :
    ∃ r, takeEntries l m = some r ∧ ∀ k, r.find k =
      match findEntry k l with
      | none => m.find k
      | some n => (m.find k).bind fun c => if c - n = 0 then none else some (c - n) := by
  induction l generalizing m with
  | nil => exact ⟨m, rfl, fun k => rfl⟩
  | cons e l ih =>
      rw [List.map_cons, List.pairwise_cons] at h
      have hnone : findEntry e.1 l = none := findEntry_none fun hmem => lt_irrefl _ (h.1 _ hmem)
      obtain ⟨c, hc⟩ := hl e.1 e.2 (by simp [findEntry])
      obtain ⟨r, hr, hself, hother⟩ := find_takeEntry hc
      obtain ⟨r', hr', hfind⟩ := ih (m := r) h.2 fun k n hk => by
        have hne : k ≠ e.1 := by
          rintro rfl
          rw [hnone] at hk
          cases hk
        rw [hother k hne]
        exact hl k n (by simpa [findEntry, hne] using hk)
      refine ⟨r', by simp [takeEntries, hr, hr'], fun k => ?_⟩
      rw [hfind k]
      by_cases hk : k = e.1
      · subst hk
        simp [hnone, hself, findEntry, hc]
      · simp only [findEntry, if_neg hk, hother k hk]

end OrdMap

namespace Counted

theorem empty : Counted (OrdMap.empty : OrdMap κ ℤ) fun _ => 0 := fun _ => rfl

theorem congr (h : Counted m f) (hfg : ∀ k, f k = g k) : Counted m g := by
  intro k
  rw [← hfg k]
  exact h k

theorem mem_keys (h : Counted m f) : k ∈ m.entries.map Prod.fst ↔ 0 < f k := by
  have hk := h k
  constructor
  · intro hmem
    obtain ⟨⟨k', v⟩, he, rfl⟩ := List.mem_map.mp hmem
    rw [m.mem_entries_iff.mp he] at hk
    apply Nat.pos_of_ne_zero
    intro h0
    dsimp only at h0
    rw [h0] at hk
    cases hk
  · intro hpos
    rw [countEntry_pos hpos] at hk
    exact List.mem_map.mpr ⟨(k, (f k : ℤ)), m.mem_entries_iff.mpr hk, rfl⟩

/-- There is an entry when there is a key of which there are any. -/
theorem entries_ne_nil (h : Counted m f) : m.entries ≠ [] ↔ ∃ k, 0 < f k := by
  constructor
  · intro hne
    obtain ⟨e, he⟩ := List.exists_mem_of_ne_nil _ hne
    exact ⟨e.1, h.mem_keys.mp (List.mem_map_of_mem he)⟩
  · rintro ⟨k, hk⟩ hnil
    have := h.mem_keys.mpr hk
    rw [hnil] at this
    cases this

theorem nodup_keys (m : OrdMap κ ℤ) : (m.entries.map Prod.fst).Nodup :=
  m.sorted.imp fun h => h.ne

theorem bump (h : Counted m f) (k : κ) :
    Counted (m.bump k) fun j => f j + if j = k then 1 else 0 := by
  intro j
  unfold OrdMap.bump
  rw [OrdMap.find_insert]
  dsimp only
  by_cases hj : j = k
  · subst hj
    rw [if_pos rfl, if_pos rfl, countEntry_pos (Nat.succ_pos _), h j]
    by_cases h0 : f j = 0
    · simp [h0]
    · simp [countEntry, h0]
  · rw [if_neg hj, if_neg hj]
    exact h j

theorem bump_ne_nil (m : OrdMap κ ℤ) (k : κ) : (m.bump k).entries ≠ [] := by
  intro hnil
  have hfind : (m.bump k).find k = some ((m.find k).getD 0 + 1) := OrdMap.find_insert_self _ _ _
  rw [OrdMap.find_eq_none_of_nil hnil] at hfind
  cases hfind

theorem add (h : Counted m f) (h' : Counted m' g) :
    Counted (m.addEntries m'.entries) fun k => f k + g k := by
  intro k
  rw [OrdMap.find_addEntries m'.sorted m k]
  have hg : OrdMap.findEntry k m'.entries = _ := h' k
  rw [hg, h k]
  by_cases h0 : g k = 0
  · simp [h0]
  · by_cases hf : f k = 0
    · simp [countEntry, h0, hf]
    · simp [countEntry, h0, hf]

/-- What is taken away must be there. -/
theorem take (h : Counted m f) (h' : Counted m' g) (hle : ∀ k, g k ≤ f k) :
    ∃ r, OrdMap.takeEntries m'.entries m = some r ∧ Counted r fun k => f k - g k := by
  have hg : ∀ k, OrdMap.findEntry k m'.entries = countEntry (g k) := h'
  obtain ⟨r, hr, hfind⟩ := OrdMap.find_takeEntries (m := m) m'.sorted fun k n hk => by
    have hk0 : g k ≠ 0 := by
      intro h0
      rw [hg k, h0] at hk
      cases hk
    have := hle k
    exact ⟨f k, by rw [h k, countEntry_pos (by omega)]⟩
  refine ⟨r, hr, fun k => ?_⟩
  have := hle k
  rw [hfind k, hg k, h k]
  by_cases h0 : g k = 0
  · simp [h0]
  · rw [countEntry_pos (Nat.pos_of_ne_zero h0), countEntry_pos (by omega)]
    dsimp only [Option.bind_some]
    by_cases heq : f k - g k = 0
    · rw [if_pos (by omega), heq, countEntry_zero]
    · rw [if_neg (by omega), countEntry_pos (by omega), Int.ofNat_sub this]

theorem erase (h : Counted m f) (k : κ) :
    Counted (m.erase k) fun j => if j = k then 0 else f j := by
  intro j
  rw [OrdMap.find_erase]
  dsimp only
  by_cases hj : j = k
  · rw [if_pos hj, if_pos hj, countEntry_zero]
  · rw [if_neg hj, if_neg hj]
    exact h j

end Counted

end Oce.Base
