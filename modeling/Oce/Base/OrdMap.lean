import Mathlib.Data.List.Basic
import Mathlib.Data.List.Induction
import Mathlib.Data.List.Pairwise
import Mathlib.Order.Lattice
import Mathlib.Tactic.SplitIfs

/-!
# Ordered maps

`std::map` as a list of entries in strictly ascending key order, the order carried as a
field. `insert` is the assignment `m[k] = v`, `find` is `m.find(k)`.
-/

set_option autoImplicit false

namespace Oce.Base

variable {κ ν : Type*} [LinearOrder κ]

/-- A map iterated in ascending key order. -/
structure OrdMap (κ ν : Type*) [LinearOrder κ] where
  entries : List (κ × ν)
  sorted : (entries.map Prod.fst).Pairwise (· < ·)

namespace OrdMap

/-- Assignment into a list of entries in ascending key order. -/
def insertEntry (k : κ) (v : ν) : List (κ × ν) → List (κ × ν)
  | [] => [(k, v)]
  | e :: l =>
    if k < e.1 then (k, v) :: e :: l
    else if k = e.1 then (k, v) :: l
    else e :: insertEntry k v l

/-- Lookup in a list of entries. -/
def findEntry (k : κ) : List (κ × ν) → Option ν
  | [] => none
  | e :: l => if k = e.1 then some e.2 else findEntry k l

theorem mem_keys_insertEntry {k j : κ} {v : ν} {l : List (κ × ν)} :
    j ∈ (insertEntry k v l).map Prod.fst ↔ j = k ∨ j ∈ l.map Prod.fst := by
  induction l with
  | nil => simp [insertEntry]
  | cons e l ih =>
      unfold insertEntry
      split_ifs with h1 h2
      · simp
      · subst h2; simp
      · rw [List.map_cons, List.mem_cons, ih, List.map_cons, List.mem_cons]
        exact or_left_comm

theorem mem_of_mem_insertEntry {k : κ} {v : ν} {l : List (κ × ν)} {e : κ × ν}
    (h : e ∈ insertEntry k v l) : e = (k, v) ∨ e ∈ l := by
  induction l with
  | nil => exact .inl (List.mem_singleton.mp h)
  | cons e' l ih =>
      unfold insertEntry at h
      split_ifs at h with h1 h2
      · exact List.mem_cons.mp h
      · rcases List.mem_cons.mp h with h | h
        · exact .inl h
        · exact .inr (List.mem_cons_of_mem _ h)
      · rcases List.mem_cons.mp h with h | h
        · exact .inr (h ▸ List.mem_cons_self)
        · exact (ih h).imp id (List.mem_cons_of_mem _)

theorem findEntry_isSome {k : κ} {l : List (κ × ν)} :
    (findEntry k l).isSome ↔ k ∈ l.map Prod.fst := by
  induction l with
  | nil => simp [findEntry]
  | cons e l ih =>
      by_cases hk : k = e.1
      · simp [findEntry, hk]
      · rw [findEntry, if_neg hk, ih, List.map_cons, List.mem_cons]
        exact (or_iff_right hk).symm

theorem sorted_insertEntry (k : κ) (v : ν) {l : List (κ × ν)}
    (h : (l.map Prod.fst).Pairwise (· < ·)) :
    ((insertEntry k v l).map Prod.fst).Pairwise (· < ·) := by
  induction l with
  | nil => simp [insertEntry]
  | cons e l ih =>
      rw [List.map_cons, List.pairwise_cons] at h
      unfold insertEntry
      split_ifs with h1 h2
      · simp only [List.map_cons, List.pairwise_cons]
        refine ⟨fun j hj => ?_, h⟩
        rcases List.mem_cons.mp hj with rfl | hj
        · exact h1
        · exact h1.trans (h.1 j hj)
      · subst h2
        exact List.pairwise_cons.mpr h
      · rw [List.map_cons, List.pairwise_cons]
        refine ⟨fun j hj => ?_, ih h.2⟩
        rcases mem_keys_insertEntry.mp hj with rfl | hj
        · exact lt_of_le_of_ne (not_lt.mp h1) (Ne.symm h2)
        · exact h.1 j hj

theorem findEntry_insertEntry (k j : κ) (v : ν) (l : List (κ × ν)) :
    findEntry j (insertEntry k v l) = if j = k then some v else findEntry j l := by
  induction l with
  | nil => simp [insertEntry, findEntry]
  | cons e l ih =>
      by_cases h1 : k < e.1
      · simp [insertEntry, h1, findEntry]
      by_cases h2 : k = e.1
      · subst h2
        by_cases hj : j = e.1 <;> simp [insertEntry, findEntry, hj]
      · by_cases hj : j = k
        · subst hj; simp [insertEntry, findEntry, h1, h2, ih]
        · simp [insertEntry, findEntry, h1, h2, ih, hj]

theorem sorted_nil : (([] : List (κ × ν)).map Prod.fst).Pairwise (· < ·) := List.Pairwise.nil

/-- The empty map. -/
def empty : OrdMap κ ν := ⟨[], sorted_nil⟩

/-- `m[k] = v`. -/
def insert (m : OrdMap κ ν) (k : κ) (v : ν) : OrdMap κ ν :=
  ⟨insertEntry k v m.entries, sorted_insertEntry k v m.sorted⟩

/-- `m.find(k)`. -/
def find (m : OrdMap κ ν) (k : κ) : Option ν := findEntry k m.entries

/-- `m.erase(k)`. -/
def erase (m : OrdMap κ ν) (k : κ) : OrdMap κ ν :=
  ⟨m.entries.filter fun e => decide (e.1 ≠ k),
    m.sorted.sublist (List.filter_sublist.map Prod.fst)⟩

@[simp] theorem mem_entries_erase {m : OrdMap κ ν} {k : κ} {e : κ × ν} :
    e ∈ (m.erase k).entries ↔ e ∈ m.entries ∧ e.1 ≠ k := by
  simp [erase]

/-- The values in key order. -/
def values (m : OrdMap κ ν) : List ν := m.entries.map Prod.snd

@[simp] theorem find_empty (k : κ) : (empty : OrdMap κ ν).find k = none := rfl

theorem find_insert (m : OrdMap κ ν) (k j : κ) (v : ν) :
    (m.insert k v).find j = if j = k then some v else m.find j :=
  findEntry_insertEntry k j v m.entries

@[simp] theorem find_insert_self (m : OrdMap κ ν) (k : κ) (v : ν) :
    (m.insert k v).find k = some v := by
  simp [find_insert]

theorem find_insert_ne (m : OrdMap κ ν) {k j : κ} (v : ν) (h : j ≠ k) :
    (m.insert k v).find j = m.find j := by
  simp [find_insert, h]

theorem findEntry_mem {k : κ} {v : ν} {l : List (κ × ν)} (h : findEntry k l = some v) :
    (k, v) ∈ l := by
  induction l with
  | nil => simp [findEntry] at h
  | cons e l ih =>
      unfold findEntry at h
      split_ifs at h with hk
      · subst hk; cases h; simp
      · exact List.mem_cons_of_mem _ (ih h)

theorem findEntry_of_mem {k : κ} {v : ν} {l : List (κ × ν)}
    (hs : (l.map Prod.fst).Pairwise (· < ·)) (h : (k, v) ∈ l) : findEntry k l = some v := by
  induction l with
  | nil => simp at h
  | cons e l ih =>
      rw [List.map_cons, List.pairwise_cons] at hs
      rcases List.mem_cons.mp h with rfl | h
      · simp [findEntry]
      · have hlt : e.1 < k := hs.1 k (List.mem_map.mpr ⟨_, h, rfl⟩)
        simp [findEntry, hlt.ne', ih hs.2 h]

/-- An entry is in the map exactly when its key finds it. -/
theorem mem_entries_iff (m : OrdMap κ ν) {k : κ} {v : ν} :
    (k, v) ∈ m.entries ↔ m.find k = some v :=
  ⟨findEntry_of_mem m.sorted, findEntry_mem⟩

theorem find_eq_none_of_nil {m : OrdMap κ ν} (h : m.entries = []) (k : κ) : m.find k = none := by
  simp [find, h, findEntry]

theorem find_erase (m : OrdMap κ ν) (k j : κ) :
    (m.erase k).find j = if j = k then none else m.find j := by
  apply Option.ext
  intro v
  rw [← mem_entries_iff, mem_entries_erase, mem_entries_iff]
  by_cases hj : j = k <;> simp [hj]

theorem filter_ne_of_lt {k : κ} {l : List (κ × ν)} (h : ∀ j ∈ l.map Prod.fst, k < j) :
    (l.filter fun e => decide (e.1 ≠ k)) = l :=
  List.filter_eq_self.mpr fun e he =>
    decide_eq_true (ne_of_gt (h e.1 (List.mem_map_of_mem he)))

/-- The new entry beside the entries for other keys. -/
theorem entries_insert_perm (m : OrdMap κ ν) (k : κ) (v : ν) :
    (m.insert k v).entries.Perm ((k, v) :: (m.erase k).entries) := by
  obtain ⟨l, h⟩ := m
  show (insertEntry k v l).Perm ((k, v) :: l.filter fun e => decide (e.1 ≠ k))
  induction l with
  | nil => exact List.Perm.refl _
  | cons e l ih =>
      rw [List.map_cons, List.pairwise_cons] at h
      unfold insertEntry
      split_ifs with h1 h2
      · rw [filter_ne_of_lt]
        intro j hj
        rw [List.map_cons, List.mem_cons] at hj
        rcases hj with rfl | hj
        · exact h1
        · exact h1.trans (h.1 j hj)
      · rw [List.filter_cons_of_neg (by simpa using h2.symm), filter_ne_of_lt]
        intro j hj
        rw [h2]
        exact h.1 j hj
      · rw [List.filter_cons_of_pos (by simpa using Ne.symm h2)]
        exact ((ih h.2).cons e).trans (List.Perm.swap _ _ _)

/-- An entry beside the entries for other keys. -/
theorem entries_perm_of_find {m : OrdMap κ ν} {k : κ} {v : ν} (hv : m.find k = some v) :
    m.entries.Perm ((k, v) :: (m.erase k).entries) := by
  obtain ⟨l, h⟩ := m
  change findEntry k l = some v at hv
  show l.Perm ((k, v) :: l.filter fun e => decide (e.1 ≠ k))
  induction l with
  | nil => cases hv
  | cons e l ih =>
      rw [List.map_cons, List.pairwise_cons] at h
      unfold findEntry at hv
      by_cases hk : k = e.1
      · rw [if_pos hk] at hv
        cases hv
        rw [List.filter_cons_of_neg (by simpa using hk.symm), filter_ne_of_lt, hk]
        rw [hk]
        exact h.1
      · rw [if_neg hk] at hv
        rw [List.filter_cons_of_pos (by simpa using Ne.symm hk)]
        exact ((ih h.2 hv).cons e).trans (List.Perm.swap _ _ _)

theorem mem_values_iff {m : OrdMap κ ν} {v : ν} : v ∈ m.values ↔ ∃ k, m.find k = some v := by
  simp only [values, List.mem_map, Prod.exists, exists_eq_right, mem_entries_iff]

theorem entries_nil_iff {m : OrdMap κ ν} : m.entries = [] ↔ ∀ k, m.find k = none := by
  refine ⟨fun h k => find_eq_none_of_nil h k, fun h => ?_⟩
  apply List.eq_nil_iff_forall_not_mem.mpr
  rintro ⟨k, v⟩ hmem
  have := m.mem_entries_iff.mp hmem
  rw [h k] at this
  cases this

/-- Every value in the place of what `f` makes of it. -/
def map {ν' : Type*} (f : κ → ν → ν') (m : OrdMap κ ν) : OrdMap κ ν' :=
  ⟨m.entries.map fun e => (e.1, f e.1 e.2), by simpa [Function.comp_def] using m.sorted⟩

theorem find_map {ν' : Type*} (f : κ → ν → ν') (m : OrdMap κ ν) (k : κ) :
    (m.map f).find k = (m.find k).map (f k) := by
  unfold map find
  dsimp only
  generalize m.entries = l
  induction l with
  | nil => rfl
  | cons e l ih =>
      rw [List.map_cons, findEntry, findEntry]
      by_cases hk : k = e.1
      · simp [hk]
      · simpa [hk] using ih

/-- `m.insert(k, v)`: a key that is there keeps its value. -/
def insertNew (m : OrdMap κ ν) (k : κ) (v : ν) : OrdMap κ ν :=
  if (m.find k).isSome then m else m.insert k v

theorem find_insertNew (m : OrdMap κ ν) (k j : κ) (v : ν) :
    (m.insertNew k v).find j = if j = k then some ((m.find k).getD v) else m.find j := by
  unfold insertNew
  cases hk : m.find k with
  | none => simp [find_insert]
  | some v' =>
      by_cases hj : j = k
      · simp [hj, hk]
      · simp [hj]

/-- Every value in the place of what `f` makes of it, or gone. -/
def filterMap {ν' : Type*} (f : κ → ν → Option ν') (m : OrdMap κ ν) : OrdMap κ ν' :=
  ⟨m.entries.filterMap fun e => (f e.1 e.2).map fun v => (e.1, v), by
    have hmap : (m.entries.filterMap fun e => (f e.1 e.2).map fun v => (e.1, v)).map Prod.fst =
        m.entries.filterMap fun e => (f e.1 e.2).map fun _ => e.1 := by
      rw [List.map_filterMap]
      congr 1
      funext e
      rw [Option.map_map]
      rfl
    rw [hmap, List.pairwise_filterMap]
    refine (List.pairwise_map.mp m.sorted).imp fun h b hb b' hb' => ?_
    obtain ⟨-, -, rfl⟩ := Option.map_eq_some_iff.mp hb
    obtain ⟨-, -, rfl⟩ := Option.map_eq_some_iff.mp hb'
    exact h⟩

theorem find_filterMap {ν' : Type*} (f : κ → ν → Option ν') (m : OrdMap κ ν) (k : κ) :
    (m.filterMap f).find k = (m.find k).bind (f k) := by
  apply Option.ext
  intro v
  rw [← mem_entries_iff, Option.bind_eq_some_iff]
  unfold filterMap
  simp only [List.mem_filterMap, Option.map_eq_some_iff, Prod.mk.injEq]
  constructor
  · rintro ⟨e, he, v', hv', rfl, rfl⟩
    exact ⟨e.2, m.mem_entries_iff.mp he, hv'⟩
  · rintro ⟨v', hv', hv⟩
    exact ⟨(k, v'), m.mem_entries_iff.mpr hv', v, hv, rfl, rfl⟩

/-- The entries whose keys `p` takes, from the last on. -/
def down (m : OrdMap κ ν) (p : κ → Bool) : List (κ × ν) :=
  (m.entries.filter fun e => p e.1).reverse

theorem mem_down {m : OrdMap κ ν} {p : κ → Bool} {k : κ} {v : ν} :
    (k, v) ∈ m.down p ↔ m.find k = some v ∧ p k = true := by
  unfold down
  rw [List.mem_reverse, List.mem_filter, mem_entries_iff]

theorem sorted_down (m : OrdMap κ ν) (p : κ → Bool) :
    (m.down p).Pairwise fun e e' => e'.1 < e.1 := by
  unfold down
  rw [List.pairwise_reverse]
  exact (List.pairwise_map.mp m.sorted).filter _

/-- Assigning a list of entries, in order, into a map. -/
def insertAll (m : OrdMap κ ν) (l : List (κ × ν)) : OrdMap κ ν :=
  l.foldl (fun m e => m.insert e.1 e.2) m

/-- The keys after assigning entries. -/
theorem mem_keys_insertAll {m : OrdMap κ ν} {l : List (κ × ν)} {k : κ} :
    k ∈ (m.insertAll l).entries.map Prod.fst ↔ k ∈ m.entries.map Prod.fst ∨ k ∈ l.map Prod.fst := by
  induction l generalizing m with
  | nil => simp [insertAll]
  | cons e l ih =>
      have hins : (m.insertAll (e :: l)) = (m.insert e.1 e.2).insertAll l := rfl
      have hkeys : k ∈ (m.insert e.1 e.2).entries.map Prod.fst ↔
          k = e.1 ∨ k ∈ m.entries.map Prod.fst := mem_keys_insertEntry
      rw [hins, ih, hkeys, List.map_cons, List.mem_cons]
      tauto

@[ext] theorem ext {m m' : OrdMap κ ν} (h : m.entries = m'.entries) : m = m' := by
  cases m; cases m'; congr

theorem insertEntry_append (k : κ) (v : ν) {l : List (κ × ν)} (h : ∀ j ∈ l.map Prod.fst, j < k) :
    insertEntry k v l = l ++ [(k, v)] := by
  induction l with
  | nil => rfl
  | cons e l ih =>
      have he : e.1 < k := h e.1 (by simp)
      have hl := ih fun j hj => h j (List.mem_cons_of_mem _ hj)
      simp [insertEntry, not_lt.mpr he.le, he.ne', hl]

/-- Assigning entries that come in ascending order after those of the map appends them. -/
theorem entries_insertAll (l : List (κ × ν)) (m : OrdMap κ ν)
    (h : ((m.entries ++ l).map Prod.fst).Pairwise (· < ·)) :
    (m.insertAll l).entries = m.entries ++ l := by
  induction l generalizing m with
  | nil => simp [insertAll]
  | cons e l ih =>
      have hlt : ∀ j ∈ m.entries.map Prod.fst, j < e.1 := by
        rw [List.map_append, List.pairwise_append] at h
        exact fun j hj => h.2.2 j hj e.1 (by simp)
      have hins : (m.insert e.1 e.2).entries = m.entries ++ [e] :=
        insertEntry_append e.1 e.2 hlt
      have := ih (m.insert e.1 e.2) (by rw [hins]; simpa using h)
      rw [hins] at this
      simpa [insertAll] using this

/-- A map is rebuilt from its own entries. -/
theorem insertAll_entries (m : OrdMap κ ν) : empty.insertAll m.entries = m := by
  apply ext
  rw [entries_insertAll m.entries empty (by simpa [empty] using m.sorted)]
  simp [empty]

/-- Assigning some of the entries of a map, into an empty one. -/
theorem insertAll_filter (m : OrdMap κ ν) (p : κ × ν → Bool) :
    empty.insertAll (m.entries.filter p) =
      m.filterMap fun k v => if p (k, v) = true then some v else none := by
  apply ext
  rw [entries_insertAll]
  · unfold filterMap empty
    rw [List.nil_append, ← List.filterMap_eq_filter]
    refine List.filterMap_congr fun e _ => ?_
    cases hp : p e <;> simp [Option.guard, hp]
  · exact m.sorted.sublist (List.filter_sublist.map Prod.fst)

/-- The entries of a key are the one that it has, if it has one. -/
theorem filter_key (m : OrdMap κ ν) (k : κ) :
    (m.entries.filter fun e => e.1 = k) = ((m.find k).map fun v => (k, v)).toList := by
  have hsorted := List.pairwise_map.mp m.sorted
  cases hfind : m.find k with
  | none =>
      refine List.filter_eq_nil_iff.mpr fun e he hk => ?_
      have hsome := m.mem_entries_iff.mp he
      rw [of_decide_eq_true hk, hfind] at hsome
      cases hsome
  | some v =>
      obtain ⟨l₁, l₂, hl⟩ := List.append_of_mem (m.mem_entries_iff.mpr hfind)
      rw [hl] at hsorted
      rw [List.pairwise_append, List.pairwise_cons] at hsorted
      have hfront : (l₁.filter fun e => e.1 = k) = [] := List.filter_eq_nil_iff.mpr fun e he hk =>
        absurd (hsorted.2.2 e he (k, v) List.mem_cons_self) (of_decide_eq_true hk ▸ lt_irrefl _)
      have hback : (l₂.filter fun e => e.1 = k) = [] := List.filter_eq_nil_iff.mpr fun e he hk =>
        absurd (hsorted.2.1.1 e he) (of_decide_eq_true hk ▸ lt_irrefl _)
      rw [hl, List.filter_append, hfront, List.filter_cons_of_pos (by simp), hback]
      rfl

/-- The first entry that `p` takes is the one with the least key. -/
theorem le_of_find? {m : OrdMap κ ν} {p : κ × ν → Bool} {e : κ × ν}
    (h : m.entries.find? p = some e) {e' : κ × ν} (he' : e' ∈ m.entries) (hp' : p e' = true) :
    e.1 ≤ e'.1 := by
  have hsorted := List.pairwise_map.mp m.sorted
  obtain ⟨-, l₁, l₂, hl, hnot⟩ := List.find?_eq_some_iff_append.mp h
  rw [hl] at he' hsorted
  rcases List.mem_append.mp he' with he' | he'
  · have hfront := hnot e' he'
    simp [hp'] at hfront
  · rcases List.mem_cons.mp he' with rfl | he'
    · exact le_rfl
    · exact ((List.pairwise_cons.mp (List.pairwise_append.mp hsorted).2.1).1 e' he').le

/-! ## Grouping -/

section Group

variable {α : Type*}

/-- A list under the keys of its elements, those without a key left out. `add` puts an element to
what its key has, which is `zero` before the first. -/
def group (key : α → Option κ) (add : ν → α → ν) (zero : ν) (l : List α) : OrdMap κ ν :=
  l.foldl (fun m x =>
    match key x with
    | none => m
    | some k => m.insert k (add ((m.find k).getD zero) x)) empty

/-- **A key has the elements of its own, in their order.** -/
theorem find_group (key : α → Option κ) (add : ν → α → ν) (zero : ν) (l : List α) (k : κ) :
    (group key add zero l).find k =
      if ∃ x ∈ l, key x = some k then some ((l.filter fun x => key x = some k).foldl add zero)
      else none := by
  unfold group
  induction l using List.reverseRecOn with
  | nil => simp
  | append_singleton l x ih =>
      rw [List.foldl_concat, List.filter_append, List.foldl_append]
      cases hx : key x with
      | none => simpa [hx] using ih
      | some j =>
          dsimp only
          rw [find_insert]
          by_cases hk : k = j
          · subst hk
            have hlast : ∃ y ∈ l ++ [x], key y = some k := ⟨x, by simp, hx⟩
            rw [if_pos rfl, ih, if_pos hlast]
            by_cases hmem : ∃ y ∈ l, key y = some k
            · simp [hmem, hx]
            · have hnone : (l.filter fun y => key y = some k) = [] := by
                rw [List.filter_eq_nil_iff]
                exact fun y hy hyk => hmem ⟨y, hy, of_decide_eq_true hyk⟩
              rw [if_neg hmem, hnone]
              simp [hx]
          · have hne : key x ≠ some k := fun h => hk (Option.some.inj (h.symm.trans hx))
            have hrest : (∃ y ∈ l ++ [x], key y = some k) ↔ ∃ y ∈ l, key y = some k := by
              simp [hne]
            rw [if_neg hk, ih, if_congr hrest rfl rfl]
            simp [hx, Ne.symm hk]

end Group

end OrdMap

end Oce.Base
