import Mathlib.Data.List.Nodup
import Mathlib.Data.List.Induction
import Mathlib.Tactic.TypeStar

/-!
# Grouping a list in one pass

A pass over a list that opens a group for every key it meets for the first time, and for a key
it has met asks `keep` whether the element goes at the end of its group or is left out. A group
has a front by construction.

`keys_gather` says that there is one group for each key, and `items_of_mem_gather` that a group
has what the pass makes of the elements of its key alone (`kept`), which no other key bears on.
-/

set_option autoImplicit false

namespace Oce.Base

variable {α κ : Type*}

/-- A group, with the element that opened it. -/
structure Grouped (α : Type*) where
  front : α
  rest : List α

namespace Grouped

/-- All elements of a group. -/
def items (g : Grouped α) : List α := g.front :: g.rest

/-- An element at the end. -/
def push (g : Grouped α) (e : α) : Grouped α := { g with rest := g.rest ++ [e] }

@[simp] theorem front_push (g : Grouped α) (e : α) : (g.push e).front = g.front := rfl

@[simp] theorem items_push (g : Grouped α) (e : α) : (g.push e).items = g.items ++ [e] := rfl

end Grouped

variable [DecidableEq κ] {key : α → κ} {keep : List α → α → Bool}

/-- An element into the group of its key. -/
def placeIn (key : α → κ) (keep : List α → α → Bool) (e : α) : List (Grouped α) → List (Grouped α)
  | [] => [⟨e, []⟩]
  | g :: gs =>
    if key g.front = key e then (if keep g.items e then g.push e else g) :: gs
    else g :: placeIn key keep e gs

/-- The groups of a list. -/
def gather (key : α → κ) (keep : List α → α → Bool) (l : List α) : List (Grouped α) :=
  l.foldl (fun gs e => placeIn key keep e gs) []

/-- One element of a key after those that are kept: the first is, the others if `keep` says so. -/
def keepNext (keep : List α → α → Bool) : List α → α → List α
  | [], e => [e]
  | e' :: items, e => if keep (e' :: items) e then e' :: items ++ [e] else e' :: items

/-- What is kept of the elements of one key. -/
def kept (keep : List α → α → Bool) (l : List α) : List α := l.foldl (keepNext keep) []

theorem gather_append (l : List α) (e : α) :
    gather key keep (l ++ [e]) = placeIn key keep e (gather key keep l) := by
  simp [gather, List.foldl_append]

theorem kept_append (l : List α) (e : α) : kept keep (l ++ [e]) = keepNext keep (kept keep l) e := by
  simp [kept, List.foldl_append]

theorem keepNext_of_ne_nil {items : List α} (h : items ≠ []) (e : α) :
    keepNext keep items e = if keep items e then items ++ [e] else items := by
  cases items with
  | nil => exact absurd rfl h
  | cons e' items => rfl

theorem keys_placeIn (e : α) (gs : List (Grouped α)) :
    (placeIn key keep e gs).map (fun g => key g.front) =
      if key e ∈ gs.map fun g => key g.front then gs.map fun g => key g.front
      else gs.map (fun g => key g.front) ++ [key e] := by
  induction gs with
  | nil => simp [placeIn]
  | cons g gs ih =>
      unfold placeIn
      by_cases hk : key g.front = key e
      · by_cases hkeep : keep g.items e = true <;> simp [hk, hkeep]
      · rw [if_neg hk, List.map_cons, ih, List.map_cons]
        by_cases hmem : key e ∈ gs.map fun g => key g.front
        · rw [if_pos hmem, if_pos (List.mem_cons_of_mem _ hmem)]
        · have hcons : key e ∉ key g.front :: gs.map fun g => key g.front := by
            simpa [Ne.symm hk] using hmem
          rw [if_neg hmem, if_neg hcons]
          rfl

/-- A group after one more element: another key's, a grown one or a new one. -/
theorem mem_placeIn {e : α} {gs : List (Grouped α)} {g : Grouped α} (h : g ∈ placeIn key keep e gs)
    (hgs : (gs.map fun g => key g.front).Nodup) :
    (key g.front ≠ key e ∧ g ∈ gs) ∨
      (∃ g' ∈ gs, key g'.front = key e ∧ g = if keep g'.items e then g'.push e else g') ∨
      ((∀ g' ∈ gs, key g'.front ≠ key e) ∧ g = ⟨e, []⟩) := by
  induction gs with
  | nil => exact .inr (.inr ⟨by simp, List.mem_singleton.mp h⟩)
  | cons g₀ gs ih =>
      rw [List.map_cons, List.nodup_cons] at hgs
      unfold placeIn at h
      by_cases hk : key g₀.front = key e
      · rw [if_pos hk, List.mem_cons] at h
        rcases h with h | h
        · exact .inr (.inl ⟨g₀, by simp, hk, h⟩)
        · refine .inl ⟨fun he => hgs.1 ?_, List.mem_cons_of_mem _ h⟩
          rw [hk, ← he]
          exact List.mem_map.mpr ⟨g, h, rfl⟩
      · rw [if_neg hk, List.mem_cons] at h
        rcases h with rfl | h
        · exact .inl ⟨hk, by simp⟩
        · rcases ih h hgs.2 with ⟨hne, hmem⟩ | ⟨g', hg', hkey, heq⟩ | ⟨hnew, heq⟩
          · exact .inl ⟨hne, List.mem_cons_of_mem _ hmem⟩
          · exact .inr (.inl ⟨g', List.mem_cons_of_mem _ hg', hkey, heq⟩)
          · exact .inr (.inr ⟨by simpa [hk] using hnew, heq⟩)

/-- **There is one group for each key.** -/
theorem keys_gather (key : α → κ) (keep : List α → α → Bool) (l : List α) :
    ((gather key keep l).map fun g => key g.front).Nodup ∧
      ∀ k, k ∈ (gather key keep l).map (fun g => key g.front) ↔ k ∈ l.map key := by
  induction l using List.reverseRecOn with
  | nil => simp [gather]
  | append_singleton l e ih =>
      obtain ⟨hnodup, hmem⟩ := ih
      rw [gather_append, keys_placeIn]
      by_cases he : key e ∈ (gather key keep l).map fun g => key g.front
      · rw [if_pos he]
        refine ⟨hnodup, fun k => ?_⟩
        rw [hmem, List.map_append, List.mem_append, List.map_singleton, List.mem_singleton]
        exact ⟨.inl, fun h => h.elim id fun hk => hk ▸ (hmem _).mp he⟩
      · rw [if_neg he]
        refine ⟨List.nodup_append.mpr ⟨hnodup, List.nodup_singleton _, ?_⟩, fun k => ?_⟩
        · rintro k hk k' hk' rfl
          exact he (List.mem_singleton.mp hk' ▸ hk)
        · rw [List.mem_append, hmem, List.map_append, List.mem_append, List.map_singleton]

theorem kept_ne_nil {l : List α} (h : l ≠ []) : kept keep l ≠ [] := by
  induction l using List.reverseRecOn with
  | nil => exact absurd rfl h
  | append_singleton l e _ =>
      rw [kept_append]
      by_cases hk : kept keep l = []
      · simp [hk, keepNext]
      · rw [keepNext_of_ne_nil hk]
        split
        · simp
        · exact hk

/-- What is kept begins with the first element. -/
theorem head?_kept (keep : List α → α → Bool) (l : List α) : (kept keep l).head? = l.head? := by
  induction l using List.reverseRecOn with
  | nil => rfl
  | append_singleton l e ih =>
      rw [kept_append]
      by_cases hl : l = []
      · subst hl
        rfl
      · have hne := (kept_ne_nil hl : kept keep l ≠ [])
        rw [keepNext_of_ne_nil hne, List.head?_append_of_ne_nil _ hl, ← ih]
        split
        · rw [List.head?_append_of_ne_nil _ hne]
        · rfl

/-- **A group has what is kept of the elements of its key.** -/
theorem items_of_mem_gather {l : List α} {g : Grouped α} (h : g ∈ gather key keep l) :
    g.items = kept keep (l.filter fun e => key e = key g.front) := by
  induction l using List.reverseRecOn generalizing g with
  | nil => cases h
  | append_singleton l e ih =>
      obtain ⟨hnodup, hmem⟩ := keys_gather key keep l
      rw [gather_append] at h
      rw [List.filter_append]
      rcases mem_placeIn h hnodup with ⟨hne, hg⟩ | ⟨g', hg', hkey, rfl⟩ | ⟨hnew, rfl⟩
      · simp [ih hg, Ne.symm hne]
      · have hitems := ih hg'
        rw [hkey] at hitems
        have hfront : key (if keep g'.items e then g'.push e else g').front = key e := by
          split <;> exact hkey
        have hne : g'.items ≠ [] := List.cons_ne_nil _ _
        rw [hfront]
        rw [List.filter_singleton, decide_eq_true rfl, cond_true, kept_append, ← hitems,
          keepNext_of_ne_nil hne]
        split <;> rfl
      · have hnone : l.filter (fun e' => key e' = key e) = [] := by
          rw [List.filter_eq_nil_iff]
          intro e' he' heq
          have hk : key e ∈ (gather key keep l).map fun g => key g.front :=
            (hmem _).mpr (List.mem_map.mpr ⟨e', he', of_decide_eq_true heq⟩)
          obtain ⟨g', hg', hg'k⟩ := List.mem_map.mp hk
          exact hnew g' hg' hg'k
        rw [hnone]
        simp [kept, keepNext, Grouped.items]

end Oce.Base
