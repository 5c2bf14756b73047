import Mathlib.Data.List.Nodup
import Mathlib.Data.List.Range
import Oce.Base.OrdMap

/-!
# Lists in parts

A list may be cut in parts by position (`partsOf`), by collecting its elements until there are enough
of them (`Batch`), or by a key (`OrdMap.group`). In each case all that is in the parts is the list.
A merge is the other way: the items of several sources in one list, in which those of a source keep
their order (`IsMerge`).
-/

set_option autoImplicit false

namespace Oce.Base

variable {α β κ : Type*}

/-! ## By position -/

/-- Parts of `k`, of which the last may have fewer. -/
def partsOf (k : ℕ) (l : List α) : List (List α) :=
  (List.range ((l.length + k - 1) / k)).map fun i => (l.drop (i * k)).take k

theorem length_le_of_mem_partsOf {k : ℕ} {l part : List α} (h : part ∈ partsOf k l) : part.length ≤ k := by
  obtain ⟨i, -, rfl⟩ := List.mem_map.mp h
  exact List.length_take_le _ _

theorem flatten_partsOf {k : ℕ} (hk : 0 < k) (l : List α) : (partsOf k l).flatten = l := by
  have htake : ∀ n, ((List.range n).map fun i => (l.drop (i * k)).take k).flatten = l.take (n * k) := by
    intro n
    induction n with
    | zero => simp
    | succ n ih =>
        rw [List.range_succ, List.map_append, List.flatten_append, ih, Nat.succ_mul, List.take_add]
        simp
  unfold partsOf
  rw [htake]
  apply List.take_of_length_le
  have hdiv := Nat.div_add_mod (l.length + k - 1) k
  have hmod := Nat.mod_lt (l.length + k - 1) hk
  rw [Nat.mul_comm] at hdiv
  omega

/-! ## One after the other -/

/-- The part that is being collected, the number of elements so far, and what has been sent. -/
structure Batch (α β : Type*) where
  part : List α
  count : ℕ
  sent : List β

namespace Batch

variable {k total : ℕ} {send : List α → List β}

/-- An element is added. A part that is full is sent, and so is the last. -/
def next (k total : ℕ) (send : List α → List β) (b : Batch α β) (e : α) : Batch α β :=
  let part := b.part ++ [e]
  let count := b.count + 1
  if k ≤ part.length ∨ count = total then ⟨[], count, b.sent ++ send part⟩ else ⟨part, count, b.sent⟩

/-- **Everything is sent**, in parts that are neither empty nor too long. -/
theorem foldl_next (l : List α) (b : Batch α β) (hcount : b.count + l.length = total)
    (hpart : b.part.length < k) (hend : l = [] → b.part = []) :
    ∃ parts : List (List α), parts.flatten = b.part ++ l ∧
      (∀ part ∈ parts, part ≠ [] ∧ part.length ≤ k) ∧
      (l.foldl (next k total send) b).sent = b.sent ++ parts.flatMap send := by
  induction l generalizing b with
  | nil => exact ⟨[], by simp [hend rfl], by simp, by simp⟩
  | cons e l ih =>
      rw [List.length_cons] at hcount
      rw [List.foldl_cons]
      by_cases hfull : k ≤ (b.part ++ [e]).length ∨ b.count + 1 = total
      · have hnext : next k total send b e = ⟨[], b.count + 1, b.sent ++ send (b.part ++ [e])⟩ := if_pos hfull
        obtain ⟨parts, hflat, hlen, hsent⟩ := ih (next k total send b e) (by rw [hnext]; dsimp only; omega)
          (by rw [hnext]; exact Nat.zero_lt_of_lt hpart) (fun _ => by rw [hnext])
        refine ⟨(b.part ++ [e]) :: parts, ?_, ?_, ?_⟩
        · rw [List.flatten_cons, hflat, hnext]
          simp
        · intro part hmem
          rcases List.mem_cons.mp hmem with rfl | hmem
          · exact ⟨by simp, by rw [List.length_append, List.length_singleton]; omega⟩
          · exact hlen part hmem
        · rw [hsent, hnext]
          simp
      · have hnext : next k total send b e = ⟨b.part ++ [e], b.count + 1, b.sent⟩ := if_neg hfull
        push Not at hfull
        obtain ⟨parts, hflat, hlen, hsent⟩ := ih (next k total send b e) (by rw [hnext]; dsimp only; omega)
          (by rw [hnext]; exact hfull.1) (by
            rintro rfl
            exact absurd hcount (by simpa using hfull.2))
        refine ⟨parts, ?_, hlen, ?_⟩
        · rw [hflat, hnext]
          simp
        · rw [hsent, hnext]

end Batch

/-! ## By a key -/

section Group

variable [LinearOrder κ] (key : α → κ)

/-- The elements of each key, in their order. -/
def groupBy (l : List α) : OrdMap κ (List α) := OrdMap.group (fun x => some (key x)) (fun m x => m ++ [x]) [] l

theorem mem_groupBy {l m : List α} {k : κ} (h : (k, m) ∈ (groupBy key l).entries) :
    m = l.filter fun x => key x = k := by
  have hfold : ∀ xs : List α, xs.foldl (fun m x => m ++ [x]) [] = xs := by
    intro xs
    induction xs using List.reverseRecOn with
    | nil => rfl
    | append_singleton xs x ih => rw [List.foldl_concat, ih]
  have hfind := OrdMap.mem_entries_iff _ |>.mp h
  unfold groupBy at hfind
  rw [OrdMap.find_group, hfold] at hfind
  split at hfind
  case isTrue => simpa using (Option.some.inj hfind).symm
  case isFalse => cases hfind

/-- **All groups together are the list.** -/
theorem perm_groupBy (l : List α) : ((groupBy key l).entries.flatMap Prod.snd).Perm l := by
  induction l using List.reverseRecOn with
  | nil => exact List.Perm.refl _
  | append_singleton l x ih =>
      have hinsert : groupBy key (l ++ [x]) =
          (groupBy key l).insert (key x) (((groupBy key l).find (key x)).getD [] ++ [x]) := by
        unfold groupBy OrdMap.group
        rw [List.foldl_concat]
      rw [hinsert]
      generalize groupBy key l = m at ih
      have hrest : (((m.find (key x)).getD []) ++ (m.erase (key x)).entries.flatMap Prod.snd).Perm l := by
        cases hfind : m.find (key x) with
        | some old => exact ((OrdMap.entries_perm_of_find hfind).flatMap_right Prod.snd).symm.trans ih
        | none =>
            have hsame : (m.erase (key x)).entries = m.entries := by
              refine List.filter_eq_self.mpr fun e he => decide_eq_true ?_
              rintro heq
              rw [← heq, m.mem_entries_iff.mp he] at hfind
              cases hfind
            rw [hsame]
            exact ih
      refine ((m.entries_insert_perm _ _).flatMap_right Prod.snd).trans ?_
      rw [List.flatMap_cons, List.append_assoc]
      refine (List.perm_append_left_iff _ |>.mpr List.perm_append_comm).trans ?_
      rw [← List.append_assoc]
      exact hrest.append_right [x]

end Group

/-! ## Merges -/

section Merge

variable {ι : Type*} [DecidableEq ι]

/-- The items of one source. -/
def ofSource (i : ι) (order : List (ι × α)) : List α := (order.filter fun p => p.1 = i).map Prod.snd

@[simp] theorem ofSource_nil (i : ι) : ofSource i ([] : List (ι × α)) = [] := rfl

@[simp] theorem ofSource_append (i : ι) (order order' : List (ι × α)) :
    ofSource i (order ++ order') = ofSource i order ++ ofSource i order' := by
  simp [ofSource]

@[simp] theorem ofSource_map_self (i : ι) (l : List α) : ofSource i (l.map fun a => (i, a)) = l := by
  induction l with
  | nil => rfl
  | cons a l ih => simpa [ofSource] using ih

theorem ofSource_map_of_ne {i j : ι} (h : j ≠ i) (l : List α) :
    ofSource i (l.map fun a => (j, a)) = [] := by
  simp [ofSource, h]

/-- What `ids` name gives in one sequence, each source in its order. -/
structure IsMerge (ids : List ι) (parts : ι → List α) (order : List (ι × α)) : Prop where
  mem : ∀ p ∈ order, p.1 ∈ ids
  parts : ∀ i ∈ ids, ofSource i order = parts i

theorem ofSource_flatMap (rest : ι → List α) {ids : List ι} (hnodup : ids.Nodup) (i : ι) :
    ofSource i (ids.flatMap fun j => (rest j).map fun a => (j, a)) = if i ∈ ids then rest i else [] := by
  induction ids with
  | nil => rfl
  | cons j ids ih =>
      have hj := List.nodup_cons.mp hnodup
      rw [List.flatMap_cons, ofSource_append, ih hj.2]
      by_cases he : j = i
      · subst he
        simp [hj.1]
      · rw [ofSource_map_of_ne he, List.nil_append]
        simp [Ne.symm he]

/-- A merge that has been begun can be carried on to the end. -/
theorem IsMerge.of_begun {ids : List ι} (hnodup : ids.Nodup) {parts rest : ι → List α}
    {order : List (ι × α)} (hmem : ∀ p ∈ order, p.1 ∈ ids)
    (hparts : ∀ i ∈ ids, ofSource i order ++ rest i = parts i) :
    IsMerge ids parts (order ++ ids.flatMap fun j => (rest j).map fun a => (j, a)) := by
  constructor
  · intro p hp
    rcases List.mem_append.mp hp with hp | hp
    · exact hmem p hp
    · obtain ⟨j, hj, hp⟩ := List.mem_flatMap.mp hp
      obtain ⟨a, -, rfl⟩ := List.mem_map.mp hp
      exact hj
  · intro i hi
    rw [ofSource_append, ofSource_flatMap rest hnodup, if_pos hi, hparts i hi]

end Merge

end Oce.Base
