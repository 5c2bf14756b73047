import Mathlib.Data.List.Nodup
import Oce.OnlineCenter.Model.UserPool

/-!
# What the lists of a pool hold

`ListsOk lists nodes` says that the lists are lists of distinct nodes below `nodes`, each in
the list of its kind. Under it a position is in the lists or it is not, whatever the order,
and the three things that are done to the lists add one position, take one away or put one in
the place of another.
-/

set_option autoImplicit false

namespace Oce.OnlineCenter

open Function Oce.Base Oce.TalkCommon

variable {lists : AvatarLists} {nodes k : ℕ} {pos old q : Pos}

/-- Distinct nodes, each in the list of its kind. -/
structure ListsOk (lists : AvatarLists) (nodes : ℕ) : Prop where
  kind_eq : ∀ {k q}, q ∈ lists k → q.kind = k
  nodup : ∀ k, ((lists k).map Pos.node).Nodup
  node_inj : ∀ {k k' q q'}, q ∈ lists k → q' ∈ lists k' → q.node = q'.node → q = q'
  fresh : ∀ {k q}, q ∈ lists k → q.node < nodes

/-- `pos` is in the list of its kind. -/
def AvatarLists.Holds (lists : AvatarLists) (pos : Pos) : Prop := pos ∈ lists pos.kind

theorem listsOk_nil : ListsOk (fun _ => []) 0 where
  kind_eq h := absurd h List.not_mem_nil
  nodup _ := List.nodup_nil
  node_inj h := absurd h List.not_mem_nil
  fresh h := absurd h List.not_mem_nil

theorem ListsOk.holds (h : ListsOk lists nodes) (hq : q ∈ lists k) : lists.Holds q := by
  unfold AvatarLists.Holds
  rw [h.kind_eq hq]
  exact hq

/-! ## `push_back` -/

theorem mem_pushBack : q ∈ lists.pushBack pos k ↔ q ∈ lists k ∨ q = pos ∧ k = pos.kind := by
  unfold AvatarLists.pushBack
  by_cases hk : k = pos.kind
  · subst hk
    simp
  · simp [hk]

theorem holds_pushBack : (lists.pushBack pos).Holds q ↔ lists.Holds q ∨ q = pos := by
  unfold AvatarLists.Holds
  rw [mem_pushBack]
  refine or_congr_right ⟨fun h => h.1, ?_⟩
  rintro rfl
  exact ⟨rfl, rfl⟩

/-- A new node at the end of its list. -/
theorem ListsOk.pushBack (h : ListsOk lists nodes) (hpos : pos.node = nodes) :
    ListsOk (lists.pushBack pos) (nodes + 1) where
  kind_eq hq := by
    rcases mem_pushBack.mp hq with hq | ⟨rfl, rfl⟩
    · exact h.kind_eq hq
    · rfl
  nodup k := by
    unfold AvatarLists.pushBack
    by_cases hk : k = pos.kind
    · subst hk
      rw [update_self, List.map_append, List.nodup_append]
      refine ⟨h.nodup _, List.nodup_singleton _, ?_⟩
      intro a ha b hb
      obtain ⟨q, hq, rfl⟩ := List.mem_map.mp ha
      have hlt : q.node < nodes := h.fresh hq
      simp only [List.map_cons, List.map_nil, List.mem_singleton] at hb
      omega
    · rw [update_of_ne hk]
      exact h.nodup k
  node_inj hq hq' heq := by
    rcases mem_pushBack.mp hq with hmem | ⟨hpos1, -⟩ <;>
      rcases mem_pushBack.mp hq' with hmem' | ⟨hpos2, -⟩
    · exact h.node_inj hmem hmem' heq
    · have := h.fresh hmem
      rw [heq, hpos2, hpos] at this
      omega
    · have := h.fresh hmem'
      rw [← heq, hpos1, hpos] at this
      omega
    · exact hpos1.trans hpos2.symm
  fresh hq := by
    rcases mem_pushBack.mp hq with hmem | ⟨hpos1, -⟩
    · have := h.fresh hmem
      omega
    · rw [hpos1, hpos]
      omega

/-! ## `erase` -/

theorem mem_erase_iff : q ∈ lists.erase pos k ↔ q ∈ lists k ∧ (k = pos.kind → q.node ≠ pos.node) := by
  unfold AvatarLists.erase
  by_cases hk : k = pos.kind
  · subst hk
    simp
  · simp [hk]

theorem holds_erase (h : ListsOk lists nodes) (hpos : lists.Holds pos) :
    (lists.erase pos).Holds q ↔ lists.Holds q ∧ q ≠ pos := by
  unfold AvatarLists.Holds at *
  rw [mem_erase_iff]
  refine and_congr_right fun hq => ⟨?_, ?_⟩
  · rintro hne rfl
    exact hne rfl rfl
  · intro hne _ hnode
    exact hne (h.node_inj hq hpos hnode)

theorem ListsOk.erase (h : ListsOk lists nodes) (pos : Pos) : ListsOk (lists.erase pos) nodes where
  kind_eq hq := h.kind_eq (mem_erase_iff.mp hq).1
  nodup k := by
    unfold AvatarLists.erase
    by_cases hk : k = pos.kind
    · subst hk
      rw [update_self]
      exact (h.nodup _).sublist (List.filter_sublist.map _)
    · rw [update_of_ne hk]
      exact h.nodup k
  node_inj hq hq' := h.node_inj (mem_erase_iff.mp hq).1 (mem_erase_iff.mp hq').1
  fresh hq := h.fresh (mem_erase_iff.mp hq).1

/-! ## `assign` -/

theorem mem_assign_iff (h : ListsOk lists nodes) (hold : lists.Holds old) (hkind : old.kind = pos.kind)
    (hnode : old.node = pos.node) :
    q ∈ lists.assign pos k ↔ q ∈ lists k ∧ q ≠ old ∨ q = pos ∧ k = pos.kind := by
  unfold AvatarLists.assign
  by_cases hk : k = pos.kind
  · subst hk
    unfold AvatarLists.Holds at hold
    rw [hkind] at hold
    simp only [update_self, List.mem_map, and_true]
    constructor
    · rintro ⟨q', hq', rfl⟩
      by_cases hq : q'.node = pos.node
      · exact .inr (if_pos hq)
      · rw [if_neg hq]
        refine .inl ⟨hq', ?_⟩
        rintro rfl
        exact hq hnode
    · rintro (⟨hq, hne⟩ | rfl)
      · refine ⟨q, hq, if_neg fun hq' => hne (h.node_inj hq hold (hq'.trans hnode.symm))⟩
      · exact ⟨old, hold, if_pos hnode⟩
  · rw [update_of_ne hk]
    refine ⟨fun hq => .inl ⟨hq, ?_⟩, ?_⟩
    · rintro rfl
      exact hk ((h.kind_eq hq).symm.trans hkind)
    · rintro (⟨hq, -⟩ | ⟨-, hk'⟩)
      · exact hq
      · exact absurd hk' hk

theorem holds_assign (h : ListsOk lists nodes) (hold : lists.Holds old) (hkind : old.kind = pos.kind)
    (hnode : old.node = pos.node) :
    (lists.assign pos).Holds q ↔ lists.Holds q ∧ q ≠ old ∨ q = pos := by
  unfold AvatarLists.Holds at *
  rw [mem_assign_iff h hold hkind hnode]
  refine or_congr_right ⟨fun h => h.1, ?_⟩
  rintro rfl
  exact ⟨rfl, rfl⟩

/-- The nodes of a list stay as they are. -/
theorem map_node_assign (lists : AvatarLists) (pos : Pos) (k : ℕ) :
    (lists.assign pos k).map Pos.node = (lists k).map Pos.node := by
  unfold AvatarLists.assign
  by_cases hk : k = pos.kind
  · subst hk
    rw [update_self, List.map_map]
    apply List.map_congr_left
    intro q _
    by_cases hq : q.node = pos.node <;> simp [hq]
  · rw [update_of_ne hk]

theorem ListsOk.assign (h : ListsOk lists nodes) (hold : lists.Holds old)
    (hkind : old.kind = pos.kind) (hnode : old.node = pos.node) :
    ListsOk (lists.assign pos) nodes where
  kind_eq hq := by
    rcases (mem_assign_iff h hold hkind hnode).mp hq with ⟨hq, -⟩ | ⟨rfl, rfl⟩
    · exact h.kind_eq hq
    · rfl
  nodup k := by
    rw [map_node_assign]
    exact h.nodup k
  node_inj hq hq' heq := by
    rcases (mem_assign_iff h hold hkind hnode).mp hq with ⟨hmem, hne⟩ | ⟨hpos, -⟩ <;>
      rcases (mem_assign_iff h hold hkind hnode).mp hq' with ⟨hmem', hne'⟩ | ⟨hpos', -⟩
    · exact h.node_inj hmem hmem' heq
    · refine absurd (h.node_inj hmem hold ?_) hne
      rw [heq, hpos', hnode]
    · refine absurd (h.node_inj hmem' hold ?_) hne'
      rw [← heq, hpos, hnode]
    · exact hpos.trans hpos'.symm
  fresh hq := by
    rcases (mem_assign_iff h hold hkind hnode).mp hq with ⟨hq, -⟩ | ⟨rfl, -⟩
    · exact h.fresh hq
    · rw [← hnode]
      exact h.fresh hold

end Oce.OnlineCenter
