import Oce.OnlineCenter.Model.UserPool

/-!
# What a user knows of its avatars

`Settled u` is the invariant of one user: it has avatars, each of a kind that the pool takes,
and its type and status are those of the avatars. `add`, `remove` and `removeEndpoint` keep
it, as long as an avatar is left. What they leave of the avatars is stated beside it.
-/

set_option autoImplicit false

namespace Oce.OnlineCenter

open Oce.Base Oce.TalkCommon

variable {u : User} {lists : AvatarLists} {pos old : Pos} {index : ℤ}

/-! ## Type and status -/

/-- The avatars of a user are of kinds that `add` takes. -/
def User.Accepted (u : User) : Prop :=
  ∀ i pos, u.avatars.find i = some pos → User.accepts pos.avatar.jid

/-- SOURCE: User.cpp:66-98 -/
structure User.Settled (u : User) : Prop where
  nonempty : u.avatars.entries ≠ []
  accepted : u.Accepted
  type_eq : u.onlineType = User.unionOfTypes u.avatars.values
  stat_eq : u.onlineStat = User.leastStat u.avatars.values

namespace User

@[simp] theorem avatars_update (u : User) : u.updateOnlineStatAndOnlineType.avatars = u.avatars := rfl

theorem settled_update (h : u.avatars.entries ≠ []) (hacc : u.Accepted) :
    u.updateOnlineStatAndOnlineType.Settled :=
  ⟨h, hacc, rfl, rfl⟩

/-- The kind that `add` checks and the kind of the list are the same. -/
theorem typeOf_eq (h : accepts pos.avatar.jid) : typeOf pos = pos.kind := by
  unfold accepts at h
  unfold typeOf Pos.kind onlineTypeFromJid
  split_ifs at h
  split at h <;> simp_all

theorem unionOfTypes_aux (l : List Pos) (t : ℕ) (h : ∀ pos ∈ l, accepts pos.avatar.jid) :
    l.foldl (fun t pos => t ||| typeOf pos) t = (l.map Pos.kind).foldl (· ||| ·) t := by
  induction l generalizing t with
  | nil => rfl
  | cons pos l ih =>
      rw [List.foldl_cons, List.map_cons, List.foldl_cons, typeOf_eq (h pos (by simp))]
      exact ih _ fun q hq => h q (List.mem_cons_of_mem _ hq)

/-- The type is the union of the kinds of the avatars. -/
theorem Settled.type_kinds (h : u.Settled) :
    u.onlineType = (u.avatars.values.map Pos.kind).foldl (· ||| ·) unknowType := by
  rw [h.type_eq]
  apply unionOfTypes_aux
  intro q hq
  obtain ⟨i, hi⟩ := OrdMap.mem_values_iff.mp hq
  exact h.accepted i q hi

theorem val_le_five (s : OnlineStat) : s.val ≤ 5 := by
  cases s <;> decide

/-- The fold finds a least state. -/
theorem leastStat_aux (l : List Pos) (s : OnlineStat) :
    let r := l.foldl (fun s pos => if pos.avatar.stat.val < s.val then pos.avatar.stat else s) s
    (r = s ∨ ∃ pos ∈ l, pos.avatar.stat = r) ∧ r.val ≤ s.val ∧ ∀ pos ∈ l, r.val ≤ pos.avatar.stat.val := by
  induction l generalizing s with
  | nil => simp
  | cons pos l ih =>
      simp only [List.foldl_cons]
      obtain ⟨hfrom, hle, hall⟩ := ih (if pos.avatar.stat.val < s.val then pos.avatar.stat else s)
      by_cases hlt : pos.avatar.stat.val < s.val
      · simp only [if_pos hlt] at hfrom hle hall ⊢
        refine ⟨.inr ?_, by omega, ?_⟩
        · rcases hfrom with heq | ⟨q, hq, heq⟩
          · exact ⟨pos, by simp, heq.symm⟩
          · exact ⟨q, List.mem_cons_of_mem _ hq, heq⟩
        · intro q hq
          rcases List.mem_cons.mp hq with rfl | hq
          · exact hle
          · exact hall q hq
      · simp only [if_neg hlt] at hfrom hle hall ⊢
        refine ⟨?_, hle, ?_⟩
        · rcases hfrom with heq | ⟨q, hq, heq⟩
          · exact .inl heq
          · exact .inr ⟨q, List.mem_cons_of_mem _ hq, heq⟩
        · intro q hq
          rcases List.mem_cons.mp hq with rfl | hq
          · omega
          · exact hall q hq

/-- No avatar has a lower status than the user. -/
theorem Settled.stat_le (h : u.Settled) (hpos : pos ∈ u.avatars.values) :
    u.onlineStat.val ≤ pos.avatar.stat.val := by
  rw [h.stat_eq]
  exact (leastStat_aux u.avatars.values .online).2.2 pos hpos

/-- Some avatar has the status of the user. -/
theorem Settled.stat_mem (h : u.Settled) :
    ∃ pos ∈ u.avatars.values, pos.avatar.stat = u.onlineStat := by
  rw [h.stat_eq]
  obtain ⟨hfrom, -, hall⟩ := leastStat_aux u.avatars.values .online
  rcases hfrom with hfrom | hfrom
  · -- a user with all its avatars online
    obtain ⟨e, he⟩ := List.exists_mem_of_ne_nil _ h.nonempty
    have hmem : e.2 ∈ u.avatars.values := List.mem_map_of_mem he
    refine ⟨e.2, hmem, ?_⟩
    have hle := hall e.2 hmem
    unfold leastStat
    rw [hfrom] at hle ⊢
    cases hs : e.2.avatar.stat <;> rw [hs] at hle <;> revert hle <;> decide
  · exact hfrom

/-! ## `add` -/

/-- What is at the index of an avatar that is added. -/
def added (u : User) (pos : Pos) : Pos :=
  match u.avatars.find pos.avatar.jid.index with
  | some old => inherit pos old
  | none => pos

theorem added_eq (u : User) (pos : Pos) : (u.added pos).node = pos.node ∧ (u.added pos).avatar.jid = pos.avatar.jid := by
  unfold added
  split <;> exact ⟨rfl, rfl⟩

theorem add_refused (h : accepts pos.avatar.jid = false) : u.add lists pos = (false, lists, u) := by
  unfold add
  simp [h]

theorem add_success (h : accepts pos.avatar.jid) : (u.add lists pos).1 = true := by
  unfold add
  simp only [h, if_true]
  split <;> rfl

theorem add_user (h : accepts pos.avatar.jid) :
    (u.add lists pos).2.2 = ({ u with avatars := u.avatars.insert pos.avatar.jid.index (u.added pos) } :
      User).updateOnlineStatAndOnlineType := by
  unfold add added
  simp only [h, if_true]
  cases u.avatars.find pos.avatar.jid.index <;> rfl

theorem add_lists_new (h : accepts pos.avatar.jid) (hfind : u.avatars.find pos.avatar.jid.index = none) :
    (u.add lists pos).2.1 = lists := by
  unfold add
  simp only [h, if_true, hfind]

theorem add_lists_replaced (h : accepts pos.avatar.jid)
    (hfind : u.avatars.find pos.avatar.jid.index = some old) :
    (u.add lists pos).2.1 = (lists.assign (u.added pos)).erase old := by
  unfold add added
  simp only [h, if_true, hfind]

theorem find_add (h : accepts pos.avatar.jid) (i : ℤ) :
    (u.add lists pos).2.2.avatars.find i =
      if i = pos.avatar.jid.index then some (u.added pos) else u.avatars.find i := by
  rw [add_user h, avatars_update, OrdMap.find_insert]

/-- A user with an entry has entries. -/
theorem nonempty_of_find (h : u.avatars.find index = some pos) : u.avatars.entries ≠ [] := by
  intro hnil
  rw [OrdMap.find_eq_none_of_nil hnil] at h
  cases h

theorem settled_add (h : accepts pos.avatar.jid) (hu : u.Accepted) :
    (u.add lists pos).2.2.Settled := by
  have hfind (i : ℤ) : (u.add lists pos).2.2.avatars.find i =
      if i = pos.avatar.jid.index then some (u.added pos) else u.avatars.find i := find_add h i
  rw [add_user h] at hfind ⊢
  refine settled_update ?_ ?_
  · exact nonempty_of_find (u := ({ u with avatars := _ } : User)) (OrdMap.find_insert_self _ _ _)
  · intro i q hq
    have hq' := (hfind i).symm.trans hq
    by_cases hi : i = pos.avatar.jid.index
    · rw [if_pos hi] at hq'
      cases hq'
      rw [(added_eq u pos).2]
      exact h
    · rw [if_neg hi] at hq'
      exact hu i q hq'

theorem accepted_new : new.Accepted := by
  intro i pos h
  cases h

/-! ## `remove` -/

/-- What `remove` does at an index with an avatar. -/
theorem remove_found (h : u.avatars.find index = some pos) :
    u.remove lists index = (lists.erase pos,
      if (u.avatars.erase index).entries.isEmpty then { u with avatars := u.avatars.erase index }
      else ({ u with avatars := u.avatars.erase index } : User).updateOnlineStatAndOnlineType) := by
  unfold remove
  rw [h]

theorem remove_absent (h : u.avatars.find index = none) : u.remove lists index = (lists, u) := by
  unfold remove
  rw [h]

/-- The avatars that `remove` leaves. -/
theorem avatars_remove (u : User) (lists : AvatarLists) (index : ℤ) :
    (u.remove lists index).2.avatars = u.avatars.erase index := by
  cases h : u.avatars.find index with
  | none =>
      rw [remove_absent h]
      apply OrdMap.ext
      symm
      unfold OrdMap.erase
      apply List.filter_eq_self.mpr
      rintro ⟨i, q⟩ he
      have hi : u.avatars.find i = some q := u.avatars.mem_entries_iff.mp he
      refine decide_eq_true ?_
      rintro rfl
      rw [h] at hi
      cases hi
  | some pos =>
      rw [remove_found h]
      dsimp only
      split_ifs <;> rfl

theorem Accepted.remove (h : u.Accepted) (lists : AvatarLists) (index : ℤ) :
    (u.remove lists index).2.Accepted := by
  intro i q hq
  rw [avatars_remove, OrdMap.find_erase] at hq
  split_ifs at hq
  exact h i q hq

/-- A user that has an avatar left is settled. -/
theorem Settled.remove (h : u.Settled) (hleft : (u.remove lists index).2.avatars.entries ≠ []) :
    (u.remove lists index).2.Settled := by
  have hacc := h.accepted.remove lists index
  cases hfind : u.avatars.find index with
  | none =>
      rw [remove_absent hfind]
      exact h
  | some pos =>
      rw [avatars_remove] at hleft
      rw [remove_found hfind] at hacc ⊢
      rw [if_neg (by simpa using hleft)] at hacc ⊢
      exact settled_update hleft hacc

/-! ## `removeEndpoint` -/

/-- The loop takes the avatars at the endpoint out of the user. -/
theorem avatars_foldl_removeAt (endpoint : String) (l : List (ℤ × Pos)) (s : AvatarLists × User) :
    (l.foldl (removeAt endpoint) s).2.avatars.entries =
      s.2.avatars.entries.filter fun e => ¬ ∃ e' ∈ l, e'.1 = e.1 ∧ e'.2.avatar.jid.endpoint = endpoint := by
  induction l generalizing s with
  | nil => simp
  | cons e l ih =>
      rw [List.foldl_cons, ih]
      unfold removeAt
      by_cases hend : e.2.avatar.jid.endpoint = endpoint
      · simp only [hend, ne_eq, not_true_eq_false, if_false, OrdMap.erase, List.filter_filter]
        apply List.filter_congr
        intro e' _
        simp only [List.mem_cons, exists_eq_or_imp, hend, and_true, not_or, ← Bool.decide_and,
          decide_eq_decide]
        exact and_comm.trans (and_congr_left fun _ => ne_comm)
      · simp only [hend, ne_eq, not_false_eq_true, if_true, List.mem_cons, exists_eq_or_imp,
          and_false, false_or]

/-- The avatars that `removeEndpoint` leaves. -/
theorem avatars_removeEndpoint (u : User) (lists : AvatarLists) (endpoint : String) :
    (u.removeEndpoint lists endpoint).2.avatars.entries =
      u.avatars.entries.filter fun e => e.2.avatar.jid.endpoint ≠ endpoint := by
  have havatars : (u.removeEndpoint lists endpoint).2.avatars =
      (u.avatars.entries.foldl (removeAt endpoint) (lists, u)).2.avatars := by
    unfold removeEndpoint
    dsimp only
    split_ifs <;> rfl
  rw [havatars, avatars_foldl_removeAt]
  apply List.filter_congr
  rintro ⟨i, q⟩ he
  have hq : u.avatars.find i = some q := u.avatars.mem_entries_iff.mp he
  simp only [decide_eq_decide, not_exists, not_and, Prod.forall]
  constructor
  · intro h
    exact h i q he rfl
  · intro h i' q' he' hi
    subst hi
    have hq' : u.avatars.find i' = some q' := u.avatars.mem_entries_iff.mp he'
    rw [hq] at hq'
    cases hq'
    exact h

theorem find_removeEndpoint (u : User) (lists : AvatarLists) (endpoint : String) (i : ℤ) (q : Pos) :
    (u.removeEndpoint lists endpoint).2.avatars.find i = some q ↔
      u.avatars.find i = some q ∧ q.avatar.jid.endpoint ≠ endpoint := by
  rw [← OrdMap.mem_entries_iff, avatars_removeEndpoint, List.mem_filter, OrdMap.mem_entries_iff]
  simp

/-- A user that has an avatar left is settled. -/
theorem Settled.removeEndpoint {endpoint : String} (h : u.Settled)
    (hleft : (u.removeEndpoint lists endpoint).2.avatars.entries ≠ []) :
    (u.removeEndpoint lists endpoint).2.Settled := by
  have hacc : (u.removeEndpoint lists endpoint).2.Accepted := by
    intro i q hq
    exact h.accepted i q ((find_removeEndpoint u lists endpoint i q).mp hq).1
  unfold User.removeEndpoint at hleft hacc ⊢
  dsimp only at hleft hacc ⊢
  by_cases hnil : (u.avatars.entries.foldl (removeAt endpoint) (lists, u)).2.avatars.entries = []
  · rw [if_pos (by simpa using hnil)] at hleft
    exact absurd hnil hleft
  · rw [if_neg (by simpa using hnil)] at hacc ⊢
    exact settled_update hnil hacc

end User

end Oce.OnlineCenter
