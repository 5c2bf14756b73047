import Mathlib.Data.List.Perm.Basic
import Oce.Base.Run
import Oce.Buddy.Analysis.Updates

/-!
# The friend graph

Two users are related by at most one of seven relations, which both holders and the rows
describe. Three slips of the code break this, and `BuddyOp.KeepsGraph` is the condition that
none of them shows:

* `processHandler` looks up `relation.from` also in his own holder, where nobody is found,
  so that four of the operations act as if there were no relation;
* the second half of `addBlock` adds to the block list and not to the blocked list, which
  only a reload of that holder puts right;
* every load takes the second row of a `biBlock`, and all but one copy of any block row, for
  duplicates and schedules their deletion, which another load may do again before the statement runs.
-/

set_option autoImplicit false

namespace Oce.Buddy

open Oce.Base

namespace BuddyStore

/-- The cached holders of any two users and the rows describe one relation: each is in at
most one list of the other's holder, and the two lists mirror each other. -/
def Consistent (s : BuddyStore) : Prop := ∀ a b, a ≠ b → ∃ r, s.Related a b r

variable {s s' : BuddyStore} {a b x y : ℤ} {r : BuddyDesc}

/-! ## The operations, case by case -/

/-- An answer finds the relation, unless its own deletion of the request comes before the load. -/
theorem processHandler_answer {oper : Operation} (hoper : oper = .acceptApply ∨ oper = .denyApply)
    (h : s.Agrees x y r) (hcached : s.Cached x ∨ r ≠ .applied) :
    s.processHandler oper.state ⟨y, x⟩ =
      if s.desc x y = .noPath then (⟨.noPath, .noPath⟩, (s.located x).reload x)
      else if s.desc x y = .applied then
        (s.deleteBuddyApply y x).processHandleWithState oper.state ⟨y, x⟩ .applied
      else (⟨s.desc x y, s.desc x y⟩, s.located x) := by
  have hnot : ¬ (y = x ∧ (oper.state = .addApply ∨ oper.state = .addBlock)) := by
    rcases hoper with rfl | rfl <;> simp [Operation.state]
  have hlocal : localId oper.state ⟨y, x⟩ = x := by
    rcases hoper with rfl | rfl <;> rfl
  have hspecial : s.specialHandle oper.state ⟨y, x⟩ = s.deleteBuddyApply y x := by
    rcases hoper with rfl | rfl <;> rfl
  have hshows : (s.view x).Shows y (s.desc x y) := by
    rw [h.desc_eq]
    exact h.shows_view
  by_cases hr : r = .applied
  · subst hr
    have hc : s.Cached x := hcached.resolve_right fun hne => hne rfl
    have hd : s.desc x y = .applied := h.desc_eq.trans (if_pos hc)
    have hview : (s.deleteBuddyApply y x).view x = s.view x := by
      obtain ⟨holder, hholder⟩ := Option.isSome_iff_exists.mp hc
      have hsame : (s.deleteBuddyApply y x).cache x = some holder := hholder
      unfold view
      rw [hholder, hsame]
      rfl
    have hlocated : (s.deleteBuddyApply y x).located x = s.deleteBuddyApply y x := if_pos hc
    have hprocess : s.processHandler oper.state ⟨y, x⟩ = _ :=
      processHandler_eq hnot (by rw [hspecial, hlocal, hview]; exact hshows)
    rw [hprocess, hspecial, hlocal, hlocated, hd]
    rfl
  · have hdb : s.deleteBuddyApply y x = s :=
      congrArg (fun db => { s with db := db }) (h.rows.deleteBuddyApply_eq_self hr)
    have hd : s.desc x y ≠ .applied := by
      rw [h.desc_eq]
      split
      · exact hr
      · cases r <;> simp_all [BuddyDesc.loaded]
    have hprocess : s.processHandler oper.state ⟨y, x⟩ = _ :=
      processHandler_eq hnot (by rw [hspecial, hlocal, hdb]; exact hshows)
    rw [hprocess, hspecial, hlocal, hdb, if_neg hd]
    generalize s.desc x y = d at hd ⊢
    rcases hoper with rfl | rfl
    · cases d with
      | applied => exact absurd rfl hd
      | _ => rfl
    · cases d with
      | applied => exact absurd rfl hd
      | _ => rfl

end BuddyStore

namespace BuddyOp

open BuddyStore

/-- The user whose relation is looked up, and the other one. -/
def one (op : BuddyOp) : ℤ := localId op.oper.state op.relation
def other (op : BuddyOp) : ℤ := remoteId op.oper.state op.relation

/-- Whom the lookup loads. -/
def locates (s : BuddyStore) (op : BuddyOp) : List ℤ := s.locateLoads op.one

/-- Whom the operation loads after its statement, where it finds nobody under his own id. -/
def reloads (s : BuddyStore) (op : BuddyOp) : List ℤ :=
  match op.oper with
  | .addApply | .addBlock => s.askLoads op.relation.fromId op.relation.toId
  | .acceptApply | .denyApply =>
    match s.desc op.relation.toId op.relation.fromId with
    | .noPath => [op.relation.toId]
    | .applied => s.answerLoads op.relation.toId op.relation.fromId
    | _ => []
  | .removeFriend | .removeBlock => [op.relation.fromId]

/-- The database after the statement of the operation, as far as a cleanup reads it. -/
def blockAfter (s : BuddyStore) (op : BuddyOp) : BuddyDatabase :=
  if op.oper = .addBlock then s.db.insertBlock op.relation.fromId op.relation.toId else s.db

/-- The statements that are scheduled after the operation. -/
def pendingAfter (s : BuddyStore) (op : BuddyOp) : Rows :=
  s.scheduled ++ (op.locates s).flatMap s.db.cleanupRows ++
    (op.reloads s).flatMap (op.blockAfter s).cleanupRows

/-- The statements that are scheduled already and those of the operation's loads leave a copy of each
row between two users. -/
def SafeLoads (s : BuddyStore) (op : BuddyOp) : Prop :=
  BuddyDatabase.Outlasts (op.blockAfter s).block (op.pendingAfter s)

instance (s : BuddyStore) (op : BuddyOp) : Decidable (op.SafeLoads s) :=
  inferInstanceAs (Decidable (BuddyDatabase.Outlasts _ _))

/-- The loads are safe, and the operation answers a request that it does not delete before it loads the
holder that has it; or it finds nobody under his own id and: it removes; or it asks a user to whom
there is no relation yet, or only a request; or it blocks such a user, or one who is blocked already,
whose holder is loaded at the end. -/
def KeepsGraph (s : BuddyStore) (op : BuddyOp) : Prop :=
  op.SafeLoads s ∧
    match op.oper with
    | .acceptApply | .denyApply => s.Cached op.relation.toId ∨
        s.desc op.relation.toId op.relation.fromId ≠ .applied
    | .removeFriend | .removeBlock => s.desc op.relation.fromId op.relation.fromId = .noPath
    | .addApply => s.desc op.relation.fromId op.relation.fromId = .noPath ∧
        (s.desc op.relation.fromId op.relation.toId = .noPath ∨
          s.desc op.relation.fromId op.relation.toId = .apply)
    | .addBlock => s.desc op.relation.fromId op.relation.fromId = .noPath ∧
        (s.desc op.relation.fromId op.relation.toId = .noPath ∨
          s.desc op.relation.fromId op.relation.toId = .block) ∧
        s.OtherReloads op.relation.fromId op.relation.toId

instance (s : BuddyStore) (op : BuddyOp) : Decidable (op.KeepsGraph s) :=
  match op with
  | ⟨.acceptApply, _⟩ | ⟨.denyApply, _⟩ => inferInstanceAs (Decidable (_ ∧ (_ ∨ _ ≠ _)))
  | ⟨.removeFriend, _⟩ | ⟨.removeBlock, _⟩ => inferInstanceAs (Decidable (_ ∧ _ = _))
  | ⟨.addApply, _⟩ => inferInstanceAs (Decidable (_ ∧ _ = _ ∧ (_ = _ ∨ _ = _)))
  | ⟨.addBlock, _⟩ => inferInstanceAs (Decidable (_ ∧ _ = _ ∧ (_ = _ ∨ _ = _) ∧ OtherReloads _ _ _))

variable {s : BuddyStore} {op : BuddyOp} {oper : Operation} {u x y : ℤ} {r : BuddyDesc}

/-- Who is loaded after the statement is unpaired. -/
theorem SafeLoads.unpaired_reloads (h : op.SafeLoads s) (hu : u ∈ op.reloads s) :
    (op.blockAfter s).Unpaired u := by
  refine BuddyDatabase.Outlasts.unpaired h ?_ fun _ _ => rfl
  refine List.Sublist.trans ?_ (List.sublist_append_right _ _)
  exact List.sublist_flatten_of_mem (List.mem_map.mpr ⟨u, hu, rfl⟩)

/-- Who is loaded by the lookup is unpaired. -/
theorem SafeLoads.unpaired_locates (h : op.SafeLoads s) (hu : u ∈ op.locates s) : s.db.Unpaired u := by
  refine BuddyDatabase.Outlasts.unpaired h ?_ ?_
  · refine List.Sublist.trans ?_ (List.sublist_append_left _ _)
    refine List.Sublist.trans ?_ (List.sublist_append_right _ _)
    exact List.sublist_flatten_of_mem (List.mem_map.mpr ⟨u, hu, rfl⟩)
  · intro b hb
    unfold blockAfter
    split
    · rename_i hoper
      have hu' : u = op.relation.fromId := by
        unfold locates locateLoads at hu
        split at hu
        · cases hu
        · rw [List.mem_singleton.mp hu]
          unfold one
          rw [hoper]
          rfl
      have hne : (op.relation.fromId, op.relation.toId) ≠ (b, u) := by
        rw [hu'] at hb ⊢
        exact fun he => hb (Prod.mk.inj he).1.symm
      show (s.db.block ++ [_]).count (b, u) = _
      rw [List.count_append, List.count_singleton]
      simp [hne]
    · rfl

/-- **A lookup whose load is safe finds the relation.** -/
theorem SafeLoads.desc_eq {b : ℤ} (hsafe : op.SafeLoads s) (h : s.Agrees op.one b r)
    (hself : op.one = b → r = .noPath) : s.desc op.one b = r := by
  rw [h.desc_eq]
  split
  · rfl
  · rename_i hc
    have hunp : s.db.Unpaired op.one := by
      refine hsafe.unpaired_locates ?_
      unfold locates locateLoads
      rw [if_neg hc]
      simp
    by_cases he : op.one = b
    · rw [hself he]
      rfl
    · have hbi := h.rows.ne_biBlock he (.inl rfl) hunp
      cases r <;> simp_all [BuddyDesc.loaded]

/-- What an operation has written and scheduled. -/
def Leaves (s : BuddyStore) (op : BuddyOp) : Prop :=
  (op.step s).db.block = (op.blockAfter s).block ∧ (op.step s).scheduled = op.pendingAfter s

/-- The loads of an operation are safe exactly when every row outlasts what is scheduled then. -/
theorem Leaves.safeLoads_iff (h : op.Leaves s) :
    op.SafeLoads s ↔ ∀ a b, a ≠ b → (op.step s).Lasts a b := by
  unfold SafeLoads BuddyDatabase.Outlasts Lasts
  rw [h.1, h.2]
  exact ⟨fun h a b hab hmem => h (a, b) hmem hab, fun h row hmem hne => h row.1 row.2 hne hmem⟩

/-! ## The answers -/

theorem reloads_answer (hoper : oper = .acceptApply ∨ oper = .denyApply) :
    reloads s ⟨oper, ⟨y, x⟩⟩ = if s.desc x y = .noPath then [x]
      else if s.desc x y = .applied then s.answerLoads x y else [] := by
  rcases hoper with rfl | rfl
  · unfold reloads
    dsimp only
    cases s.desc x y <;> rfl
  · unfold reloads
    dsimp only
    cases s.desc x y <;> rfl

theorem one_answer (hoper : oper = .acceptApply ∨ oper = .denyApply) :
    (BuddyOp.mk oper ⟨y, x⟩).one = x ∧ (BuddyOp.mk oper ⟨y, x⟩).other = y ∧
      (BuddyOp.mk oper ⟨y, x⟩).blockAfter s = s.db := by
  rcases hoper with rfl | rfl
  · exact ⟨rfl, rfl, rfl⟩
  · exact ⟨rfl, rfl, rfl⟩

/-- The answer to a request that is there: its rows, what is scheduled, and the relation. -/
theorem answer_applied (hoper : oper = .acceptApply ∨ oper = .denyApply) (h : s.Agrees x y .applied)
    (hxy : x ≠ y) (hcached : s.Cached x) {after : OpState × BuddyStore}
    (hafter : (s.deleteBuddyApply y x).processHandleWithState oper.state ⟨y, x⟩ .applied = after) :
    after.2.db.block = s.db.block ∧
      after.2.scheduled = s.scheduled ++ (s.answerLoads x y).flatMap s.db.cleanupRows ∧
      ((∀ u ∈ s.answerLoads x y, s.db.Unpaired u) → Turns s after.2 x y after.1.second) := by
  subst hafter
  rcases hoper with rfl | rfl
  · have hloads := updateLoads_answer (s := (s.deleteBuddyApply y x).insertRelationBi y x)
      (.inl rfl) hcached hxy
    refine ⟨?_, ?_, turns_acceptApply h hxy hcached⟩
    · have hrows := congrArg BuddyDatabase.block (updateRelation_db
        (s := (s.deleteBuddyApply y x).insertRelationBi y x) .acceptApply ⟨y, x⟩)
      exact hrows
    · refine (updateRelation_scheduled .acceptApply ⟨y, x⟩).trans ?_
      rw [hloads]
      rfl
  · have hloads := updateLoads_answer (s := s.deleteBuddyApply y x) (.inr rfl) hcached hxy
    refine ⟨?_, ?_, turns_denyApply h hxy hcached⟩
    · have hrows := congrArg BuddyDatabase.block (updateRelation_db
        (s := s.deleteBuddyApply y x) .denyApply ⟨y, x⟩)
      exact hrows
    · refine (updateRelation_scheduled .denyApply ⟨y, x⟩).trans ?_
      rw [hloads]
      rfl

/-- **An answer** finds the relation and moves the pair to the second one of its result. -/
theorem step_answer (hoper : oper = .acceptApply ∨ oper = .denyApply) (h : s.Agrees x y r)
    (hxy : x = y → r = .noPath) (hcached : s.Cached x ∨ r ≠ .applied) :
    (BuddyOp.mk oper ⟨y, x⟩).Leaves s ∧
      ((BuddyOp.mk oper ⟨y, x⟩).result s).first = s.desc x y ∧
      ((BuddyOp.mk oper ⟨y, x⟩).SafeLoads s → Turns s (step s ⟨oper, ⟨y, x⟩⟩) x y
        ((BuddyOp.mk oper ⟨y, x⟩).result s).second) := by
  obtain ⟨hone, hother, hblock⟩ := one_answer (s := s) (x := x) (y := y) hoper
  have hprocess := processHandler_answer hoper h hcached
  have hlocates : (BuddyOp.mk oper ⟨y, x⟩).locates s = s.locateLoads x := by
    unfold locates
    rw [hone]
  have hdesc := h.desc_eq
  have hfound : (BuddyOp.mk oper ⟨y, x⟩).SafeLoads s → s.desc x y = r := by
    intro hsafe
    have hd := hsafe.desc_eq (b := y) (r := r) (by rw [hone]; exact h) (by rw [hone]; exact hxy)
    rwa [hone] at hd
  have hreloads := reloads_answer (s := s) (x := x) (y := y) hoper
  have hlocated : (BuddyOp.mk oper ⟨y, x⟩).SafeLoads s → ∀ u ∈ s.locateLoads x, s.db.Unpaired u := by
    intro hsafe u hu
    exact hsafe.unpaired_locates (by rw [hlocates]; exact hu)
  unfold Leaves pendingAfter result step
  rw [hprocess, hblock, hlocates, hreloads]
  by_cases hno : s.desc x y = .noPath
  · rw [if_pos hno, if_pos hno]
    refine ⟨⟨?_, ?_⟩, hno.symm, ?_⟩
    · exact congrArg BuddyDatabase.block located_db
    · show (s.located x).scheduled ++ (s.located x).db.cleanupRows x = _
      rw [located_scheduled, located_db]
      simp
    · intro hsafe
      have hr : r = .noPath := (hfound hsafe).symm.trans hno
      have hunp : s.db.Unpaired x := by
        have hmem : x ∈ (BuddyOp.mk oper ⟨y, x⟩).reloads s := by
          rw [hreloads, if_pos hno]
          simp
        have hun := hsafe.unpaired_reloads hmem
        rwa [hblock] at hun
      have hagrees := h.located hxy (hlocated hsafe)
      rw [hr] at hagrees
      refine Turns.after (turns_reload hagrees (fun _ => rfl) ?_)
        fun a b r hab hrel => hrel.located hab (hlocated hsafe)
      rw [located_db]
      exact hunp
  · rw [if_neg hno, if_neg hno]
    by_cases hap : s.desc x y = .applied
    · rw [if_pos hap, if_pos hap]
      have hr : r = .applied := by
        rw [hdesc] at hap
        split at hap
        · exact hap
        · cases r <;> simp_all [BuddyDesc.loaded]
      subst hr
      have hc : s.Cached x := hcached.resolve_right fun hne => hne rfl
      have hne : x ≠ y := by
        intro he
        cases hxy he
      have hnil : s.locateLoads x = [] := if_pos hc
      obtain ⟨hrows, hsched, hturns⟩ := answer_applied hoper h hne hc rfl
      refine ⟨⟨hrows, ?_⟩, ?_, ?_⟩
      · rw [hsched, hnil]
        simp
      · rw [hap]
        rcases hoper with rfl | rfl <;> rfl
      · intro hsafe
        refine hturns fun u hu => ?_
        have hmem : u ∈ (BuddyOp.mk oper ⟨y, x⟩).reloads s := by
          rw [hreloads, if_neg hno, if_pos hap]
          exact hu
        have hun := hsafe.unpaired_reloads hmem
        rwa [hblock] at hun
    · rw [if_neg hap, if_neg hap]
      refine ⟨⟨?_, ?_⟩, rfl, ?_⟩
      · exact congrArg BuddyDatabase.block located_db
      · rw [located_scheduled]
        simp
      · intro hsafe
        rw [hfound hsafe]
        exact Turns.after (turns_self (h.located hxy (hlocated hsafe)))
          fun a b r hab hrel => hrel.located hab (hlocated hsafe)

/-! ## The operations that look under the wrong id -/

/-- A removal sees no relation, and reloads. -/
theorem step_remove (hoper : oper = .removeFriend ∨ oper = .removeBlock) (h : s.Agrees x y r)
    (hxy : x = y → r = .noPath) (hown : (s.view x).Shows x .noPath) :
    (BuddyOp.mk oper ⟨x, y⟩).Leaves s ∧ (BuddyOp.mk oper ⟨x, y⟩).result s = ⟨.noPath, .noPath⟩ ∧
      ((BuddyOp.mk oper ⟨x, y⟩).SafeLoads s → Turns s (step s ⟨oper, ⟨x, y⟩⟩) x y r) := by
  have hprocess : s.processHandler oper.state ⟨x, y⟩ = (⟨.noPath, .noPath⟩, (s.located x).reload x) := by
    rcases hoper with rfl | rfl
    · exact processHandler_empty (by simp [Operation.state]) rfl rfl hown
    · exact processHandler_empty (by simp [Operation.state]) rfl rfl hown
  have hids : (BuddyOp.mk oper ⟨x, y⟩).locates s = s.locateLoads x ∧
      (BuddyOp.mk oper ⟨x, y⟩).reloads s = [x] ∧ (BuddyOp.mk oper ⟨x, y⟩).blockAfter s = s.db := by
    rcases hoper with rfl | rfl
    · exact ⟨rfl, rfl, rfl⟩
    · exact ⟨rfl, rfl, rfl⟩
  obtain ⟨hlocates, hreloads, hblock⟩ := hids
  have hstep : step s ⟨oper, ⟨x, y⟩⟩ = (s.located x).reload x := congrArg Prod.snd hprocess
  refine ⟨⟨?_, ?_⟩, congrArg Prod.fst hprocess, fun hsafe => ?_⟩
  · rw [hstep, hblock]
    exact congrArg BuddyDatabase.block located_db
  · unfold pendingAfter
    rw [hstep, hlocates, hreloads, hblock]
    show (s.located x).scheduled ++ (s.located x).db.cleanupRows x = _
    rw [located_scheduled, located_db]
    simp
  · have hlocated : ∀ u ∈ s.locateLoads x, s.db.Unpaired u :=
      fun u hu => hsafe.unpaired_locates (by rw [hlocates]; exact hu)
    have hunp : s.db.Unpaired x := by
      have hun := hsafe.unpaired_reloads (u := x) (by rw [hreloads]; simp)
      rwa [hblock] at hun
    rw [hstep]
    refine Turns.after (turns_reload (h.located hxy hlocated) hxy ?_)
      fun a b r hab hrel => hrel.located hab hlocated
    rw [located_db]
    exact hunp

/-- What an update loads is the same after the lookup. -/
theorem askLoads_located (hxy : x ≠ y) : (s.located x).askLoads x y = s.askLoads x y := by
  have hother : (s.located x).OtherReloads x y ↔ s.OtherReloads x y := by
    unfold OtherReloads stale
    rw [cache_located hxy.symm, located_home]
  unfold askLoads
  rw [located_home, caches_located hxy.symm, stale_located]
  simp only [hother]

/-- What a request or a block leaves, once its row is written. -/
theorem leaves_ask {t : BuddyStore} (hoper : oper = .addApply ∨ oper = .addBlock) (hxy : x ≠ y)
    (hstep : step s ⟨oper, ⟨x, y⟩⟩ = t.updateRelation ⟨x, y⟩ oper.state false) (hcached : t.Cached x)
    (hask : t.askLoads x y = (s.located x).askLoads x y)
    (hscheduled : t.scheduled = (s.located x).scheduled)
    (hblock : t.db.block = ((BuddyOp.mk oper ⟨x, y⟩).blockAfter s).block)
    (hclean : t.db.cleanupRows = ((BuddyOp.mk oper ⟨x, y⟩).blockAfter s).cleanupRows) :
    (BuddyOp.mk oper ⟨x, y⟩).Leaves s := by
  have hids : (BuddyOp.mk oper ⟨x, y⟩).locates s = s.locateLoads x ∧
      (BuddyOp.mk oper ⟨x, y⟩).reloads s = s.askLoads x y := by
    rcases hoper with rfl | rfl
    · exact ⟨rfl, rfl⟩
    · exact ⟨rfl, rfl⟩
  constructor
  · rw [hstep]
    exact (congrArg BuddyDatabase.block (updateRelation_db _ _)).trans hblock
  · rw [hstep]
    refine (updateRelation_scheduled oper ⟨x, y⟩).trans ?_
    unfold pendingAfter
    rw [updateLoads_ask hoper hcached hxy, hask, askLoads_located hxy, hclean, hscheduled,
      located_scheduled, hids.1, hids.2]

/-- A request asks as if there were no relation. -/
theorem step_addApply (h : s.Agrees x y r) (hxy : x ≠ y) (hown : (s.view x).Shows x .noPath) :
    (BuddyOp.mk .addApply ⟨x, y⟩).Leaves s ∧
      (BuddyOp.mk .addApply ⟨x, y⟩).result s = ⟨.noPath, .apply⟩ ∧
      ((BuddyOp.mk .addApply ⟨x, y⟩).SafeLoads s → r = .noPath ∨ r = .apply →
        Turns s (step s ⟨.addApply, ⟨x, y⟩⟩) x y .apply) := by
  have hprocess : s.processHandler .addApply ⟨x, y⟩ =
      (⟨.noPath, .apply⟩, ((s.located x).insertBuddyApply x y).cacheAddApply ⟨x, y⟩) :=
    processHandler_empty (by simp [hxy]) rfl rfl hown
  have hstep : step s ⟨.addApply, ⟨x, y⟩⟩ = ((s.located x).insertBuddyApply x y).cacheAddApply ⟨x, y⟩ :=
    congrArg Prod.snd hprocess
  have hdb : ((s.located x).insertBuddyApply x y).db = s.db.insertBuddyApply x y :=
    congrArg (BuddyDatabase.insertBuddyApply · x y) located_db
  refine ⟨leaves_ask (.inl rfl) hxy hstep cached_located rfl rfl
    ((congrArg BuddyDatabase.block hdb).trans rfl) ((congrArg BuddyDatabase.cleanupRows hdb).trans rfl),
    congrArg Prod.fst hprocess, fun hsafe hr => ?_⟩
  have hlocated : ∀ u ∈ s.locateLoads x, s.db.Unpaired u := fun u hu => hsafe.unpaired_locates hu
  rw [hstep]
  refine Turns.after (turns_addApply (h.located (fun he => absurd he hxy) hlocated) hxy hr
    cached_located ?_) fun a b r hab hrel => hrel.located hab hlocated
  rw [askLoads_located hxy, located_db]
  exact fun u hu => hsafe.unpaired_reloads hu

/-- A block blocks as if there were no relation. -/
theorem step_addBlock (h : s.Agrees x y r) (hxy : x ≠ y) (hown : (s.view x).Shows x .noPath) :
    (BuddyOp.mk .addBlock ⟨x, y⟩).Leaves s ∧
      (BuddyOp.mk .addBlock ⟨x, y⟩).result s = ⟨.noPath, .block⟩ ∧
      ((BuddyOp.mk .addBlock ⟨x, y⟩).SafeLoads s → r = .noPath ∨ r = .block → s.OtherReloads x y →
        Turns s (step s ⟨.addBlock, ⟨x, y⟩⟩) x y .block) := by
  have hprocess : s.processHandler .addBlock ⟨x, y⟩ =
      (⟨.noPath, .block⟩, ((s.located x).insertBlock x y).cacheAddBlock ⟨x, y⟩ false) :=
    processHandler_empty (by simp [hxy]) rfl rfl hown
  have hstep : step s ⟨.addBlock, ⟨x, y⟩⟩ = ((s.located x).insertBlock x y).cacheAddBlock ⟨x, y⟩ false :=
    congrArg Prod.snd hprocess
  have hdb : ((s.located x).insertBlock x y).db = s.db.insertBlock x y :=
    congrArg (BuddyDatabase.insertBlock · x y) located_db
  refine ⟨leaves_ask (.inr rfl) hxy hstep cached_located rfl rfl
    (congrArg BuddyDatabase.block hdb) (congrArg BuddyDatabase.cleanupRows hdb),
    congrArg Prod.fst hprocess, fun hsafe hr hother => ?_⟩
  have hlocated : ∀ u ∈ s.locateLoads x, s.db.Unpaired u := fun u hu => hsafe.unpaired_locates hu
  have hother' : (s.located x).OtherReloads x y := by
    unfold OtherReloads stale at hother ⊢
    rw [cache_located hxy.symm, located_home]
    exact hother
  rw [hstep]
  refine Turns.after (turns_addBlock (h.located (fun he => absurd he hxy) hlocated) hxy hr
    cached_located hother' ?_) fun a b r hab hrel => hrel.located hab hlocated
  rw [askLoads_located hxy, located_db]
  exact fun u hu => hsafe.unpaired_reloads hu

/-- **One operation** that meets the condition moves the pair and keeps the others. -/
theorem step_moves (hs : s.Consistent) (hne : op.relation.fromId ≠ op.relation.toId)
    (hkeeps : op.KeepsGraph s) : ∃ r, Moves s (op.step s) op.one op.other r := by
  obtain ⟨oper, ⟨x, y⟩⟩ := op
  obtain ⟨hsafe, hkeeps⟩ := hkeeps
  dsimp only at hne hkeeps
  have hmoves : ∀ {a b r}, (BuddyOp.mk oper ⟨x, y⟩).Leaves s → a ≠ b →
      Turns s (step s ⟨oper, ⟨x, y⟩⟩) a b r → Moves s (step s ⟨oper, ⟨x, y⟩⟩) a b r :=
    fun hleaves hab hturns => hturns.moves (fun he => absurd he hab) (hleaves.safeLoads_iff.mp hsafe)
  cases oper with
  | acceptApply =>
      obtain ⟨r, hr⟩ := hs y x hne.symm
      have hcached : s.Cached y ∨ r ≠ .applied := by
        refine hkeeps.imp_right fun hd hap => hd ?_
        rw [hr.desc_eq, hap]
        split <;> rfl
      obtain ⟨hleaves, -, hturns⟩ := step_answer (.inl rfl) hr.toAgrees (fun he => absurd he.symm hne) hcached
      exact ⟨_, hmoves hleaves hne.symm (hturns hsafe)⟩
  | denyApply =>
      obtain ⟨r, hr⟩ := hs y x hne.symm
      have hcached : s.Cached y ∨ r ≠ .applied := by
        refine hkeeps.imp_right fun hd hap => hd ?_
        rw [hr.desc_eq, hap]
        split <;> rfl
      obtain ⟨hleaves, -, hturns⟩ := step_answer (.inr rfl) hr.toAgrees (fun he => absurd he.symm hne) hcached
      exact ⟨_, hmoves hleaves hne.symm (hturns hsafe)⟩
  | removeFriend =>
      obtain ⟨r, hr⟩ := hs x y hne
      obtain ⟨hleaves, -, hturns⟩ := step_remove (.inl rfl) hr.toAgrees (fun he => absurd he hne)
        (shows_noPath_of_desc hkeeps)
      exact ⟨_, hmoves hleaves hne (hturns hsafe)⟩
  | removeBlock =>
      obtain ⟨r, hr⟩ := hs x y hne
      obtain ⟨hleaves, -, hturns⟩ := step_remove (.inr rfl) hr.toAgrees (fun he => absurd he hne)
        (shows_noPath_of_desc hkeeps)
      exact ⟨_, hmoves hleaves hne (hturns hsafe)⟩
  | addApply =>
      obtain ⟨r, hr⟩ := hs x y hne
      obtain ⟨hleaves, -, hturns⟩ := step_addApply hr.toAgrees hne (shows_noPath_of_desc hkeeps.1)
      have hdesc : s.desc x y = r := hsafe.desc_eq hr.toAgrees fun he => absurd he hne
      rw [hdesc] at hkeeps
      exact ⟨_, hmoves hleaves hne (hturns hsafe hkeeps.2)⟩
  | addBlock =>
      obtain ⟨r, hr⟩ := hs x y hne
      obtain ⟨hleaves, -, hturns⟩ := step_addBlock hr.toAgrees hne (shows_noPath_of_desc hkeeps.1)
      have hdesc : s.desc x y = r := hsafe.desc_eq hr.toAgrees fun he => absurd he hne
      rw [hdesc] at hkeeps
      exact ⟨_, hmoves hleaves hne (hturns hsafe hkeeps.2.1 hkeeps.2.2)⟩

end BuddyOp

/-! ## Runs -/

namespace BuddyStore

variable {s s' : BuddyStore} {a b x y : ℤ} {r : BuddyDesc}

/-- A move leaves a consistent store. -/
theorem Moves.consistent (h : Moves s s' x y r) (hs : s.Consistent) : s'.Consistent := by
  intro a b hab
  by_cases hxy : a = x ∧ b = y
  · rw [hxy.1, hxy.2]
    exact ⟨r, h.pair⟩
  · by_cases hyx : a = y ∧ b = x
    · rw [hyx.1, hyx.2]
      exact ⟨_, h.pair.symm⟩
    · obtain ⟨ra, hra⟩ := hs a b hab
      exact ⟨ra, h.related a b ra ⟨hxy, hyx⟩ (fun he => absurd he hab) hra⟩

/-- A statement that runs takes a copy of a row and is scheduled no more, so a row that outlasts the
scheduled statements is still there and does so again. -/
theorem Lasts.delete {place : ℕ} {row : ℤ × ℤ} (hrow : s.scheduled[place]? = some row)
    (h : s.Lasts a b) : ((a, b) ∈ s.db.block.erase row ↔ (a, b) ∈ s.db.block) ∧
      ((a, b) ∈ s.db.block.erase row →
        (s.scheduled.eraseIdx place).count (a, b) < (s.db.block.erase row).count (a, b)) := by
  by_cases he : row = (a, b)
  · subst he
    have hlt : place < s.scheduled.length := by
      by_contra hge
      rw [List.getElem?_eq_none (by omega)] at hrow
      cases hrow
    have hget : s.scheduled[place] = (a, b) := by
      rw [List.getElem?_eq_getElem hlt] at hrow
      exact Option.some_inj.mp hrow
    have hcount : s.scheduled.count (a, b) = (s.scheduled.eraseIdx place).count (a, b) + 1 := by
      have hperm := (List.getElem_cons_eraseIdx_perm hlt).count_eq (a, b)
      rw [hget, List.count_cons_self] at hperm
      exact hperm.symm
    have herase : (s.db.block.erase (a, b)).count (a, b) = s.db.block.count (a, b) - 1 :=
      List.count_erase_self
    rw [← List.count_pos_iff, ← List.count_pos_iff, herase]
    unfold Lasts at h
    rw [← List.count_pos_iff] at h
    constructor
    · constructor
      · omega
      · intro hpos
        have := h hpos
        omega
    · intro hpos
      have := h (by omega)
      omega
  · rw [List.mem_erase_of_ne (Ne.symm he), List.count_erase_of_ne (Ne.symm he)]
    refine ⟨Iff.rfl, fun hmem => ?_⟩
    have hle := (List.eraseIdx_sublist s.scheduled place).count_le (a, b)
    have hlt := h hmem
    omega

/-- **The run of a scheduled statement keeps every pair.** -/
theorem Related.delete (h : s.Related a b r) (place : ℕ) :
    (BuddyEvent.step s (.delete place)).Related a b r := by
  cases hrow : s.scheduled[place]? with
  | none =>
      have hdelete : s.toCleanupState.step (.delete place) = s.toCleanupState := by
        unfold CleanupState.step
        dsimp only
        rw [hrow]
      have hstep : BuddyEvent.step s (.delete place) = s := congrArg (BuddyStore.mk · s.home s.caches) hdelete
      rw [hstep]
      exact h
  | some row =>
      have hdelete : s.toCleanupState.step (.delete place) =
          ⟨{ s.db with block := s.db.block.erase row }, s.scheduled.eraseIdx place⟩ := by
        unfold CleanupState.step
        dsimp only
        rw [hrow]
      have hstep : BuddyEvent.step s (.delete place) =
          ⟨⟨{ s.db with block := s.db.block.erase row }, s.scheduled.eraseIdx place⟩, s.home, s.caches⟩ :=
        congrArg (BuddyStore.mk · s.home s.caches) hdelete
      obtain ⟨hmem, hlasts⟩ := h.one_lasts.delete hrow
      obtain ⟨hmem', hlasts'⟩ := h.other_lasts.delete hrow
      rw [hstep]
      refine ⟨⟨h.ne_self, h.one, h.other, ⟨?_, ?_⟩⟩, hlasts, hlasts'⟩
      · exact ⟨hmem.trans h.rows.1.block, h.rows.1.friend, h.rows.1.applicant, h.rows.1.accepter⟩
      · exact ⟨hmem'.trans h.rows.2.block, h.rows.2.friend, h.rows.2.applicant, h.rows.2.accepter⟩

end BuddyStore

/-- The condition is on the operations; a scheduled statement may run at any time. -/
def BuddyEvent.KeepsGraph (s : BuddyStore) : BuddyEvent → Prop
  | .call op => op.KeepsGraph s
  | .delete _ => True

instance (s : BuddyStore) (ev : BuddyEvent) : Decidable (ev.KeepsGraph s) :=
  match ev with
  | .call op => inferInstanceAs (Decidable (op.KeepsGraph s))
  | .delete _ => inferInstanceAs (Decidable True)

open BuddyStore

namespace BuddyStore

variable {s : BuddyStore} {a b : ℤ} {r : BuddyDesc}

/-- Holders that are as the loader makes them, with nothing scheduled, show what the rows do. -/
theorem related_of_created (hcreated : ∀ a, ∀ h ∈ s.cache a, h.hbr = s.db.create a)
    (hscheduled : s.scheduled = []) (hrows : s.db.RowsShow a b r) (hself : r ≠ .self)
    (hbi : r ≠ .biBlock) : s.Related a b r := by
  have hlasts : ∀ a b, s.Lasts a b := by
    intro a b hmem
    rw [hscheduled]
    exact List.count_pos_iff.mpr hmem
  have hmirror : r.mirror ≠ .self ∧ r.mirror ≠ .biBlock := by
    cases r <;> simp_all [BuddyDesc.mirror]
  refine ⟨⟨hself, fun holder hmem => ?_, fun holder hmem => ?_, hrows⟩, hlasts a b, hlasts b a⟩
  · rw [hcreated a holder hmem]
    exact BuddyDatabase.shows_create hrows hself hbi
  · rw [hcreated b holder hmem]
    exact BuddyDatabase.shows_create hrows.symm hmirror.1 hmirror.2

theorem related_loaded {db : BuddyDatabase} {users : List ℤ} (hrows : db.RowsShow a b r)
    (hself : r ≠ .self) (hbi : r ≠ .biBlock) : (loaded db users).Related a b r := by
  refine related_of_created ?_ rfl hrows hself hbi
  intro a holder hmem
  unfold cache loaded at hmem
  dsimp only at hmem
  split at hmem
  · cases hmem
    rfl
  · cases hmem

/-- Two copies of one block row. -/
def blockedTwice : BuddyDatabase := ⟨[(3, 1), (3, 1)], [], [], []⟩

/-- The rows show a relation for any two users. -/
theorem rowsShow_blockedTwice (a b : ℤ) : ∃ r, r ≠ .self ∧ r ≠ .biBlock ∧ (a = b → r = .noPath) ∧
    blockedTwice.RowsShow a b r := by
  by_cases hone : a = 3 ∧ b = 1
  · obtain ⟨rfl, rfl⟩ := hone
    refine ⟨.block, by decide, by decide, by decide, ⟨⟨?_, ?_, ?_, ?_⟩, ⟨?_, ?_, ?_, ?_⟩⟩⟩ <;> decide
  · by_cases hother : a = 1 ∧ b = 3
    · obtain ⟨rfl, rfl⟩ := hother
      refine ⟨.blocked, by decide, by decide, by decide, ⟨⟨?_, ?_, ?_, ?_⟩, ⟨?_, ?_, ?_, ?_⟩⟩⟩ <;> decide
    · have hswap : ¬ (b = 3 ∧ a = 1) := fun ⟨hb, ha⟩ => hother ⟨ha, hb⟩
      refine ⟨.noPath, by decide, by decide, fun _ => rfl, ⟨⟨?_, ?_, ?_, ?_⟩, ⟨?_, ?_, ?_, ?_⟩⟩⟩ <;>
        simp [blockedTwice, hone, hswap, BuddyDesc.mirror]

theorem consistent_blockedTwice (users : List ℤ) : (loaded blockedTwice users).Consistent := by
  intro a b _
  obtain ⟨r, hself, hbi, -, hrows⟩ := rowsShow_blockedTwice a b
  exact ⟨r, related_loaded hrows hself hbi⟩

end BuddyStore

theorem related_strangers (users : List ℤ) (a b : ℤ) :
    (loaded ⟨[], [], [], []⟩ users).Related a b .noPath := by
  refine related_loaded ⟨⟨?_, ?_, ?_, ?_⟩, ⟨?_, ?_, ?_, ?_⟩⟩ (by decide) (by decide) <;>
    simp [BuddyDesc.mirror]

end Oce.Buddy
