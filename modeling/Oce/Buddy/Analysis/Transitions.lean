import Oce.Buddy.Analysis.FriendGraph

/-!
# The transitions of the friend state machine

`Operation.next` is the relation that the interface documents after an operation, as the
user sees it who is looked up. An operation that does so, returns the relation before and
after, and keeps every other pair is `Documented`. `TransitionsRight` is exactly when the
code does: the four operations that look up `relation.from` under his own id see no
relation, so they are right only where there is none, `addBlock` moreover only where the
other holder is loaded at the end; an answer deletes the request before it loads the holder that
has it; and no load may have the last copy of a row deleted.
-/

set_option autoImplicit false

namespace Oce.Buddy

open Oce.Base BuddyStore

/-- The relation after an operation. SOURCE: cache/BuddyI.h:24-243, the interface comments -/
def Operation.next : Operation → BuddyDesc → BuddyDesc
  | addApply, .noPath => .apply
  | addApply, .block => .apply
  | addApply, .applied => .friend
  | addApply, .biBlock => .blocked
  | addApply, r => r
  | acceptApply, .applied => .friend
  | acceptApply, r => r
  | denyApply, .applied => .noPath
  | denyApply, r => r
  | removeFriend, .friend => .noPath
  | removeFriend, r => r
  | addBlock, .blocked => .biBlock
  | addBlock, .biBlock => .biBlock
  | addBlock, _ => .block
  | removeBlock, .block => .noPath
  | removeBlock, .biBlock => .blocked
  | removeBlock, r => r

namespace BuddyStore

/-- A consistent state of all relations, cached or not, where nobody is related to himself. -/
def AllRelated (s : BuddyStore) : Prop := ∀ a b, ∃ r, s.Related a b r ∧ (a = b → r = .noPath)

variable {s s' : BuddyStore} {x y : ℤ} {r r' : BuddyDesc}

theorem AllRelated.shows_self (hs : s.AllRelated) (x : ℤ) : (s.view x).Shows x .noPath := by
  obtain ⟨r, hr, hself⟩ := hs x x
  have hshows := hr.shows_view
  rw [hself rfl] at hshows
  simpa [BuddyDesc.loaded] using hshows

/-- Nobody is related to himself. -/
theorem AllRelated.eq_noPath (hs : s.AllRelated) (hr : s.Related x y r) (hxy : x = y) :
    r = .noPath := by
  subst hxy
  obtain ⟨r', hr', hself⟩ := hs x x
  have hrows := hr'.rows.1
  rw [hself rfl] at hrows
  have hblock := hrows.block.symm.trans hr.rows.1.block
  have hfriend := hrows.friend.symm.trans hr.rows.1.friend
  have happlicant := hrows.applicant.symm.trans hr.rows.1.applicant
  have happlicant' := hrows.applicant.symm.trans hr.rows.2.applicant
  have hblock' := hrows.block.symm.trans hr.rows.2.block
  have hne := hr.ne_self
  cases r <;> simp_all [BuddyDesc.mirror]

/-- Where every pair is kept or moved, all rows outlast what is scheduled. -/
theorem Moves.lasts (hmoves : Moves s s' x y r) (hs : s.AllRelated) (a b : ℤ) (hab : a ≠ b) :
    s'.Lasts a b := by
  by_cases hxy : a = x ∧ b = y
  · rw [hxy.1, hxy.2]
    exact hmoves.pair.one_lasts
  · by_cases hyx : a = y ∧ b = x
    · rw [hyx.1, hyx.2]
      exact hmoves.pair.other_lasts
    · obtain ⟨ra, hra, -⟩ := hs a b
      exact (hmoves.related a b ra ⟨hxy, hyx⟩ (fun he => absurd he hab) hra).one_lasts

end BuddyStore

namespace BuddyOp

/-- A user asks or blocks himself, which is refused. -/
def Refused (op : BuddyOp) : Prop :=
  op.relation.fromId = op.relation.toId ∧ (op.oper = .addApply ∨ op.oper = .addBlock)

instance (op : BuddyOp) : Decidable op.Refused :=
  inferInstanceAs (Decidable (_ ∧ (_ ∨ _)))

/-- The result and the relation afterwards. -/
def documented (op : BuddyOp) (r : BuddyDesc) : OpState × BuddyDesc :=
  if op.Refused then (⟨.noPath, .self⟩, r) else (⟨r, op.oper.next r⟩, op.oper.next r)

/-- The operation returns and does what is documented, and keeps every other pair. -/
def Documented (s : BuddyStore) (op : BuddyOp) (r : BuddyDesc) : Prop :=
  op.result s = (op.documented r).1 ∧ Moves s (op.step s) op.one op.other (op.documented r).2

/-- The operation is refused; or its loads are safe, and it answers a request that it does not delete
before it loads the holder that has it, or finds two users without a relation; an `addBlock` moreover
loads the holder of the blocked user at the end. -/
def TransitionsRight (s : BuddyStore) (op : BuddyOp) : Prop :=
  op.Refused ∨ op.SafeLoads s ∧
    match op.oper with
    | .acceptApply | .denyApply => s.Cached op.relation.toId ∨
        s.desc op.relation.toId op.relation.fromId ≠ .applied
    | .addApply | .removeFriend | .removeBlock =>
        s.desc op.relation.fromId op.relation.toId = .noPath
    | .addBlock => s.desc op.relation.fromId op.relation.toId = .noPath ∧
        s.OtherReloads op.relation.fromId op.relation.toId

instance (s : BuddyStore) (op : BuddyOp) : Decidable (op.TransitionsRight s) :=
  match op with
  | ⟨.acceptApply, _⟩ | ⟨.denyApply, _⟩ => inferInstanceAs (Decidable (_ ∨ _ ∧ (_ ∨ _ ≠ _)))
  | ⟨.removeFriend, _⟩ | ⟨.removeBlock, _⟩ | ⟨.addApply, _⟩ => inferInstanceAs (Decidable (_ ∨ _ ∧ _ = _))
  | ⟨.addBlock, _⟩ => inferInstanceAs (Decidable (_ ∨ _ ∧ _ = _ ∧ OtherReloads _ _ _))

variable {s t : BuddyStore} {op : BuddyOp} {oper : Operation} {x y : ℤ} {r : BuddyDesc}

/-- What the loader makes of a relation is none only where there is none. -/
theorem desc_eq_noPath (h : s.Agrees x y r) : s.desc x y = .noPath ↔ r = .noPath := by
  rw [h.desc_eq]
  split
  · rfl
  · cases r <;> simp [BuddyDesc.loaded]

theorem desc_eq_applied (h : s.Agrees x y r) : s.desc x y = .applied ↔ r = .applied := by
  rw [h.desc_eq]
  split
  · rfl
  · cases r <;> simp [BuddyDesc.loaded]

/-! ## The operations -/

/-- A request of one user to another. -/
theorem documented_addApply (hs : s.AllRelated) (hr : s.Related x y r) (hxy : x ≠ y) :
    (BuddyOp.mk .addApply ⟨x, y⟩).Documented s r ↔
      (BuddyOp.mk .addApply ⟨x, y⟩).TransitionsRight s := by
  have hnot : ¬ (BuddyOp.mk .addApply ⟨x, y⟩).Refused := fun href => hxy href.1
  have hdoc : (BuddyOp.mk .addApply ⟨x, y⟩).documented r =
      (⟨r, Operation.next .addApply r⟩, Operation.next .addApply r) := if_neg hnot
  obtain ⟨hleaves, hresult, hturns⟩ := step_addApply hr.toAgrees hxy (hs.shows_self x)
  unfold Documented
  rw [hdoc, hresult]
  constructor
  · rintro ⟨hop, hmoves⟩
    have hno : r = .noPath := (congrArg OpState.first hop).symm
    exact .inr ⟨hleaves.safeLoads_iff.mpr (hmoves.lasts hs), (desc_eq_noPath hr.toAgrees).mpr hno⟩
  · rintro (href | ⟨hsafe, hdesc⟩)
    · exact absurd href hnot
    · have hno : r = .noPath := (desc_eq_noPath hr.toAgrees).mp hdesc
      subst hno
      exact ⟨rfl, (hturns hsafe (.inl rfl)).moves (fun he => absurd he hxy)
        (hleaves.safeLoads_iff.mp hsafe)⟩

/-- The edit of a block puts the user into the block list. -/
theorem mem_block_blockEdit (h : BuddyRelation) : x ∈ (blockEdit x false h).getBuddyList .block := by
  show x ∈ ((((h.removeApply x).removeApplied x).removeFriend x).addSeq .block x).getBuddyList .block
  rw [BuddyRelation.mem_addSeq (by decide)]
  exact .inl ⟨rfl, rfl⟩

/-- The holder of the blocked user gets the other one into the wrong list, unless it is
loaded. -/
theorem mem_block_of_not_otherReloads (hcached : s.Cached x) (hxy : x ≠ y) (hnot : ¬ s.OtherReloads x y) :
    ∃ h ∈ (s.updateRelation ⟨x, y⟩ Operation.addBlock.state false).cache y,
      x ∈ h.hbr.getBuddyList .block := by
  rw [updateRelation_eq]
  show ∃ h ∈ ((s.settle x _ (some y) _).settle y (blockEdit x false) _ _).cache y, _
  generalize hs₁ : s.settle x (sideEdit ⟨x, y⟩ false false Operation.addBlock.state) (some y)
    ⟨recordedId ⟨x, y⟩ Operation.addBlock.state true, Operation.addBlock.state⟩ = s₁
  have hfresh : ∃ h ∈ s₁.cache y, h.checkStateRecorder .null = true := by
    by_cases hmissing : s.caches (s.home x) y = none ∧ s.home y = s.home x
    · refine ⟨⟨y, s.db.create y, .null⟩, ?_, rfl⟩
      rw [← hs₁]
      exact cache_settle_of_missing hcached hxy hmissing.1 hmissing.2
    · unfold OtherReloads at hnot
      rw [not_or] at hnot
      have hne : s.cache y ≠ none := by
        intro hc
        have hhome : s.home y = s.home x := by
          by_contra hne
          exact hnot.2 ⟨hc, hne⟩
        refine hmissing ⟨?_, hhome⟩
        rw [← hhome]
        exact hc
      obtain ⟨h, hc⟩ := Option.ne_none_iff_exists'.mp hne
      refine ⟨h, ?_, ?_⟩
      · rw [← hs₁, cache_settle_of_not_missing hxy hmissing]
        exact hc
      · have hstale := hnot.1
        unfold stale at hstale
        rw [hc] at hstale
        simpa using hstale
  obtain ⟨h, hmem, hcheck⟩ := hfresh
  rw [cache_settle_self]
  have htrue : s₁.fresh y = true := by
    unfold fresh
    rw [Option.mem_def.mp hmem]
    exact hcheck
  rw [if_pos htrue, Option.mem_def.mp hmem]
  exact ⟨_, rfl, mem_block_blockEdit _⟩

/-- A block of one user by another. -/
theorem documented_addBlock (hs : s.AllRelated) (hr : s.Related x y r) (hxy : x ≠ y) :
    (BuddyOp.mk .addBlock ⟨x, y⟩).Documented s r ↔
      (BuddyOp.mk .addBlock ⟨x, y⟩).TransitionsRight s := by
  have hnot : ¬ (BuddyOp.mk .addBlock ⟨x, y⟩).Refused := fun href => hxy href.1
  have hdoc : (BuddyOp.mk .addBlock ⟨x, y⟩).documented r =
      (⟨r, Operation.next .addBlock r⟩, Operation.next .addBlock r) := if_neg hnot
  obtain ⟨hleaves, hresult, hturns⟩ := step_addBlock hr.toAgrees hxy (hs.shows_self x)
  unfold Documented
  rw [hdoc, hresult]
  constructor
  · rintro ⟨hop, hmoves⟩
    have hno : r = .noPath := (congrArg OpState.first hop).symm
    refine .inr ⟨hleaves.safeLoads_iff.mpr (hmoves.lasts hs), (desc_eq_noPath hr.toAgrees).mpr hno, ?_⟩
    by_contra hother
    have hother' : ¬ ((s.located x).insertBlock x y).OtherReloads x y := by
      intro hreloads
      refine hother ?_
      have heq : (s.located x).OtherReloads x y := hreloads
      unfold OtherReloads stale at heq ⊢
      rwa [cache_located hxy.symm, located_home] at heq
    obtain ⟨h, hmem, hin⟩ :=
      mem_block_of_not_otherReloads (s := (s.located x).insertBlock x y) cached_located hxy hother'
    have hstep : step s ⟨.addBlock, ⟨x, y⟩⟩ =
        ((s.located x).insertBlock x y).cacheAddBlock ⟨x, y⟩ false :=
      congrArg Prod.snd (processHandler_empty (by simp [hxy]) rfl rfl (hs.shows_self x))
    have hshows : h.hbr.Shows x .blocked := by
      subst hno
      refine hmoves.pair.other h ?_
      show h ∈ (step s ⟨.addBlock, ⟨x, y⟩⟩).cache y
      rw [hstep]
      exact hmem
    cases (hshows .block (by decide)).mp hin
  · rintro (href | ⟨hsafe, hdesc, hother⟩)
    · exact absurd href hnot
    · have hno : r = .noPath := (desc_eq_noPath hr.toAgrees).mp hdesc
      subst hno
      exact ⟨rfl, (hturns hsafe (.inl rfl) hother).moves (fun he => absurd he hxy)
        (hleaves.safeLoads_iff.mp hsafe)⟩

/-- A removal sees no relation, and reloads. -/
theorem documented_remove (hoper : oper = .removeFriend ∨ oper = .removeBlock) (hs : s.AllRelated)
    (hr : s.Related x y r) :
    (BuddyOp.mk oper ⟨x, y⟩).Documented s r ↔ (BuddyOp.mk oper ⟨x, y⟩).TransitionsRight s := by
  have hnot : ¬ (BuddyOp.mk oper ⟨x, y⟩).Refused := by
    rintro ⟨-, href⟩
    rcases hoper with rfl | rfl <;> simp at href
  have hids : (BuddyOp.mk oper ⟨x, y⟩).one = x ∧ (BuddyOp.mk oper ⟨x, y⟩).other = y ∧
      oper.next .noPath = .noPath := by
    rcases hoper with rfl | rfl
    · exact ⟨rfl, rfl, rfl⟩
    · exact ⟨rfl, rfl, rfl⟩
  obtain ⟨hone, hother, hnext⟩ := hids
  have hright : (BuddyOp.mk oper ⟨x, y⟩).TransitionsRight s ↔
      (BuddyOp.mk oper ⟨x, y⟩).SafeLoads s ∧ s.desc x y = .noPath := by
    rcases hoper with rfl | rfl
    · exact or_iff_right hnot
    · exact or_iff_right hnot
  have hdoc : (BuddyOp.mk oper ⟨x, y⟩).documented r = (⟨r, oper.next r⟩, oper.next r) := if_neg hnot
  obtain ⟨hleaves, hresult, hturns⟩ := step_remove hoper hr.toAgrees (hs.eq_noPath hr) (hs.shows_self x)
  unfold Documented
  rw [hright, hdoc, hresult, hone, hother]
  constructor
  · rintro ⟨hop, hmoves⟩
    have hno : r = .noPath := (congrArg OpState.first hop).symm
    exact ⟨hleaves.safeLoads_iff.mpr (hmoves.lasts hs), (desc_eq_noPath hr.toAgrees).mpr hno⟩
  · rintro ⟨hsafe, hdesc⟩
    have hno : r = .noPath := (desc_eq_noPath hr.toAgrees).mp hdesc
    subst hno
    rw [hnext]
    exact ⟨rfl, (hturns hsafe).moves (fun _ => rfl) (hleaves.safeLoads_iff.mp hsafe)⟩

/-- The result of an answer that finds the relation. -/
theorem result_answer (hoper : oper = .acceptApply ∨ oper = .denyApply) (h : s.Agrees x y r)
    (hcached : s.Cached x ∨ r ≠ .applied) :
    (BuddyOp.mk oper ⟨y, x⟩).result s = ⟨s.desc x y, oper.next (s.desc x y)⟩ := by
  have hresult : (BuddyOp.mk oper ⟨y, x⟩).result s = _ :=
    congrArg Prod.fst (processHandler_answer hoper h hcached)
  rw [hresult]
  generalize s.desc x y = d
  rcases hoper with rfl | rfl
  · cases d <;> rfl
  · cases d <;> rfl

/-- An answer deletes the request, and then loads the holder that has it without the request. -/
theorem result_answer_of_not_cached (hoper : oper = .acceptApply ∨ oper = .denyApply)
    (h : s.Agrees x y .applied) (hxy : x ≠ y) (hcached : ¬ s.Cached x) :
    (BuddyOp.mk oper ⟨y, x⟩).result s = ⟨.noPath, .noPath⟩ := by
  have hc : s.cache x = none := by simpa [Cached] using hcached
  have hnot : ¬ (y = x ∧ (oper.state = .addApply ∨ oper.state = .addBlock)) := fun he => hxy he.1.symm
  have hlocal : localId oper.state ⟨y, x⟩ = x := by
    rcases hoper with rfl | rfl <;> rfl
  have hspecial : s.specialHandle oper.state ⟨y, x⟩ = s.deleteBuddyApply y x := by
    rcases hoper with rfl | rfl <;> rfl
  have hshows : ((s.deleteBuddyApply y x).view x).Shows y .noPath := by
    have hsame : (s.deleteBuddyApply y x).cache x = none := hc
    unfold view
    rw [hsame]
    exact BuddyDatabase.shows_create (h.rows.deleteBuddyApply hxy) (by decide) (by decide)
  have hprocess : s.processHandler oper.state ⟨y, x⟩ = _ :=
    processHandler_eq hnot (by rw [hspecial, hlocal]; exact hshows)
  have hresult : (BuddyOp.mk oper ⟨y, x⟩).result s = _ := congrArg Prod.fst hprocess
  rw [hresult, if_pos rfl]
  rcases hoper with rfl | rfl
  · rfl
  · rfl

/-- An answer to a request finds the relation. -/
theorem documented_answer (hoper : oper = .acceptApply ∨ oper = .denyApply) (hs : s.AllRelated)
    (hr : s.Related x y r) :
    (BuddyOp.mk oper ⟨y, x⟩).Documented s r ↔ (BuddyOp.mk oper ⟨y, x⟩).TransitionsRight s := by
  have hnot : ¬ (BuddyOp.mk oper ⟨y, x⟩).Refused := by
    rintro ⟨-, href⟩
    rcases hoper with rfl | rfl <;> simp at href
  obtain ⟨hone, hother, -⟩ := one_answer (s := s) (x := x) (y := y) hoper
  have hright : (BuddyOp.mk oper ⟨y, x⟩).TransitionsRight s ↔
      (BuddyOp.mk oper ⟨y, x⟩).SafeLoads s ∧ (s.Cached x ∨ r ≠ .applied) := by
    have hap := desc_eq_applied hr.toAgrees
    rcases hoper with rfl | rfl
    · exact (or_iff_right hnot).trans (and_congr_right fun _ => or_congr_right hap.not)
    · exact (or_iff_right hnot).trans (and_congr_right fun _ => or_congr_right hap.not)
  have hdoc : (BuddyOp.mk oper ⟨y, x⟩).documented r = (⟨r, oper.next r⟩, oper.next r) := if_neg hnot
  unfold Documented
  rw [hright, hdoc, hone, hother]
  by_cases hcached : s.Cached x ∨ r ≠ .applied
  · obtain ⟨hleaves, -, hturns⟩ := step_answer hoper hr.toAgrees (hs.eq_noPath hr) hcached
    have hresult := result_answer hoper hr.toAgrees hcached
    constructor
    · rintro ⟨-, hmoves⟩
      exact ⟨hleaves.safeLoads_iff.mpr (hmoves.lasts hs), hcached⟩
    · rintro ⟨hsafe, -⟩
      have hdesc : s.desc x y = r := by
        have hd := hsafe.desc_eq (b := y) (r := r) (by rw [hone]; exact hr.toAgrees)
          (by rw [hone]; exact hs.eq_noPath hr)
        rwa [hone] at hd
      have hmoved := hturns hsafe
      rw [hresult, hdesc] at hmoved
      rw [hresult, hdesc]
      refine ⟨rfl, hmoved.moves (fun he => ?_) (hleaves.safeLoads_iff.mp hsafe)⟩
      rw [hs.eq_noPath hr he]
      rcases hoper with rfl | rfl <;> rfl
  · obtain ⟨hc, hap⟩ := not_or.mp hcached
    have hap' : r = .applied := not_not.mp hap
    subst hap'
    have hxy : x ≠ y := fun he => nomatch hs.eq_noPath hr he
    rw [result_answer_of_not_cached hoper hr.toAgrees hxy hc]
    refine iff_of_false ?_ fun h => hcached h.2
    rintro ⟨hop, -⟩
    cases congrArg OpState.first hop

end BuddyOp

/-- Users 1 and 3 are friends, and user 2 asks user 1. -/
def askedRows : BuddyDatabase := ⟨[], [(1, 3), (3, 1)], [(2, 1)], [(2, 1)]⟩

/-- The rows show a relation for any two users. -/
theorem rowsShow_askedRows (a b : ℤ) : ∃ r, r ≠ .self ∧ r ≠ .biBlock ∧ (a = b → r = .noPath) ∧
    askedRows.RowsShow a b r := by
  by_cases h13 : a = 1 ∧ b = 3
  · obtain ⟨rfl, rfl⟩ := h13
    refine ⟨.friend, by decide, by decide, by decide, ⟨⟨?_, ?_, ?_, ?_⟩, ⟨?_, ?_, ?_, ?_⟩⟩⟩ <;> decide
  by_cases h31 : a = 3 ∧ b = 1
  · obtain ⟨rfl, rfl⟩ := h31
    refine ⟨.friend, by decide, by decide, by decide, ⟨⟨?_, ?_, ?_, ?_⟩, ⟨?_, ?_, ?_, ?_⟩⟩⟩ <;> decide
  by_cases h21 : a = 2 ∧ b = 1
  · obtain ⟨rfl, rfl⟩ := h21
    refine ⟨.apply, by decide, by decide, by decide, ⟨⟨?_, ?_, ?_, ?_⟩, ⟨?_, ?_, ?_, ?_⟩⟩⟩ <;> decide
  by_cases h12 : a = 1 ∧ b = 2
  · obtain ⟨rfl, rfl⟩ := h12
    refine ⟨.applied, by decide, by decide, by decide, ⟨⟨?_, ?_, ?_, ?_⟩, ⟨?_, ?_, ?_, ?_⟩⟩⟩ <;> decide
  have h13' : ¬ (b = 1 ∧ a = 3) := fun h => h31 h.symm
  have h31' : ¬ (b = 3 ∧ a = 1) := fun h => h13 h.symm
  have h21' : ¬ (b = 2 ∧ a = 1) := fun h => h12 h.symm
  refine ⟨.noPath, by decide, by decide, fun _ => rfl, ⟨⟨?_, ?_, ?_, ?_⟩, ⟨?_, ?_, ?_, ?_⟩⟩⟩ <;>
    simp [askedRows, h13, h31, h21, h13', h31', h21', BuddyDesc.mirror]

/-- Users 1 and 3 are cached, the first with his recorder set, and user 2 is not. -/
def asked : BuddyStore :=
  { loaded askedRows [3] with
    caches := fun server id =>
      if server = 1 ∧ id = 1 then some ⟨1, askedRows.create 1, ⟨3, .acceptApply⟩⟩
      else (loaded askedRows [3]).caches server id }

theorem related_asked {a b : ℤ} {r : BuddyDesc} (hrows : askedRows.RowsShow a b r) (hself : r ≠ .self)
    (hbi : r ≠ .biBlock) : asked.Related a b r := by
  refine related_of_created ?_ rfl hrows hself hbi
  intro a holder hmem
  unfold cache asked loaded at hmem
  dsimp only at hmem
  split at hmem
  · rename_i h1
    obtain ⟨-, rfl⟩ := h1
    cases hmem
    rfl
  · split at hmem
    · cases hmem
      rfl
    · cases hmem

theorem allRelated_asked : asked.AllRelated := by
  intro a b
  obtain ⟨r, hself, hbi, hab, hrows⟩ := rowsShow_askedRows a b
  exact ⟨r, related_asked hrows hself hbi, hab⟩

end Oce.Buddy
