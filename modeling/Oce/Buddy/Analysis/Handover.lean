import Oce.Buddy.Analysis.Relations
import Oce.Buddy.Model.Downstream

/-!
# What BuddyLogic is handed

BuddyLogic gets two empty objects in every call, and it loads them. That is what the holders have
exactly where the operation adds nothing and takes out all they had.
-/

set_option autoImplicit false

namespace Oce.Buddy

open Function Oce.Base

namespace BuddyRelation

variable {r : BuddyRelation} {d : BuddyDesc} {y : ℤ}

/-- The relation without any entry. -/
theorem eq_empty_iff : r = empty ↔ ∀ d y, y ∉ r.getBuddyList d := by
  constructor
  · rintro rfl d y
    cases d <;> exact AscSeq.not_mem_empty y
  · intro h
    have hlist : ∀ d, r.getBuddyList d = AscSeq.empty := by
      intro d
      apply AscSeq.ext_mem
      intro y
      exact iff_of_false (h d y) (AscSeq.not_mem_empty y)
    obtain ⟨friends, apply, applied, block, blocked, biblock⟩ := r
    have hfriends : friends = AscSeq.empty := hlist .friend
    have happly : apply = AscSeq.empty := hlist .apply
    have happlied : applied = AscSeq.empty := hlist .applied
    have hblock : block = AscSeq.empty := hlist .block
    have hblocked : blocked = AscSeq.empty := hlist .blocked
    have hbiblock : biblock = AscSeq.empty := hlist .biBlock
    subst hfriends happly happlied hblock hblocked hbiblock
    rfl

/-- A list of which an entry is perhaps taken out. -/
theorem mem_ite_removeSeq {p : Prop} [Decidable p] {desc : BuddyDesc}
    (hdesc : desc ≠ .noPath ∧ desc ≠ .self) (x : ℤ) : y ∈ (if p then r.removeSeq desc x else r).getBuddyList d ↔
      y ∈ r.getBuddyList d ∧ ¬(p ∧ d = desc ∧ y = x) := by
  by_cases hp : p
  · rw [if_pos hp, mem_removeSeq hdesc]
    simp [hp, eq_comm]
  · rw [if_neg hp]
    simp [hp]

/-- The change leaves an entry behind, whatever the lists had. -/
def Adds (e : BuddyRelation → BuddyRelation) : Prop := ∀ r, ∃ d y, y ∈ (e r).getBuddyList d

theorem adds_addSeq {e : BuddyRelation → BuddyRelation} (desc : BuddyDesc)
    (hdesc : desc ≠ .noPath ∧ desc ≠ .self) (y : ℤ) : Adds fun r => (e r).addSeq desc y :=
  fun _ => ⟨desc, y, (mem_addSeq hdesc).mpr (.inl ⟨rfl, rfl⟩)⟩

end BuddyRelation

namespace AdapterCall

open BuddyStore BuddyRelation

variable {c : AdapterCall} {s : BuddyStore} {user : ℤ}

/-- Neither of the two sides answers `CHECKERROR`. -/
structure NoCheckError (c : AdapterCall) (s : BuddyStore) : Prop where
  localSide : (c.localAnswer s).laststate ≠ .checkError
  remoteSide : (c.remoteAnswer s).laststate ≠ .checkError

/-- What the two users' holders have after the call is what BuddyLogic is handed and loads, and no
friend whom the holder still has gets lost in the friend list cache. -/
structure HandsOn (c : AdapterCall) (s : BuddyStore) : Prop where
  localbrp : ∀ h ∈ (c.run s).1.cache c.localUser, (c.run s).2.objects.localbrp = h.hbr
  remotebrp : ∀ h ∈ (c.run s).1.cache c.remoteUser, (c.run s).2.objects.remotebrp = h.hbr
  relations : ∀ (caches : LogicCaches) (user : ℤ), user = c.localUser ∨ user = c.remoteUser →
    ∀ h ∈ (c.run s).1.cache user, (caches.serve (c.run s).2).relations user = some h.hbr
  friends : ∀ (caches : LogicCaches) (user : ℤ), user = c.localUser ∨ user = c.remoteUser →
    ∀ h ∈ (c.run s).1.cache user, ∀ xs ∈ caches.friends user, ∀ y ∈ xs, y ∈ h.hbr.friends →
      ∃ ys ∈ (caches.serve (c.run s).2).friends user, y ∈ ys

/-! ## The store after the call -/

theorem run_fst (c : AdapterCall) (s : BuddyStore) :
    (c.run s).1 = s.updateRelation c.relation c.oper.state c.biblock := by
  rw [run_eq]
  rfl

theorem objects_run (c : AdapterCall) (s : BuddyStore) : (c.run s).2.objects = ⟨.empty, .empty⟩ := by
  rw [run_eq]
  rfl

/-- A side answers `CHECKERROR` unless the recorder of its holder is unset. -/
theorem answer_iff (oper : Operation) (s : BuddyStore) (relation : Relationship)
    (remote biblock : Bool) :
    (cacheCall (s.caches (s.home (sideId relation remote oper.state))) s.db.create oper.state relation
      .null (buildContext .request true remote biblock)).hsr.laststate ≠ .checkError ↔
      s.fresh (sideId relation remote oper.state) = true := by
  have hmain : isMainCache (buildContext .request true remote biblock) = false := rfl
  have hstate : oper.state ≠ .checkError := by cases oper <;> decide
  rw [cacheCall_eq]
  generalize sideId relation remote oper.state = id
  generalize sideEdit relation remote biblock oper.state = edit
  unfold cacheUpdate fresh cache
  cases hc : s.caches (s.home id) id with
  | none => simp
  | some h =>
      dsimp only
      unfold assignStateRecorder
      rw [hmain]
      have hcheck : ({ h with hbr := edit h.hbr } : BuddyRelationHolders).checkStateRecorder .null =
        h.checkStateRecorder .null := rfl
      simp only [Bool.false_eq_true, if_false, hcheck, Option.any_some]
      split_ifs with hok
      · exact iff_of_true hstate hok
      · exact iff_of_false (fun hne => hne rfl) hok

/-- What a user has behind a half whose recorder was unset. A guest who is loaded has what he would be
loaded with before. -/
theorem view_settle (f : BuddyRelation → BuddyRelation) (guest : Option ℤ) (sr : StateRecorder) {id : ℤ}
    (hfresh : s.fresh id = true) :
    (s.settle id f guest sr).view user = if user = id then f (s.view user) else s.view user := by
  unfold view
  rw [settle_db]
  by_cases huser : user = id
  · subst huser
    rw [cache_settle_self, if_pos hfresh, if_pos rfl]
    unfold fresh at hfresh
    cases hc : s.cache user with
    | none =>
        rw [hc] at hfresh
        cases hfresh
    | some h => rfl
  · rw [cache_settle_of_ne huser, if_neg huser]
    split
    · rename_i hload
      obtain ⟨-, hmissing, hhome⟩ := hload
      have hnone : s.cache user = none := by
        unfold missing at hmissing
        have hsome := (Option.filter_eq_some_iff.mp hmissing).2
        unfold cache
        rw [hhome]
        exact Option.isNone_iff_eq_none.mp hsome
      rw [hnone]
      rfl
    · rfl

/-- The changes that the call makes in what a user has, one for each of his sides. -/
def edit (c : AdapterCall) (user : ℤ) (r : BuddyRelation) : BuddyRelation :=
  let r := if user = c.localUser then sideEdit c.relation false c.biblock c.oper.state r else r
  if user = c.remoteUser then sideEdit c.relation true c.biblock c.oper.state r else r

/-- **Both holders are there after the call, with what they had or were loaded with, changed.** -/
theorem NoCheckError.cache_run (hok : c.NoCheckError s)
    (huser : user = c.localUser ∨ user = c.remoteUser) :
    ∃ h' ∈ (c.run s).1.cache user, h'.hbr = c.edit user (s.view user) := by
  have hlocal : s.fresh c.localUser = true :=
    (answer_iff c.oper s c.relation false c.biblock).mp hok.localSide
  have hhalf : c.halfway s = s.settle c.localUser (sideEdit c.relation false c.biblock c.oper.state)
      (sideGuest c.relation c.oper.state) ⟨recordedId c.relation c.oper.state true, c.oper.state⟩ :=
    updateHalf_eq s c.oper c.relation false c.biblock
  have hremote : (c.halfway s).fresh c.remoteUser = true :=
    (answer_iff c.oper (c.halfway s) c.relation true c.biblock).mp hok.remoteSide
  have hrun : (c.run s).1 = (c.halfway s).settle c.remoteUser
      (sideEdit c.relation true c.biblock c.oper.state) (sideGuest c.relation c.oper.state)
      ⟨recordedId c.relation c.oper.state false, c.oper.state⟩ := by
    rw [run_fst, updateRelation_eq, hhalf]
    rfl
  have hview : (c.run s).1.view user = c.edit user (s.view user) := by
    rw [hrun, view_settle _ _ _ hremote, hhalf, view_settle _ _ _ hlocal]
    rfl
  have hcached : (c.run s).1.Cached user := by
    rw [hrun]
    by_cases hremoteUser : user = c.remoteUser
    · rw [hremoteUser]
      exact cached_settle_self
    · have hlocalUser := huser.resolve_right hremoteUser
      have hhalfway : (c.halfway s).Cached user := by
        rw [hhalf, hlocalUser]
        exact cached_settle_self
      unfold Cached at hhalfway ⊢
      rw [cache_settle_of_ne hremoteUser]
      split
      · rfl
      · exact hhalfway
  obtain ⟨h', hmem⟩ := Option.isSome_iff_exists.mp hcached
  refine ⟨h', hmem, ?_⟩
  rw [← hview]
  unfold view
  rw [hmem]
  rfl

/-! ## The operations that only take out -/

/-- The operation takes the entry out of the user's list. -/
def Takes (c : AdapterCall) (user : ℤ) (d : BuddyDesc) (y : ℤ) : Prop :=
  match c with
  | denyApply apply => user = apply.toId ∧ d = .applied ∧ y = apply.fromId ∨
      user = apply.fromId ∧ d = .apply ∧ y = apply.toId
  | removeFriend buddy => d = .friend ∧
      (user = buddy.fromId ∧ y = buddy.toId ∨ user = buddy.toId ∧ y = buddy.fromId)
  | removeBlock block false => d = .block ∧
      (user = block.fromId ∧ y = block.toId ∨ user = block.toId ∧ y = block.fromId)
  | _ => False

/-- The operation adds no entry to a list. -/
def OnlyTakes : AdapterCall → Prop
  | denyApply _ | removeFriend _ | removeBlock _ false => True
  | _ => False

/-- The operation takes out all that the two users have in their holders, or would be loaded with. -/
def TakesAll (c : AdapterCall) (s : BuddyStore) : Prop :=
  c.OnlyTakes ∧ ∀ user, user = c.localUser ∨ user = c.remoteUser →
    ∀ d y, y ∈ (s.view user).getBuddyList d → c.Takes user d y

/-- **An operation that adds nothing leaves every entry that it does not take.** -/
theorem mem_edit (honly : c.OnlyTakes) (user : ℤ) (r : BuddyRelation) (d : BuddyDesc) (y : ℤ) :
    y ∈ (c.edit user r).getBuddyList d ↔ y ∈ r.getBuddyList d ∧ ¬c.Takes user d y := by
  cases c with
  | denyApply apply =>
      change y ∈ (if user = apply.fromId then
        (if user = apply.toId then r.removeSeq .applied apply.fromId else r).removeSeq .apply apply.toId
        else if user = apply.toId then r.removeSeq .applied apply.fromId else r).getBuddyList d ↔ _
      rw [mem_ite_removeSeq (by decide), mem_ite_removeSeq (by decide)]
      unfold Takes
      tauto
  | removeFriend buddy =>
      change y ∈ (if user = buddy.toId then
        (if user = buddy.fromId then r.removeSeq .friend buddy.toId else r).removeSeq .friend buddy.fromId
        else if user = buddy.fromId then r.removeSeq .friend buddy.toId else r).getBuddyList d ↔ _
      rw [mem_ite_removeSeq (by decide), mem_ite_removeSeq (by decide)]
      unfold Takes
      tauto
  | removeBlock block biblock =>
      cases biblock with
      | true => exact honly.elim
      | false =>
          change y ∈ (if user = block.toId then
            (if user = block.fromId then r.removeSeq .block block.toId else r).removeSeq .block block.fromId
            else if user = block.fromId then r.removeSeq .block block.toId else r).getBuddyList d ↔ _
          rw [mem_ite_removeSeq (by decide), mem_ite_removeSeq (by decide)]
          unfold Takes
          tauto
  | addApply apply => exact honly.elim
  | acceptApply apply => exact honly.elim
  | addBlock block biblock => exact honly.elim

/-- Every other operation adds an entry on either side. -/
theorem adds_sideEdit (honly : ¬c.OnlyTakes) (remote : Bool) :
    Adds (sideEdit c.relation remote c.biblock c.oper.state) := by
  cases c with
  | addApply apply =>
      cases remote
      · exact adds_addSeq .apply (by decide) apply.toId
      · exact adds_addSeq .applied (by decide) apply.fromId
  | acceptApply apply =>
      cases remote
      · exact adds_addSeq .friend (by decide) apply.fromId
      · exact adds_addSeq .friend (by decide) apply.toId
  | addBlock block biblock =>
      cases biblock
      · exact adds_addSeq .block (by decide) _
      · exact adds_addSeq .biBlock (by decide) _
  | removeBlock block biblock =>
      cases biblock
      · exact absurd trivial honly
      · exact adds_addSeq .blocked (by decide) _
  | denyApply apply => exact absurd trivial honly
  | removeFriend buddy => exact absurd trivial honly

theorem exists_mem_edit (honly : ¬c.OnlyTakes) (r : BuddyRelation) :
    ∃ d y, y ∈ (c.edit c.localUser r).getBuddyList d := by
  unfold edit
  rw [if_pos rfl]
  by_cases hsame : c.localUser = c.remoteUser
  · rw [if_pos hsame]
    exact adds_sideEdit honly true _
  · rw [if_neg hsame]
    exact adds_sideEdit honly false _

/-! ## The objects -/

/-- The cache after both loads of an empty relation. -/
theorem update_update {f : ℤ → Option BuddyRelation} {a b : ℤ} (huser : user = a ∨ user = b)
    (v : Option BuddyRelation) : update (update f a v) b v user = v := by
  by_cases hb : user = b
  · subst hb
    exact update_self _ _ _
  · rw [update_of_ne hb, huser.resolve_right hb]
    exact update_self _ _ _

/-- Both users are loaded an empty relation. -/
theorem relations_serve (caches : LogicCaches) (huser : user = c.localUser ∨ user = c.remoteUser) :
    (caches.serve (c.run s).2).relations user = some .empty := by
  cases c <;> exact update_update huser _

/-- No list of friends is loaded, since an empty one is not. -/
theorem friends_serve (caches : LogicCaches) : (caches.serve (c.run s).2).friends = caches.friends := by
  cases c <;> rfl

/-- **BuddyLogic is handed what the holders have exactly when the operation takes out all they
had.** -/
theorem handsOn_iff (c : AdapterCall) (s : BuddyStore) (hok : c.NoCheckError s) :
    c.HandsOn s ↔ c.TakesAll s := by
  constructor
  · intro hands
    have hempty : ∀ user, user = c.localUser ∨ user = c.remoteUser →
        c.edit user (s.view user) = .empty := by
      intro user huser
      obtain ⟨h', hmem', heq⟩ := hok.cache_run huser
      have hload := hands.relations ⟨fun _ => none, fun _ => none⟩ user huser h' hmem'
      rw [relations_serve _ huser] at hload
      rw [← heq, ← Option.some_inj, ← hload]
    have honly : c.OnlyTakes := by
      by_contra hnot
      obtain ⟨d, y, hy⟩ := exists_mem_edit hnot (s.view c.localUser)
      exact eq_empty_iff.mp (hempty _ (.inl rfl)) d y hy
    refine ⟨honly, fun user huser d y hy => ?_⟩
    by_contra hnot
    exact eq_empty_iff.mp (hempty user huser) d y ((mem_edit honly user _ d y).mpr ⟨hy, hnot⟩)
  · rintro ⟨honly, htakes⟩
    have hempty : ∀ user, user = c.localUser ∨ user = c.remoteUser →
        ∀ h' ∈ (c.run s).1.cache user, h'.hbr = .empty := by
      intro user huser h' hmem'
      obtain ⟨h₁, hmem₁, heq⟩ := hok.cache_run huser
      obtain rfl : h₁ = h' := Option.mem_unique hmem₁ hmem'
      rw [heq, eq_empty_iff]
      intro d y hy
      obtain ⟨hy, hnot⟩ := (mem_edit honly user _ d y).mp hy
      exact hnot (htakes user huser d y hy)
    constructor
    · intro h hmem
      rw [objects_run, hempty _ (.inl rfl) h hmem]
    · intro h hmem
      rw [objects_run, hempty _ (.inr rfl) h hmem]
    · intro caches user huser h hmem
      rw [relations_serve caches huser, hempty user huser h hmem]
    · intro caches user huser h hmem xs hxs y hy hstill
      exact ⟨xs, by rwa [friends_serve], hy⟩

/-- A server that has cached one of two users who are friends. -/
def halfCached : BuddyStore where
  db := ⟨[], [(1, 2), (2, 1)], [], []⟩
  scheduled := []
  home := fun _ => 0
  caches := fun _ id => if id = 1 then some ⟨1, BuddyRelation.empty.addFriend 2, .null⟩ else none

/-- A removal of the only friend, whom both holders lose. The holder of the second user is loaded by
the request that the first half sends, so that his side does not answer `CHECKERROR` either. -/
theorem handsOn_iff_only_friends : (removeFriend ⟨1, 2⟩).HandsOn halfCached := by
  refine (handsOn_iff (removeFriend ⟨1, 2⟩) halfCached ⟨by decide, by decide⟩).mpr ⟨trivial, ?_⟩
  have hone : ∀ d, ∀ y ∈ ((halfCached.view 1).getBuddyList d).vals, d = .friend ∧ y = 2 := by
    intro d
    cases d <;> decide
  have htwo : ∀ d, ∀ y ∈ ((halfCached.view 2).getBuddyList d).vals, d = .friend ∧ y = 1 := by
    intro d
    cases d <;> decide
  rintro user (rfl | rfl) d y hy
  · obtain ⟨rfl, rfl⟩ := hone d y hy
    exact ⟨rfl, .inl ⟨rfl, rfl⟩⟩
  · obtain ⟨rfl, rfl⟩ := htwo d y hy
    exact ⟨rfl, .inr ⟨rfl, rfl⟩⟩

/-- After an application between two strangers the holder of the applicant has it, the object that
BuddyLogic is handed and loads has not. -/
theorem stranger_applies_unseen : ¬∀ (c : AdapterCall) (s : BuddyStore), c.NoCheckError s → c.HandsOn s := by
  intro h
  have hok : (addApply ⟨1, 2⟩).NoCheckError (loaded ⟨[], [], [], []⟩ [1, 2]) := ⟨by decide, by decide⟩
  obtain ⟨h', hmem', heq⟩ := hok.cache_run (.inl rfl)
  have hlocal := (h _ _ hok).localbrp h' hmem'
  rw [objects_run, heq] at hlocal
  obtain ⟨d, y, hy⟩ := exists_mem_edit (c := addApply ⟨1, 2⟩) id
    ((loaded ⟨[], [], [], []⟩ [1, 2]).view (addApply ⟨1, 2⟩).localUser)
  exact eq_empty_iff.mp hlocal.symm d y hy

end AdapterCall

end Oce.Buddy
