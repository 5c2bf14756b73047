import Oce.Buddy.Analysis.Loader

/-!
# Relations between two users

`Agrees s a b r` says that the cached holders of `a` and `b` and the rows of the pair describe one
relation `r`, as `a` sees it; `Related` adds that the statements which the cleanups have scheduled
leave a copy of its rows. An update settles two holders one after the other (`updateRelation_eq`): a
holder whose recorder is unset is edited, any other is loaded from the rows, and the guest of the
request is loaded where the server has not cached him. `mem_cache_settle` says where a holder comes
from after such a step, and `Agrees.settle` what the step keeps.
-/

set_option autoImplicit false

namespace Oce.Buddy

open Function Oce.Base

namespace BuddyRelation

/-! ## Edits -/

variable {r : BuddyRelation} {y : ℤ} {d desc : BuddyDesc}

/-- The edit changes nothing but the entries of `y`. -/
def Touches (y : ℤ) (e : BuddyRelation → BuddyRelation) : Prop :=
  ∀ r d b, b ≠ y → (b ∈ (e r).getBuddyList d ↔ b ∈ r.getBuddyList d)

theorem Touches.comp {e f : BuddyRelation → BuddyRelation} (he : Touches y e) (hf : Touches y f) :
    Touches y fun r => f (e r) := by
  intro r d b hb
  rw [hf _ d b hb, he r d b hb]

theorem touches_addSeq (desc : BuddyDesc) (hdesc : desc ≠ .noPath ∧ desc ≠ .self) : Touches y (addSeq desc y) := by
  intro r d b hb
  rw [mem_addSeq hdesc]
  simp [hb]

theorem touches_removeSeq (desc : BuddyDesc) (hdesc : desc ≠ .noPath ∧ desc ≠ .self) :
    Touches y (removeSeq desc y) := by
  intro r d b hb
  rw [mem_removeSeq hdesc]
  simp [hb]

/-- Adding a user who is in no other list. -/
theorem Shows.addSeq (h : r.Shows y d) (hdesc : desc ≠ .noPath ∧ desc ≠ .self)
    (hd : d = .noPath ∨ d = desc) : (r.addSeq desc y).Shows y desc := by
  intro d' hd'
  rw [mem_addSeq hdesc, h d' hd']
  rcases hd with rfl | rfl
  · simp [Ne.symm hd']
  · simp

/-- Removing a user from a list. -/
theorem Shows.removeSeq (h : r.Shows y d) (hdesc : desc ≠ .noPath ∧ desc ≠ .self) :
    (r.removeSeq desc y).Shows y (if d = desc then .noPath else d) := by
  intro d' hd'
  rw [mem_removeSeq hdesc, h d' hd']
  by_cases hdd : d = desc
  · subst hdd
    simp [Ne.symm hd']
  · rw [if_neg hdd]
    constructor
    · exact fun hh => hh.1
    · intro hh
      refine ⟨hh, ?_⟩
      rintro ⟨rfl, -⟩
      exact hdd hh

theorem Shows.removeSeq_self (h : r.Shows y desc) (hdesc : desc ≠ .noPath ∧ desc ≠ .self) :
    (r.removeSeq desc y).Shows y .noPath := by
  have hrem := h.removeSeq hdesc
  rwa [if_pos rfl] at hrem

theorem Shows.removeSeq_other (h : r.Shows y d) (hdesc : desc ≠ .noPath ∧ desc ≠ .self)
    (hd : d ≠ desc) : (r.removeSeq desc y).Shows y d := by
  have hrem := h.removeSeq hdesc
  rwa [if_neg hd] at hrem

theorem touches_blockEdit : Touches y (blockEdit y false) := by
  exact (((touches_removeSeq .apply (by decide)).comp (touches_removeSeq .applied (by decide))).comp
    (touches_removeSeq .friend (by decide))).comp (touches_addSeq .block (by decide))

/-- A user who is in no list, or in the block list, is in the block list after the edit. -/
theorem Shows.blockEdit (h : r.Shows y d) (hd : d = .noPath ∨ d = .block) :
    (Oce.Buddy.blockEdit y false r).Shows y .block := by
  have hne : d ≠ .apply ∧ d ≠ .applied ∧ d ≠ .friend := by
    rcases hd with rfl | rfl
    · decide
    · decide
  have h1 : (r.removeApply y).Shows y d := h.removeSeq_other (by decide) hne.1
  have h2 : ((r.removeApply y).removeApplied y).Shows y d := h1.removeSeq_other (by decide) hne.2.1
  have h3 : (((r.removeApply y).removeApplied y).removeFriend y).Shows y d :=
    h2.removeSeq_other (by decide) hne.2.2
  exact h3.addSeq (by decide) hd

end BuddyRelation

namespace BuddyStore

/-! ## What a store says about two users -/

/-- The main copy of the user's holder is cached. -/
def Cached (s : BuddyStore) (a : ℤ) : Prop := (s.cache a).isSome

instance (s : BuddyStore) (a : ℤ) : Decidable (s.Cached a) :=
  inferInstanceAs (Decidable ((s.cache a).isSome = true))

/-- The relations of a user: what his holder has, or would be loaded with. -/
def view (s : BuddyStore) (a : ℤ) : BuddyRelation := (s.cache a).elim (s.db.create a) (·.hbr)

/-- The relation of `a` to `b` that a lookup finds. -/
def desc (s : BuddyStore) (a b : ℤ) : BuddyDesc := ((s.view a).getCount b .noPath).2

/-- The holder of `a`, if it is cached, shows the relation of `a` to `b`. -/
def Sees (s : BuddyStore) (a b : ℤ) (r : BuddyDesc) : Prop := ∀ h ∈ s.cache a, h.hbr.Shows b r

/-- Both holders and the rows describe the relation of `a` to `b`. -/
structure Agrees (s : BuddyStore) (a b : ℤ) (r : BuddyDesc) : Prop where
  ne_self : r ≠ .self
  one : s.Sees a b r
  other : s.Sees b a r.mirror
  rows : s.db.RowsShow a b r

/-- The scheduled statements leave a copy of the row. -/
def Lasts (s : BuddyStore) (a b : ℤ) : Prop :=
  (a, b) ∈ s.db.block → s.scheduled.count (a, b) < s.db.block.count (a, b)

/-- Both holders and the rows describe the relation of `a` to `b`, and the scheduled statements do not
take a row of it away. -/
structure Related (s : BuddyStore) (a b : ℤ) (r : BuddyDesc) : Prop extends s.Agrees a b r where
  one_lasts : s.Lasts a b
  other_lasts : s.Lasts b a

/-- The recorder of the holder is unset, so that it passes the check of any update. -/
def fresh (s : BuddyStore) (a : ℤ) : Bool := (s.cache a).any (·.checkStateRecorder .null)

/-- The recorder of the holder is set. -/
def stale (s : BuddyStore) (a : ℤ) : Bool := (s.cache a).any fun h => !h.checkStateRecorder .null

variable {s s' t : BuddyStore} {a b id u x y : ℤ} {server : ℕ} {r : BuddyDesc} {guest : Option ℤ}
  {edit : BuddyRelation → BuddyRelation} {sr : StateRecorder} {holder : BuddyRelationHolders}

theorem mirror_ne_self (h : r ≠ .self) : r.mirror ≠ .self := by
  cases r <;> simp_all [BuddyDesc.mirror]

theorem Agrees.symm (h : s.Agrees a b r) : s.Agrees b a r.mirror where
  ne_self := mirror_ne_self h.ne_self
  one := h.other
  other := by rw [BuddyDesc.mirror_mirror]; exact h.one
  rows := h.rows.symm

theorem Related.symm (h : s.Related a b r) : s.Related b a r.mirror :=
  ⟨h.toAgrees.symm, h.other_lasts, h.one_lasts⟩

/-- What the holder shows, or would be loaded with. -/
theorem Agrees.shows_view (h : s.Agrees a b r) :
    (s.view a).Shows b (if s.Cached a then r else r.loaded) := by
  unfold view
  by_cases hcached : s.Cached a
  · obtain ⟨holder, hc⟩ := Option.isSome_iff_exists.mp hcached
    rw [if_pos hcached, hc]
    exact h.one holder hc
  · have hc : s.cache a = none := by simpa [Cached] using hcached
    rw [if_neg hcached, hc]
    exact BuddyDatabase.shows_create_loaded h.rows h.ne_self

/-- **What a lookup finds.** -/
theorem Agrees.desc_eq (h : s.Agrees a b r) : s.desc a b = if s.Cached a then r else r.loaded := by
  unfold desc
  rw [h.shows_view.getCount_eq]

theorem fresh_eq_false_iff : s.fresh id = false ↔ s.cache id = none ∨ s.stale id = true := by
  unfold fresh stale
  cases s.cache id with
  | none => simp
  | some holder => simp

/-! ## Loading and storing -/

/-- A load on the main server. -/
theorem cache_load : (s.load server u).cache a =
    if a = u ∧ s.home u = server then some ⟨u, s.db.create u, .null⟩ else s.cache a := by
  unfold load cache
  dsimp only
  by_cases hserver : s.home a = server
  · subst hserver
    rw [update_self, update_apply]
    by_cases hau : a = u
    · subst hau
      rw [if_pos rfl, if_pos ⟨rfl, rfl⟩]
    · rw [if_neg hau, if_neg fun h => hau h.1]
  · rw [update_of_ne hserver, if_neg]
    rintro ⟨rfl, h⟩
    exact hserver h

theorem cache_reload : (s.reload u).cache a =
    if a = u then some ⟨u, s.db.create u, .null⟩ else s.cache a := by
  unfold reload
  rw [cache_load]
  simp

/-- The main copy of the user's holder is replaced. -/
def put (s : BuddyStore) (id : ℤ) (holder : BuddyRelationHolders) : BuddyStore :=
  { s with
    caches := update s.caches (s.home id)
      (update (s.caches (s.home id)) id (some holder)) }

theorem cache_put : (s.put id holder).cache a = if a = id then some holder else s.cache a := by
  unfold put cache
  dsimp only
  by_cases hai : a = id
  · subst hai
    rw [update_self, update_self, if_pos rfl]
  · rw [if_neg hai]
    by_cases hserver : s.home a = s.home id
    · rw [hserver, update_self, update_of_ne hai]
    · rw [update_of_ne hserver]

/-- **A load keeps the relation of a pair**, unless the user loaded is in a `biBlock`. -/
theorem Agrees.load (h : s.Agrees a b r) (hab : a = b → r = .noPath) (hunpaired : s.db.Unpaired u) :
    (s.load server u).Agrees a b r := by
  have hsees : ∀ a b r, s.Sees a b r → s.db.RowsShow a b r → r ≠ .self → (a = b → r = .noPath) →
      (s.load server u).Sees a b r := by
    intro a b r hsees hrows hself hab holder hmem
    rw [cache_load] at hmem
    split at hmem
    · rename_i hload
      obtain ⟨rfl, -⟩ := hload
      cases hmem
      exact BuddyDatabase.shows_create_of_unpaired hrows hself hab hunpaired
    · exact hsees holder hmem
  refine ⟨h.ne_self, hsees a b r h.one h.rows h.ne_self hab, ?_, h.rows⟩
  exact hsees b a r.mirror h.other h.rows.symm h.symm.ne_self fun he => by rw [hab he.symm]; rfl

/-! ## Updates -/

/-- The guest of a request, if the server has not cached him. -/
def missing (s : BuddyStore) (server : ℕ) (guest : Option ℤ) : Option ℤ :=
  guest.filter fun u => (s.caches server u).isNone

/-- The request about the guest. -/
def request (s : BuddyStore) (server : ℕ) (guest : Option ℤ) : BuddyStore :=
  (s.missing server guest).elim s (s.load server)

/-- The guest is loaded where he is missing, and the holder edited if its recorder is unset; otherwise
it is loaded too. -/
def settle (s : BuddyStore) (id : ℤ) (edit : BuddyRelation → BuddyRelation) (guest : Option ℤ)
    (sr : StateRecorder) : BuddyStore :=
  match s.cache id with
  | some holder =>
    if holder.checkStateRecorder .null then
      (s.request (s.home id) guest).put id ⟨holder.hfrom, edit holder.hbr, sr⟩
    else (s.request (s.home id) guest).reload id
  | none => s.reload id

/-- Whom the step loads, in this order. -/
def settleLoads (s : BuddyStore) (id : ℤ) (guest : Option ℤ) : List ℤ :=
  match s.cache id with
  | some holder =>
    (s.missing (s.home id) guest).toList ++ if holder.checkStateRecorder .null then [] else [id]
  | none => [id]

theorem request_home : (s.request server guest).home = s.home := by
  unfold request
  cases s.missing server guest <;> rfl

theorem request_db : (s.request server guest).db = s.db := by
  unfold request
  cases s.missing server guest <;> rfl

theorem request_scheduled : (s.request server guest).scheduled =
    s.scheduled ++ (s.missing server guest).toList.flatMap s.db.cleanupRows := by
  unfold request
  cases s.missing server guest with
  | none => exact (List.append_nil _).symm
  | some u => exact congrArg (s.scheduled ++ ·) (List.append_nil _).symm

theorem cache_request : (s.request server guest).cache a =
    if s.missing server guest = some a ∧ s.home a = server then some ⟨a, s.db.create a, .null⟩
    else s.cache a := by
  unfold request
  cases s.missing server guest with
  | none => simp
  | some u =>
      show (s.load server u).cache a = _
      rw [cache_load]
      by_cases hau : a = u
      · subst hau
        simp
      · simp [hau, Ne.symm hau]

theorem settle_db : (s.settle id edit guest sr).db = s.db := by
  unfold settle
  split
  · split
    · exact request_db
    · exact request_db
  · rfl

theorem settle_home : (s.settle id edit guest sr).home = s.home := by
  unfold settle
  split
  · split
    · exact request_home
    · exact request_home
  · rfl

/-- **What the step schedules** are the cleanups of its loads. -/
theorem settle_scheduled : (s.settle id edit guest sr).scheduled =
    s.scheduled ++ (s.settleLoads id guest).flatMap s.db.cleanupRows := by
  unfold settle settleLoads
  cases s.cache id with
  | none => exact congrArg (s.scheduled ++ ·) (List.append_nil _).symm
  | some holder =>
      dsimp only
      rw [List.flatMap_append, ← List.append_assoc, ← request_scheduled]
      split
      · exact (List.append_nil _).symm
      · show (s.request (s.home id) guest).scheduled ++ (s.request (s.home id) guest).db.cleanupRows id = _
        rw [request_db]
        exact congrArg (_ ++ ·) (List.append_nil _).symm

/-- The holder of the user himself is edited or loaded. -/
theorem cache_settle_self : (s.settle id edit guest sr).cache id =
    if s.fresh id then (s.cache id).map fun h => ⟨h.hfrom, edit h.hbr, sr⟩
    else some ⟨id, s.db.create id, .null⟩ := by
  unfold settle fresh
  cases hc : s.cache id with
  | none => exact cache_reload.trans (if_pos rfl)
  | some holder =>
      show (if holder.checkStateRecorder .null = true then _ else _ : BuddyStore).cache id =
        if holder.checkStateRecorder .null = true then _ else _
      split
      · exact cache_put.trans (if_pos rfl)
      · rw [cache_reload, if_pos rfl, request_db]

theorem cached_settle_self : (s.settle id edit guest sr).Cached id := by
  unfold Cached
  rw [cache_settle_self]
  unfold fresh
  cases s.cache id with
  | none => rfl
  | some holder =>
      simp only [Option.any_some, Option.map_some]
      split <;> rfl

/-- Another holder is loaded if it is the guest's and missing on its own server. -/
theorem cache_settle_of_ne (ha : a ≠ id) : (s.settle id edit guest sr).cache a =
    if s.Cached id ∧ s.missing (s.home id) guest = some a ∧ s.home a = s.home id then
      some ⟨a, s.db.create a, .null⟩
    else s.cache a := by
  unfold settle
  split
  · rename_i holder hc
    have hcached : s.Cached id := Option.isSome_iff_exists.mpr ⟨holder, hc⟩
    simp only [hcached, true_and]
    split
    · rw [cache_put, if_neg ha, cache_request]
    · rw [cache_reload, if_neg ha, cache_request]
  · rename_i hc
    rw [cache_reload, if_neg ha, if_neg]
    rintro ⟨hcached, -⟩
    unfold Cached at hcached
    rw [hc] at hcached
    cases hcached

/-- **Where a holder comes from** after the step. -/
theorem mem_cache_settle {h : BuddyRelationHolders} (hmem : h ∈ (s.settle id edit guest sr).cache a) :
    a ≠ id ∧ h ∈ s.cache a ∨ a ∈ s.settleLoads id guest ∧ h.hbr = s.db.create a ∨
      a = id ∧ s.fresh id = true ∧ ∃ h₀ ∈ s.cache id, h.hbr = edit h₀.hbr := by
  by_cases ha : a = id
  · subst ha
    rw [cache_settle_self] at hmem
    split at hmem
    · rename_i hfresh
      obtain ⟨h₀, hmem₀, rfl⟩ := Option.map_eq_some_iff.mp hmem
      exact .inr (.inr ⟨rfl, hfresh, h₀, hmem₀, rfl⟩)
    · rename_i hstale
      cases hmem
      refine .inr (.inl ⟨?_, rfl⟩)
      unfold settleLoads
      unfold fresh at hstale
      cases hc : s.cache a with
      | none => simp
      | some holder =>
          rw [hc] at hstale
          have hcheck : holder.checkStateRecorder .null ≠ true := hstale
          simp [hcheck]
  · rw [cache_settle_of_ne ha] at hmem
    split at hmem
    · rename_i hload
      obtain ⟨hcached, hmissing, -⟩ := hload
      cases hmem
      refine .inr (.inl ⟨?_, rfl⟩)
      obtain ⟨holder, hc⟩ := Option.isSome_iff_exists.mp hcached
      unfold settleLoads
      rw [hc, hmissing]
      simp
    · exact .inl ⟨ha, hmem⟩

/-- **The relation of a pair that the edit does not touch.** -/
theorem Agrees.settle (h : s.Agrees a b r) (hab : a = b → r = .noPath)
    (htouch : BuddyRelation.Touches y edit) (ha : a = id → b ≠ y) (hb : b = id → a ≠ y)
    (hloads : ∀ u ∈ s.settleLoads id guest, s.db.Unpaired u) :
    (s.settle id edit guest sr).Agrees a b r := by
  have hsees : ∀ a b r, s.Agrees a b r → (a = b → r = .noPath) → (a = id → b ≠ y) →
      (s.settle id edit guest sr).Sees a b r := by
    intro a b r h hab ha holder hmem
    rcases mem_cache_settle hmem with ⟨-, hmem⟩ | ⟨hload, hcreate⟩ | ⟨rfl, -, h₀, hmem, hedit⟩
    · exact h.one holder hmem
    · rw [hcreate]
      exact BuddyDatabase.shows_create_of_unpaired h.rows h.ne_self hab (hloads a hload)
    · rw [hedit]
      exact (h.one h₀ hmem).congr fun d => htouch _ d b (ha rfl)
  refine ⟨h.ne_self, hsees a b r h hab ha, ?_, by rw [settle_db]; exact h.rows⟩
  exact hsees b a r.mirror h.symm (fun he => by rw [hab he.symm]; rfl) hb

/-- The holder that is settled shows the relation, if it does after the edit and the rows do. -/
theorem sees_settle_self (hrows : s.db.RowsShow id b r) (hself : r ≠ .self) (hbi : r ≠ .biBlock)
    (hedit : s.fresh id = true → ∀ h ∈ s.cache id, (edit h.hbr).Shows b r) :
    (s.settle id edit guest sr).Sees id b r := by
  intro holder hmem
  rcases mem_cache_settle hmem with ⟨hne, -⟩ | ⟨-, hcreate⟩ | ⟨-, hfresh, h₀, hmem, heq⟩
  · exact absurd rfl hne
  · rw [hcreate]
    exact BuddyDatabase.shows_create hrows hself hbi
  · rw [heq]
    exact hedit hfresh h₀ hmem

/-- Another holder shows the relation, if it did and the rows do. -/
theorem Sees.settle (h : s.Sees a b r) (ha : a ≠ id) (hrows : s.db.RowsShow a b r) (hself : r ≠ .self)
    (hbi : r ≠ .biBlock) : (s.settle id edit guest sr).Sees a b r := by
  intro holder hmem
  rcases mem_cache_settle hmem with ⟨-, hmem⟩ | ⟨-, hcreate⟩ | ⟨he, -⟩
  · exact h holder hmem
  · rw [hcreate]
    exact BuddyDatabase.shows_create hrows hself hbi
  · exact absurd he ha

/-! ## The two halves of an update -/

/-- The change that an update makes in the holder of one of the two users. -/
def sideEdit (relation : Relationship) (remote biblock : Bool) : BuddyState →
    BuddyRelation → BuddyRelation
  | .addApply => fun h => if remote then h.addApplied relation.fromId else h.addApply relation.toId
  | .acceptApply => fun h =>
    if remote then (h.removeApply relation.toId).addFriend relation.toId
    else (h.removeApplied relation.fromId).addFriend relation.fromId
  | .denyApply => fun h =>
    if remote then h.removeApply relation.toId else h.removeApplied relation.fromId
  | .removeFriend => fun h => h.removeFriend (if remote then relation.fromId else relation.toId)
  | .addBlock => blockEdit (if remote then relation.fromId else relation.toId) biblock
  | .removeBlock => unblockEdit (if remote then relation.fromId else relation.toId) biblock
  | .nullState | .checkError => fun h => h

/-- The user whose holder is changed in one half of an update. -/
def sideId (relation : Relationship) (remote : Bool) (oper : BuddyState) : ℤ :=
  if remote then remoteId oper relation else localId oper relation

/-- Whom both halves send a request about. -/
def sideGuest (relation : Relationship) : BuddyState → Option ℤ
  | .removeBlock => none
  | _ => some relation.toId

/-- A call edits the holder it finds or loads. -/
theorem cacheCall_eq (oper : Operation) (cache : BuddyCache) (create : ℤ → BuddyRelation)
    (relation : Relationship) (sr : StateRecorder) (main remote biblock : Bool) :
    cacheCall cache create oper.state relation sr (buildContext .request main remote biblock) =
      cacheUpdate cache create (sideId relation remote oper.state)
        (sideEdit relation remote biblock oper.state) (sideGuest relation oper.state) relation
        oper.state (!remote) sr (buildContext .request main remote biblock) := by
  cases oper <;> cases remote <;> cases biblock <;> rfl

/-- The objects after the request are those of the request without the edit, but for the user
himself. -/
theorem update_request (cache : BuddyCache) (create : ℤ → BuddyRelation) {h : BuddyRelationHolders}
    (hc : cache id = some h) (h' h'' : BuddyRelationHolders) :
    update (guest.elim (update cache id (some h'), [])
        (cacheUserCountGuestRequest (update cache id (some h')) create)).1 id (some h'') =
      update ((guest.filter fun u => (cache u).isNone).elim cache fun u =>
        update cache u (some ⟨u, create u, .null⟩)) id (some h'') := by
  cases guest with
  | none => exact update_idem _ _ _
  | some u =>
      simp only [Option.elim_some, Option.filter_some]
      unfold cacheUserCountGuestRequest
      by_cases hu : u = id
      · subst hu
        rw [update_self, hc]
        exact update_idem _ _ _
      · rw [update_of_ne hu]
        cases hcu : cache u with
        | some holder => exact update_idem _ _ _
        | none =>
            show update (update (update cache id _) u _) id _ =
              update (update cache u _) id _
            rw [update_comm (Ne.symm hu), update_idem]

/-- The request loads the guest if he is missing before the edit. -/
theorem loaded_request (cache : BuddyCache) (create : ℤ → BuddyRelation) {h : BuddyRelationHolders}
    (hc : cache id = some h) (h' : BuddyRelationHolders) :
    (guest.elim (update cache id (some h'), [])
        (cacheUserCountGuestRequest (update cache id (some h')) create)).2 =
      (guest.filter fun u => (cache u).isNone).toList := by
  cases guest with
  | none => rfl
  | some u =>
      simp only [Option.elim_some, Option.filter_some]
      unfold cacheUserCountGuestRequest
      by_cases hu : u = id
      · subst hu
        rw [update_self, hc]
        rfl
      · rw [update_of_ne hu]
        cases hcu : cache u with
        | some holder => rfl
        | none => rfl

/-- The store behind a request, with the holder of the user in it. -/
theorem put_request (s : BuddyStore) (id : ℤ) (guest : Option ℤ) (holder : BuddyRelationHolders) :
    (s.request (s.home id) guest).put id holder = { s with
      toCleanupState := (s.missing (s.home id) guest).toList.foldl
        (fun c userId => c.step (.create userId)) s.toCleanupState
      caches := update s.caches (s.home id) (update
        ((s.missing (s.home id) guest).elim (s.caches (s.home id)) fun u =>
          update (s.caches (s.home id)) u (some ⟨u, s.db.create u, .null⟩)) id (some holder)) } := by
  unfold put
  rw [request_home]
  unfold request
  cases s.missing (s.home id) guest with
  | none => rfl
  | some u =>
      have hself : (s.load (s.home id) u).caches (s.home id) =
          update (s.caches (s.home id)) u (some ⟨u, s.db.create u, .null⟩) :=
        update_self _ _ _
      have hcaches : (s.load (s.home id) u).caches = update s.caches (s.home id)
          (update (s.caches (s.home id)) u (some ⟨u, s.db.create u, .null⟩)) := rfl
      simp only [Option.elim_some, hself]
      rw [hcaches, update_idem]
      rfl

/-- A reload forgets what was in the holder. -/
theorem reload_put : (s.put id holder).reload id = s.reload id := by
  unfold reload load put
  dsimp only
  rw [update_idem, update_self, update_idem]

/-- A half of an update settles the holder of the user it is for. -/
theorem updateHalf_eq (s : BuddyStore) (oper : Operation) (relation : Relationship)
    (remote biblock : Bool) :
    s.updateHalf relation oper.state (sideId relation remote oper.state)
        (buildContext .request true remote biblock) =
      s.settle (sideId relation remote oper.state) (sideEdit relation remote biblock oper.state)
        (sideGuest relation oper.state) ⟨recordedId relation oper.state (!remote), oper.state⟩ := by
  have hmain : isMainCache (buildContext .request true remote biblock) = false := rfl
  have hstate : oper.state ≠ .checkError := by cases oper <;> decide
  generalize hid : sideId relation remote oper.state = id
  generalize hedit : sideEdit relation remote biblock oper.state = edit
  generalize hguest : sideGuest relation oper.state = guest
  have hcall := cacheCall_eq oper (s.caches (s.home id)) s.db.create relation .null true remote biblock
  rw [hid, hedit, hguest] at hcall
  unfold updateHalf
  rw [hcall]
  unfold cacheUpdate settle
  cases hc : s.caches (s.home id) id with
  | none =>
      have hcache : s.cache id = none := hc
      rw [hcache]
      have hput : update s.caches (s.home id) (s.caches (s.home id)) = s.caches :=
        update_eq_self _ _
      dsimp only
      rw [hput]
      rfl
  | some h =>
      have hcache : s.cache id = some h := hc
      rw [hcache]
      dsimp only
      rw [update_request _ _ hc, loaded_request _ _ hc]
      have hput := put_request s id guest
      unfold missing at hput
      rw [← hput]
      unfold assignStateRecorder
      have hcheck : ({ h with hbr := edit h.hbr } : BuddyRelationHolders).checkStateRecorder .null =
        h.checkStateRecorder .null := rfl
      simp only [hmain, Bool.false_eq_true, if_false, hcheck]
      split
      · exact if_neg hstate
      · exact (if_pos rfl).trans reload_put

/-- **An update settles two holders.** -/
theorem updateRelation_eq (s : BuddyStore) (oper : Operation) (relation : Relationship)
    (biblock : Bool) :
    s.updateRelation relation oper.state biblock =
      (s.settle (localId oper.state relation) (sideEdit relation false biblock oper.state)
        (sideGuest relation oper.state) ⟨recordedId relation oper.state true, oper.state⟩).settle
          (remoteId oper.state relation) (sideEdit relation true biblock oper.state)
          (sideGuest relation oper.state) ⟨recordedId relation oper.state false, oper.state⟩ := by
  unfold updateRelation
  have hlocal := updateHalf_eq s oper relation false biblock
  have hremote := fun s' => updateHalf_eq s' oper relation true biblock
  unfold sideId at hlocal hremote
  simp only [Bool.false_eq_true, if_false] at hlocal
  simp only [if_true] at hremote
  rw [hlocal, hremote]
  rfl

end BuddyStore

end Oce.Buddy
