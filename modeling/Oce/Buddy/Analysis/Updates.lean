import Oce.Buddy.Analysis.Relations

/-!
# What an operation does to the relations

The rows that are written belong to one pair (`SameRows`), and so do the edits of the two holders.
`Turns s s' x y r` says that the relation of `x` and `y` has become `r` and that every other pair
agrees as before; `turns_update` gets it from the rows and the two edits, provided that nobody who is
loaded is in a `biBlock`. With rows that outlast the scheduled statements it is `Moves`. Whom an
update loads is `askLoads` for a request and a block and `answerLoads` for the answer to a request.
-/

set_option autoImplicit false

namespace Oce.Buddy

open Function Oce.Base

variable {row row' : ℤ × ℤ} {rows : Rows} {a b x y : ℤ} {oper : Operation}
  {holder : BuddyRelationHolders} {relation : Relationship} {state : BuddyState}

/-! ## Rows -/

@[simp] theorem Rows.mem_replaceRow : row' ∈ rows.replaceRow row ↔ row' = row ∨ row' ∈ rows := by
  unfold Rows.replaceRow
  rw [List.mem_append, List.mem_filter, List.mem_singleton]
  by_cases h : row' = row
  · simp [h]
  · simp [h]

@[simp] theorem Rows.mem_deleteRow : row' ∈ rows.deleteRow row ↔ row' ∈ rows ∧ row' ≠ row := by
  unfold Rows.deleteRow
  simp

/-- The pair is another one than `{x, y}`. -/
def OtherPair (a b x y : ℤ) : Prop := ¬ (a = x ∧ b = y) ∧ ¬ (a = y ∧ b = x)

theorem OtherPair.swap (h : OtherPair a b x y) : OtherPair b a x y :=
  ⟨fun ⟨hb, ha⟩ => h.2 ⟨ha, hb⟩, fun ⟨hb, ha⟩ => h.1 ⟨ha, hb⟩⟩

theorem OtherPair.symm (h : OtherPair a b x y) : OtherPair a b y x := ⟨h.2, h.1⟩

namespace BuddyDatabase

variable {db db' : BuddyDatabase} {a b x y : ℤ} {r : BuddyDesc}

/-- The rows of other pairs are the same. -/
def SameRows (db db' : BuddyDatabase) (x y : ℤ) : Prop :=
  ∀ a b r, OtherPair a b x y → db.RowsSay a b r → db'.RowsSay a b r

theorem SameRows.rowsShow (h : SameRows db db' x y) (hother : OtherPair a b x y)
    (hrows : db.RowsShow a b r) : db'.RowsShow a b r :=
  ⟨h a b r hother hrows.1, h b a r.mirror hother.swap hrows.2⟩

theorem sameRows_insertBuddyApply : SameRows db (db.insertBuddyApply x y) x y := by
  intro a b r hother hrows
  refine ⟨hrows.block, hrows.friend, ?_, ?_⟩
  · simp [insertBuddyApply, Prod.ext_iff, hother.1, hrows.applicant]
  · simp [insertBuddyApply, Prod.ext_iff, hother.1, hrows.accepter]

theorem sameRows_deleteBuddyApply : SameRows db (db.deleteBuddyApply x y) x y := by
  intro a b r hother hrows
  refine ⟨hrows.block, hrows.friend, ?_, ?_⟩
  · simp [deleteBuddyApply, Prod.ext_iff, hother.1, hrows.applicant]
  · simp [deleteBuddyApply, Prod.ext_iff, hother.1, hrows.accepter]

theorem sameRows_insertRelationBi : SameRows db (db.insertRelationBi x y) x y := by
  intro a b r hother hrows
  refine ⟨hrows.block, ?_, hrows.applicant, hrows.accepter⟩
  simp [insertRelationBi, Prod.ext_iff, hother.1, hother.2, hrows.friend]

theorem sameRows_insertBlock : SameRows db (db.insertBlock x y) x y := by
  intro a b r hother hrows
  refine ⟨?_, hrows.friend, hrows.applicant, hrows.accepter⟩
  simp [insertBlock, Prod.ext_iff, hother.1, hrows.block]

/-! The rows of the pair itself. -/

/-- The rows of a request. -/
theorem RowsShow.insertBuddyApply (h : db.RowsShow x y r) (hxy : x ≠ y)
    (hr : r = .noPath ∨ r = .apply) : (db.insertBuddyApply x y).RowsShow x y .apply := by
  obtain ⟨⟨hb, hf, ha, hc⟩, ⟨hb', hf', ha', hc'⟩⟩ := h
  have hyx := Ne.symm hxy
  rcases hr with rfl | rfl
  · refine ⟨⟨?_, ?_, ?_, ?_⟩, ⟨?_, ?_, ?_, ?_⟩⟩ <;>
      simp_all [BuddyDatabase.insertBuddyApply, BuddyDesc.mirror]
  · refine ⟨⟨?_, ?_, ?_, ?_⟩, ⟨?_, ?_, ?_, ?_⟩⟩ <;>
      simp_all [BuddyDatabase.insertBuddyApply, BuddyDesc.mirror]

/-- Without an apply of `y` to `x` there is no row to delete. -/
theorem RowsShow.deleteBuddyApply_eq_self (h : db.RowsShow x y r) (hr : r ≠ .applied) :
    db.deleteBuddyApply y x = db := by
  have hmirror : r.mirror ≠ .apply := by
    cases r <;> simp_all [BuddyDesc.mirror]
  have hsame : ∀ rows : Rows, (y, x) ∉ rows → rows.deleteRow (y, x) = rows := by
    intro rows hnot
    refine List.filter_eq_self.mpr fun row hrow => ?_
    have hne : row ≠ (y, x) := fun he => hnot (he ▸ hrow)
    simpa using hne
  unfold BuddyDatabase.deleteBuddyApply
  rw [hsame _ fun hmem => hmirror (h.2.applicant.mp hmem),
    hsame _ fun hmem => hmirror (h.2.accepter.mp hmem)]

theorem RowsShow.deleteBuddyApply (h : db.RowsShow x y .applied) (hxy : x ≠ y) :
    (db.deleteBuddyApply y x).RowsShow x y .noPath := by
  obtain ⟨⟨hb, hf, ha, hc⟩, ⟨hb', hf', ha', hc'⟩⟩ := h
  have hyx := Ne.symm hxy
  refine ⟨⟨?_, ?_, ?_, ?_⟩, ⟨?_, ?_, ?_, ?_⟩⟩ <;>
    simp_all [BuddyDatabase.deleteBuddyApply, BuddyDesc.mirror]

theorem RowsShow.insertRelationBi (h : db.RowsShow x y .noPath) (hxy : x ≠ y) :
    (db.insertRelationBi y x).RowsShow x y .friend := by
  obtain ⟨⟨hb, hf, ha, hc⟩, ⟨hb', hf', ha', hc'⟩⟩ := h
  have hyx := Ne.symm hxy
  refine ⟨⟨?_, ?_, ?_, ?_⟩, ⟨?_, ?_, ?_, ?_⟩⟩ <;>
    simp_all [BuddyDatabase.insertRelationBi, BuddyDesc.mirror]

/-- The rows of a block. -/
theorem RowsShow.insertBlock (h : db.RowsShow x y r) (hxy : x ≠ y)
    (hr : r = .noPath ∨ r = .block) : (db.insertBlock x y).RowsShow x y .block := by
  obtain ⟨⟨hb, hf, ha, hc⟩, ⟨hb', hf', ha', hc'⟩⟩ := h
  have hyx := Ne.symm hxy
  rcases hr with rfl | rfl
  · refine ⟨⟨?_, ?_, ?_, ?_⟩, ⟨?_, ?_, ?_, ?_⟩⟩ <;>
      simp_all [BuddyDatabase.insertBlock, BuddyDesc.mirror]
  · refine ⟨⟨?_, ?_, ?_, ?_⟩, ⟨?_, ?_, ?_, ?_⟩⟩ <;>
      simp_all [BuddyDatabase.insertBlock, BuddyDesc.mirror]

end BuddyDatabase

namespace BuddyStore

variable {s s' t : BuddyStore} {a b id u x y : ℤ} {server : ℕ} {r r' : BuddyDesc} {guest : Option ℤ}
  {edit : BuddyRelation → BuddyRelation} {sr : StateRecorder}

/-! ## Pairs that are kept -/

/-- The relation of `x` and `y` has become `r`, and every other pair agrees as before. -/
structure Turns (s s' : BuddyStore) (x y : ℤ) (r : BuddyDesc) : Prop where
  agrees : ∀ a b r, OtherPair a b x y → (a = b → r = .noPath) → s.Agrees a b r → s'.Agrees a b r
  pair : s'.Agrees x y r

/-- The same with rows that outlast the scheduled statements. -/
structure Moves (s s' : BuddyStore) (x y : ℤ) (r : BuddyDesc) : Prop where
  related : ∀ a b r, OtherPair a b x y → (a = b → r = .noPath) → s.Related a b r → s'.Related a b r
  pair : s'.Related x y r

/-- A user without a relation to himself has no row to lose. -/
theorem Agrees.related (h : s.Agrees a b r) (hab : a = b → r = .noPath)
    (hlasts : ∀ a b, a ≠ b → s.Lasts a b) : s.Related a b r := by
  by_cases he : a = b
  · subst he
    have hnot : (a, a) ∉ s.db.block := by
      rw [h.rows.1.block, hab rfl]
      decide
    exact ⟨h, fun hmem => absurd hmem hnot, fun hmem => absurd hmem hnot⟩
  · exact ⟨h, hlasts a b he, hlasts b a (Ne.symm he)⟩

theorem Turns.moves (h : Turns s s' x y r) (hxy : x = y → r = .noPath)
    (hlasts : ∀ a b, a ≠ b → s'.Lasts a b) : Moves s s' x y r where
  related := fun a b r hother hab hrel => (h.agrees a b r hother hab hrel.toAgrees).related hab hlasts
  pair := h.pair.related hxy hlasts

theorem moves_self (h : s.Related x y r) : Moves s s x y r :=
  ⟨fun _ _ _ _ _ hrel => hrel, h⟩

/-- A change that keeps all pairs, before one that turns a pair. -/
theorem Turns.after (h : Turns s s' x y r)
    (hkeep : ∀ a b r, (a = b → r = .noPath) → t.Agrees a b r → s.Agrees a b r) : Turns t s' x y r where
  agrees := fun a b r hother hab hrel => h.agrees a b r hother hab (hkeep a b r hab hrel)
  pair := h.pair

/-! ## Locating -/

/-- The user whose relations are looked up is loaded if he is not cached. -/
def located (s : BuddyStore) (id : ℤ) : BuddyStore := if s.Cached id then s else s.load (s.home id) id

/-- Whom the lookup loads. -/
def locateLoads (s : BuddyStore) (id : ℤ) : List ℤ := if s.Cached id then [] else [id]

theorem locate_eq : s.locateBuddyRelation id = (s.located id, s.view id) := by
  unfold locateBuddyRelation located view
  by_cases hcached : s.Cached id
  · obtain ⟨holder, hc⟩ := Option.isSome_iff_exists.mp hcached
    rw [if_pos hcached, hc]
    rfl
  · have hc : s.cache id = none := by simpa [Cached] using hcached
    rw [if_neg hcached, hc]
    rfl

theorem located_db : (s.located id).db = s.db := by
  unfold located
  split <;> rfl

theorem located_home : (s.located id).home = s.home := by
  unfold located
  split <;> rfl

theorem located_scheduled : (s.located id).scheduled =
    s.scheduled ++ (s.locateLoads id).flatMap s.db.cleanupRows := by
  unfold located locateLoads
  split
  · exact (List.append_nil _).symm
  · exact congrArg (s.scheduled ++ ·) (List.append_nil _).symm

theorem caches_located (ha : a ≠ id) : (s.located id).caches server a = s.caches server a := by
  unfold located
  split
  · rfl
  · unfold load
    dsimp only
    by_cases hserver : server = s.home id
    · subst hserver
      rw [update_self, update_of_ne ha]
    · rw [update_of_ne hserver]

theorem cache_located (ha : a ≠ id) : (s.located id).cache a = s.cache a := by
  unfold cache
  rw [located_home, caches_located ha]

theorem cached_located : (s.located id).Cached id := by
  unfold located
  split
  · assumption
  · unfold Cached
    rw [cache_load, if_pos ⟨rfl, rfl⟩]
    rfl

theorem stale_located : (s.located id).stale id = s.stale id := by
  unfold located
  split
  · rfl
  · rename_i hcached
    have hc : s.cache id = none := by simpa [Cached] using hcached
    unfold stale
    rw [cache_load, if_pos ⟨rfl, rfl⟩, hc]
    rfl

/-- A lookup keeps all pairs, if the user is unpaired. -/
theorem Agrees.located (h : s.Agrees a b r) (hab : a = b → r = .noPath)
    (hunpaired : ∀ u ∈ s.locateLoads id, s.db.Unpaired u) : (s.located id).Agrees a b r := by
  unfold BuddyStore.located
  unfold locateLoads at hunpaired
  split
  · exact h
  · rename_i hcached
    rw [if_neg hcached] at hunpaired
    exact h.load hab (hunpaired id (by simp))

/-! ## Whom an update loads -/

/-- Whom both halves of an update load. -/
def updateLoads (s : BuddyStore) (oper : Operation) (relation : Relationship) : List ℤ :=
  s.settleLoads (localId oper.state relation) (sideGuest relation oper.state) ++
    (s.settle (localId oper.state relation) (sideEdit relation false false oper.state)
      (sideGuest relation oper.state) ⟨recordedId relation oper.state true, oper.state⟩).settleLoads
        (remoteId oper.state relation) (sideGuest relation oper.state)

theorem updateRelation_db (oper : Operation) (relation : Relationship) :
    (s.updateRelation relation oper.state false).db = s.db := by
  rw [updateRelation_eq, settle_db, settle_db]

theorem updateRelation_scheduled (oper : Operation) (relation : Relationship) :
    (s.updateRelation relation oper.state false).scheduled =
      s.scheduled ++ (s.updateLoads oper relation).flatMap s.db.cleanupRows := by
  unfold updateLoads
  rw [updateRelation_eq, settle_scheduled, settle_scheduled, settle_db, List.flatMap_append,
    List.append_assoc]

/-- The holder of the second user is loaded because its recorder is set, or because he is not cached
and the request of the first user's server does not load him on his own. -/
def OtherReloads (s : BuddyStore) (x y : ℤ) : Prop :=
  s.stale y = true ∨ s.cache y = none ∧ s.home y ≠ s.home x

instance (s : BuddyStore) (x y : ℤ) : Decidable (s.OtherReloads x y) :=
  inferInstanceAs (Decidable (_ ∨ s.cache y = none ∧ _))

/-- Whom a request or a block of the cached user `x` loads. -/
def askLoads (s : BuddyStore) (x y : ℤ) : List ℤ :=
  (if s.caches (s.home x) y = none then [y] else []) ++ (if s.stale x = true then [x] else []) ++
    if s.OtherReloads x y then [y] else []

/-- Whom the answer of the cached user `x` to a request of `y` loads. -/
def answerLoads (s : BuddyStore) (x y : ℤ) : List ℤ :=
  (if s.stale x = true then [x] else []) ++
    (if s.Cached y ∧ s.caches (s.home y) x = none then [x] else []) ++
      if s.fresh y = true then [] else [y]

theorem settleLoads_of_none (hc : s.cache id = none) : s.settleLoads id guest = [id] := by
  unfold settleLoads
  rw [hc]

theorem settleLoads_of_cached (hcached : s.Cached id) : s.settleLoads id guest =
    (s.missing (s.home id) guest).toList ++ if s.stale id = true then [id] else [] := by
  obtain ⟨holder, hc⟩ := Option.isSome_iff_exists.mp hcached
  unfold settleLoads stale
  rw [hc]
  by_cases hcheck : holder.checkStateRecorder .null = true
  · simp [hcheck]
  · simp [hcheck]

theorem missing_some : s.missing server (some u) = if s.caches server u = none then some u else none := by
  unfold missing
  cases h : s.caches server u <;> simp [Option.filter, h]

/-- Nobody is missing on his own server who is cached there. -/
theorem missing_of_cached (hcached : s.Cached u) : s.missing (s.home u) (some u) = none := by
  obtain ⟨holder, hc⟩ := Option.isSome_iff_exists.mp hcached
  have hne : s.caches (s.home u) u ≠ none := by
    have hsome : s.caches (s.home u) u = some holder := hc
    rw [hsome]
    exact nofun
  rw [missing_some, if_neg hne]

/-- Another server keeps its cache. -/
theorem caches_settle_of_ne (h : server ≠ s.home id) :
    (s.settle id edit guest sr).caches server = s.caches server := by
  have hrequest : (s.request (s.home id) guest).caches server = s.caches server := by
    unfold request
    cases s.missing (s.home id) guest with
    | none => rfl
    | some u => exact update_of_ne h _ _
  unfold settle reload
  split
  · split
    · unfold put
      dsimp only
      rw [request_home, update_of_ne h, hrequest]
    · unfold load
      dsimp only
      rw [request_home, update_of_ne h, hrequest]
  · exact update_of_ne h _ _

theorem cache_settle_of_missing (hcached : s.Cached x) (hxy : x ≠ y)
    (hmissing : s.caches (s.home x) y = none) (hhome : s.home y = s.home x) :
    (s.settle x edit (some y) sr).cache y = some ⟨y, s.db.create y, .null⟩ := by
  rw [cache_settle_of_ne hxy.symm, if_pos]
  exact ⟨hcached, by rw [missing_some, if_pos hmissing], hhome⟩

theorem cache_settle_of_not_missing (hxy : x ≠ y)
    (hnot : ¬ (s.caches (s.home x) y = none ∧ s.home y = s.home x)) :
    (s.settle x edit (some y) sr).cache y = s.cache y := by
  rw [cache_settle_of_ne hxy.symm, if_neg]
  rintro ⟨-, hmissing, hhome⟩
  refine hnot ⟨?_, hhome⟩
  rw [missing_some] at hmissing
  by_contra hne
  rw [if_neg hne] at hmissing
  cases hmissing

/-- The second half of a request or a block loads the second user. -/
theorem settleLoads_settle_ask (hcached : s.Cached x) (hxy : x ≠ y) :
    (s.settle x edit (some y) sr).settleLoads y (some y) = if s.OtherReloads x y then [y] else [] := by
  by_cases hmissing : s.caches (s.home x) y = none ∧ s.home y = s.home x
  · have hcache : (s.settle x edit (some y) sr).cache y = some ⟨y, s.db.create y, .null⟩ :=
      cache_settle_of_missing hcached hxy hmissing.1 hmissing.2
    have hcached' : (s.settle x edit (some y) sr).Cached y := by
      unfold Cached
      rw [hcache]
      rfl
    have hstale : (s.settle x edit (some y) sr).stale y = false := by
      unfold stale
      rw [hcache]
      rfl
    have hc : s.cache y = none := by
      unfold cache
      rw [hmissing.2]
      exact hmissing.1
    have hnot : ¬ s.OtherReloads x y := by
      rintro (hst | ⟨-, hne⟩)
      · unfold stale at hst
        rw [hc] at hst
        cases hst
      · exact hne hmissing.2
    rw [settleLoads_of_cached hcached', missing_of_cached hcached', hstale, if_neg hnot]
    rfl
  · have hcache : (s.settle x edit (some y) sr).cache y = s.cache y :=
      cache_settle_of_not_missing hxy hmissing
    have hstale : (s.settle x edit (some y) sr).stale y = s.stale y := by
      unfold stale
      rw [hcache]
    by_cases hcachedy : s.Cached y
    · have hcached' : (s.settle x edit (some y) sr).Cached y := by
        unfold Cached
        rw [hcache]
        exact hcachedy
      have hne : s.cache y ≠ none := Option.isSome_iff_ne_none.mp hcachedy
      rw [settleLoads_of_cached hcached', missing_of_cached hcached', hstale]
      simp [OtherReloads, hne]
    · have hc : s.cache y = none := by simpa [Cached] using hcachedy
      have hother : s.OtherReloads x y := by
        refine .inr ⟨hc, fun hhome => hmissing ⟨?_, hhome⟩⟩
        rw [← hhome]
        exact hc
      rw [settleLoads_of_none (hcache.trans hc), if_pos hother]

/-- **Whom a request or a block loads.** -/
theorem updateLoads_ask (hoper : oper = .addApply ∨ oper = .addBlock) (hcached : s.Cached x)
    (hxy : x ≠ y) : s.updateLoads oper ⟨x, y⟩ = s.askLoads x y := by
  have hguest : (s.missing (s.home x) (some y)).toList =
      if s.caches (s.home x) y = none then [y] else [] := by
    rw [missing_some]
    split <;> rfl
  unfold updateLoads askLoads
  rcases hoper with rfl | rfl
  · show s.settleLoads x (some y) ++ (s.settle x _ (some y) _).settleLoads y (some y) = _
    rw [settleLoads_of_cached hcached, settleLoads_settle_ask hcached hxy, hguest]
  · show s.settleLoads x (some y) ++ (s.settle x _ (some y) _).settleLoads y (some y) = _
    rw [settleLoads_of_cached hcached, settleLoads_settle_ask hcached hxy, hguest]

/-- The second half of an answer loads the first user where he is missing, and the second. -/
theorem settleLoads_settle_answer (hcached : s.Cached x) (hxy : x ≠ y) :
    (s.settle x edit (some x) sr).settleLoads y (some x) =
      (if s.Cached y ∧ s.caches (s.home y) x = none then [x] else []) ++
        if s.fresh y = true then [] else [y] := by
  have hcache : (s.settle x edit (some x) sr).cache y = s.cache y := by
    rw [cache_settle_of_ne hxy.symm, missing_of_cached hcached, if_neg]
    rintro ⟨-, hnone, -⟩
    cases hnone
  by_cases hcachedy : s.Cached y
  · have hcached' : (s.settle x edit (some x) sr).Cached y := by
      unfold Cached
      rw [hcache]
      exact hcachedy
    have hcaches : (s.settle x edit (some x) sr).caches (s.home y) x = none ↔
        s.caches (s.home y) x = none := by
      by_cases hhome : s.home y = s.home x
      · have hself : (s.settle x edit (some x) sr).cache x ≠ none :=
          Option.isSome_iff_ne_none.mp cached_settle_self
        have hself' : s.cache x ≠ none := Option.isSome_iff_ne_none.mp hcached
        unfold cache at hself hself'
        rw [settle_home] at hself
        rw [hhome]
        exact iff_of_false hself hself'
      · rw [caches_settle_of_ne hhome]
    have hfresh : s.stale y = !s.fresh y := by
      obtain ⟨holder, hc⟩ := Option.isSome_iff_exists.mp hcachedy
      unfold stale fresh
      rw [hc]
      rfl
    have hstale : (s.settle x edit (some x) sr).stale y = !s.fresh y := by
      rw [← hfresh]
      unfold stale
      rw [hcache]
    rw [settleLoads_of_cached hcached', settle_home, missing_some, hstale]
    simp only [hcaches, hcachedy, true_and]
    congr 1
    · split <;> rfl
    · cases s.fresh y <;> rfl
  · have hc : s.cache y = none := by simpa [Cached] using hcachedy
    have hfresh : s.fresh y = false := fresh_eq_false_iff.mpr (.inl hc)
    rw [settleLoads_of_none (hcache.trans hc), hfresh]
    simp [hcachedy]

/-- The second holder is not touched by the first half of an answer. -/
theorem mem_cache_settle_answer (hcached : s.Cached x) (hxy : x ≠ y)
    (hmem : holder ∈ (s.settle x edit (some x) sr).cache y) : holder ∈ s.cache y := by
  rw [cache_settle_of_ne hxy.symm, missing_of_cached hcached, if_neg] at hmem
  · exact hmem
  · rintro ⟨-, hnone, -⟩
    cases hnone

/-- **Whom an answer loads.** -/
theorem updateLoads_answer (hoper : oper = .acceptApply ∨ oper = .denyApply)
    (hcached : s.Cached x) (hxy : x ≠ y) : s.updateLoads oper ⟨y, x⟩ = s.answerLoads x y := by
  have hguest : (s.missing (s.home x) (some x)).toList = [] := by rw [missing_of_cached hcached]; rfl
  unfold updateLoads answerLoads
  rcases hoper with rfl | rfl
  · show s.settleLoads x (some x) ++ (s.settle x _ (some x) _).settleLoads y (some x) = _
    rw [settleLoads_of_cached hcached, settleLoads_settle_answer hcached hxy, hguest, List.nil_append,
      ← List.append_assoc]
  · show s.settleLoads x (some x) ++ (s.settle x _ (some x) _).settleLoads y (some x) = _
    rw [settleLoads_of_cached hcached, settleLoads_settle_answer hcached hxy, hguest, List.nil_append,
      ← List.append_assoc]

/-! ## Updates -/

/-- **An update turns the pair and keeps the others.** `s` is the store after the rows were written. -/
theorem turns_update (oper : Operation) {db : BuddyDatabase}
    (hx : localId oper.state relation = x) (hy : remoteId oper.state relation = y) (hxy : x ≠ y)
    (hsame : db.SameRows s.db x y) (hrows : s.db.RowsShow x y r') (hself : r' ≠ .self)
    (hbi : r' ≠ .biBlock)
    (htouchx : BuddyRelation.Touches y (sideEdit relation false false oper.state))
    (htouchy : BuddyRelation.Touches x (sideEdit relation true false oper.state))
    (hloads : ∀ u ∈ s.updateLoads oper relation, s.db.Unpaired u)
    (hedit : s.fresh x = true → ∀ h ∈ s.cache x,
      (sideEdit relation false false oper.state h.hbr).Shows y r')
    (hedit' : ∀ s₁, (∃ sr, s₁ = s.settle x (sideEdit relation false false oper.state)
        (sideGuest relation oper.state) sr) →
      s₁.fresh y = true → ∀ h ∈ s₁.cache y,
        (sideEdit relation true false oper.state h.hbr).Shows x r'.mirror) :
    Turns { s with db := db } (s.updateRelation relation oper.state false) x y r' := by
  have hmirror : r'.mirror ≠ .self ∧ r'.mirror ≠ .biBlock := by
    cases r' <;> simp_all [BuddyDesc.mirror]
  unfold updateLoads at hloads
  rw [hx, hy] at hloads
  rw [updateRelation_eq, hx, hy]
  generalize hsr : (⟨recordedId relation oper.state true, oper.state⟩ : StateRecorder) = sr at hloads ⊢
  generalize hs₁ : s.settle x (sideEdit relation false false oper.state)
    (sideGuest relation oper.state) sr = s₁ at hloads ⊢
  have hdb : s₁.db = s.db := by rw [← hs₁, settle_db]
  have hloads' : ∀ u ∈ s₁.settleLoads y (sideGuest relation oper.state), s₁.db.Unpaired u := by
    rw [hdb]
    exact fun u hu => hloads u (List.mem_append_right _ hu)
  refine ⟨?_, hself, ?_, ?_, ?_⟩
  · intro a b r hother hab h
    have ht : s.Agrees a b r := ⟨h.ne_self, h.one, h.other, hsame.rowsShow hother h.rows⟩
    have h₁ : s₁.Agrees a b r := by
      rw [← hs₁]
      exact ht.settle hab htouchx (fun ha hb => hother.1 ⟨ha, hb⟩) (fun hb ha => hother.2 ⟨ha, hb⟩)
        fun u hu => hloads u (List.mem_append_left _ hu)
    exact h₁.settle hab htouchy (fun ha hb => hother.2 ⟨ha, hb⟩) (fun hb ha => hother.1 ⟨ha, hb⟩) hloads'
  · have hone : s₁.Sees x y r' := by
      rw [← hs₁]
      exact sees_settle_self hrows hself hbi hedit
    exact hone.settle hxy (by rw [hdb]; exact hrows) hself hbi
  · refine sees_settle_self (by rw [hdb]; exact hrows.symm) hmirror.1 hmirror.2 ?_
    exact hedit' s₁ ⟨sr, hs₁.symm⟩
  · rw [settle_db, hdb]
    exact hrows

/-- The second holder before its edit: as it was, or just loaded. -/
theorem Sees.settle_ask (h : s.Sees y x r) (hxy : x ≠ y) (hrows : s.db.RowsShow y x r')
    (hself : r' ≠ .self) (hbi : r' ≠ .biBlock)
    (hmem : holder ∈ (s.settle x edit guest sr).cache y) :
    holder.hbr.Shows x r ∨ holder.hbr.Shows x r' := by
  rcases mem_cache_settle hmem with ⟨-, hmem⟩ | ⟨-, hcreate⟩ | ⟨he, -⟩
  · exact .inl (h holder hmem)
  · rw [hcreate]
    exact .inr (BuddyDatabase.shows_create hrows hself hbi)
  · exact absurd he hxy.symm

/-- A request to a user to whom there is no relation, or a request. -/
theorem turns_addApply (h : s.Agrees x y r) (hxy : x ≠ y) (hr : r = .noPath ∨ r = .apply)
    (hcached : s.Cached x) (hloads : ∀ u ∈ s.askLoads x y, s.db.Unpaired u) :
    Turns s ((s.insertBuddyApply x y).cacheAddApply ⟨x, y⟩) x y .apply := by
  have hrows := h.rows.insertBuddyApply hxy hr
  have hmirror : r.mirror = .noPath ∨ r.mirror = .applied := by
    rcases hr with rfl | rfl
    · exact .inl rfl
    · exact .inr rfl
  refine turns_update (s := s.insertBuddyApply x y) .addApply rfl rfl hxy
    BuddyDatabase.sameRows_insertBuddyApply hrows (by decide) (by decide)
    (BuddyRelation.touches_addSeq .apply (by decide))
    (BuddyRelation.touches_addSeq .applied (by decide)) ?_ ?_ ?_
  · have heq := updateLoads_ask (s := s.insertBuddyApply x y) (.inl rfl) hcached hxy
    rw [heq]
    exact hloads
  · intro _ holder hmem
    exact (h.one holder hmem).addSeq (by decide) hr
  · rintro s₁ ⟨sr, rfl⟩ _ holder hmem
    rcases Sees.settle_ask (s := s.insertBuddyApply x y) h.other hxy hrows.symm (by decide) (by decide) hmem
      with hshows | hshows
    · exact hshows.addSeq (by decide) hmirror
    · exact hshows.addSeq (by decide) (.inr rfl)

/-- The holder of the blocked user is right only because it is loaded. -/
theorem turns_addBlock (h : s.Agrees x y r) (hxy : x ≠ y) (hr : r = .noPath ∨ r = .block)
    (hcached : s.Cached x) (hother : s.OtherReloads x y)
    (hloads : ∀ u ∈ s.askLoads x y, (s.db.insertBlock x y).Unpaired u) :
    Turns s ((s.insertBlock x y).cacheAddBlock ⟨x, y⟩ false) x y .block := by
  refine turns_update (s := s.insertBlock x y) .addBlock rfl rfl hxy
    BuddyDatabase.sameRows_insertBlock (h.rows.insertBlock hxy hr) (by decide) (by decide)
    BuddyRelation.touches_blockEdit BuddyRelation.touches_blockEdit ?_ ?_ ?_
  · have heq := updateLoads_ask (s := s.insertBlock x y) (.inr rfl) hcached hxy
    rw [heq]
    exact hloads
  · intro _ holder hmem
    exact (h.one holder hmem).blockEdit hr
  · rintro s₁ ⟨sr, rfl⟩ hfresh
    have hnot : ¬ (s.caches (s.home x) y = none ∧ s.home y = s.home x) := by
      rintro ⟨hmissing, hhome⟩
      have hc : s.cache y = none := by
        unfold cache
        rw [hhome]
        exact hmissing
      rcases hother with hst | ⟨-, hne⟩
      · unfold stale at hst
        rw [hc] at hst
        cases hst
      · exact hne hhome
    have hstale : s.fresh y = false := fresh_eq_false_iff.mpr (hother.symm.imp And.left id)
    have hcache : ((s.insertBlock x y).settle x (sideEdit ⟨x, y⟩ false false Operation.addBlock.state)
        (some y) sr).cache y = s.cache y := cache_settle_of_not_missing hxy hnot
    have hstale' : ((s.insertBlock x y).settle x (sideEdit ⟨x, y⟩ false false Operation.addBlock.state)
        (some y) sr).fresh y = false := by
      unfold fresh at hstale ⊢
      rw [hcache]
      exact hstale
    exact absurd hfresh (Bool.eq_false_iff.mp hstale')

/-- The request of `y` is accepted by `x`. -/
theorem turns_acceptApply (h : s.Agrees x y .applied) (hxy : x ≠ y) (hcached : s.Cached x)
    (hloads : ∀ u ∈ s.answerLoads x y, s.db.Unpaired u) :
    Turns s (((s.deleteBuddyApply y x).insertRelationBi y x).cacheAcceptApply ⟨y, x⟩) x y .friend := by
  have hsame : s.db.SameRows ((s.db.deleteBuddyApply y x).insertRelationBi y x) x y :=
    fun a b r hother hrows => BuddyDatabase.sameRows_insertRelationBi a b r hother.symm
      (BuddyDatabase.sameRows_deleteBuddyApply a b r hother.symm hrows)
  have hrows := (h.rows.deleteBuddyApply hxy).insertRelationBi hxy
  refine turns_update (s := (s.deleteBuddyApply y x).insertRelationBi y x) .acceptApply rfl rfl hxy hsame
    hrows (by decide) (by decide)
    ((BuddyRelation.touches_removeSeq .applied (by decide)).comp
      (BuddyRelation.touches_addSeq .friend (by decide)))
    ((BuddyRelation.touches_removeSeq .apply (by decide)).comp
      (BuddyRelation.touches_addSeq .friend (by decide))) ?_ ?_ ?_
  · have heq := updateLoads_answer (s := (s.deleteBuddyApply y x).insertRelationBi y x) (.inl rfl) hcached hxy
    rw [heq]
    exact hloads
  · intro _ holder hmem
    have hrem : (holder.hbr.removeApplied y).Shows y .noPath :=
      (h.one holder hmem).removeSeq_self (by decide)
    show ((holder.hbr.removeApplied y).addSeq .friend y).Shows y .friend
    exact hrem.addSeq (by decide) (.inl rfl)
  · rintro s₁ ⟨sr, rfl⟩ _ holder hmem
    have hrem : (holder.hbr.removeApply x).Shows x .noPath := by
      have hmem' := mem_cache_settle_answer (s := (s.deleteBuddyApply y x).insertRelationBi y x) hcached hxy
        hmem
      exact (h.other holder hmem').removeSeq_self (by decide)
    show ((holder.hbr.removeApply x).addSeq .friend x).Shows x .friend
    exact hrem.addSeq (by decide) (.inl rfl)

/-- The request of `y` is denied by `x`. -/
theorem turns_denyApply (h : s.Agrees x y .applied) (hxy : x ≠ y) (hcached : s.Cached x)
    (hloads : ∀ u ∈ s.answerLoads x y, s.db.Unpaired u) :
    Turns s ((s.deleteBuddyApply y x).cacheDenyApply ⟨y, x⟩) x y .noPath := by
  refine turns_update (s := s.deleteBuddyApply y x) .denyApply rfl rfl hxy
    (fun a b r hother hrows => BuddyDatabase.sameRows_deleteBuddyApply a b r hother.symm hrows)
    (h.rows.deleteBuddyApply hxy) (by decide) (by decide)
    (BuddyRelation.touches_removeSeq .applied (by decide))
    (BuddyRelation.touches_removeSeq .apply (by decide)) ?_ ?_ ?_
  · have heq := updateLoads_answer (s := s.deleteBuddyApply y x) (.inr rfl) hcached hxy
    rw [heq]
    exact hloads
  · intro _ holder hmem
    exact (h.one holder hmem).removeSeq_self (by decide)
  · rintro s₁ ⟨sr, rfl⟩ _ holder hmem
    have hmem' := mem_cache_settle_answer (s := s.deleteBuddyApply y x) hcached hxy hmem
    exact (h.other holder hmem').removeSeq_self (by decide)

/-- A reload of an unpaired user. -/
theorem turns_reload (h : s.Agrees x y r) (hxy : x = y → r = .noPath) (hunpaired : s.db.Unpaired u) :
    Turns s (s.reload u) x y r where
  agrees := fun _ _ _ _ hab hrel => hrel.load hab hunpaired
  pair := h.load hxy hunpaired

theorem turns_self (h : s.Agrees x y r) : Turns s s x y r :=
  ⟨fun _ _ _ _ _ hrel => hrel, h⟩

/-- In a holder where no list has the user, a lookup finds nothing. -/
theorem shows_noPath_of_desc (hdesc : s.desc a b = .noPath) : (s.view a).Shows b .noPath :=
  BuddyRelation.shows_noPath_of_getCount hdesc

/-! ## One operation -/

/-- The lookup of an operation that is not refused. -/
theorem processHandler_eq {d : BuddyDesc}
    (hnot : ¬ (relation.fromId = relation.toId ∧ (state = .addApply ∨ state = .addBlock)))
    (hshows : ((s.specialHandle state relation).view (localId state relation)).Shows relation.fromId d) :
    s.processHandler state relation =
      let t := (s.specialHandle state relation).located (localId state relation)
      if d = .noPath then t.itemEmptyCheck state relation else t.processHandleWithState state relation d := by
  unfold processHandler
  rw [if_neg hnot]
  dsimp only
  rw [locate_eq, hshows.getCount_eq]
  by_cases hd : d = .noPath
  · rw [if_pos hd, if_pos hd, if_pos rfl]
  · rw [if_neg hd, if_neg hd]
    rfl

/-- Nobody is found under his own id. -/
theorem processHandler_empty
    (hnot : ¬ (relation.fromId = relation.toId ∧ (state = .addApply ∨ state = .addBlock)))
    (hlocal : localId state relation = relation.fromId)
    (hspecial : s.specialHandle state relation = s)
    (hown : (s.view relation.fromId).Shows relation.fromId .noPath) :
    s.processHandler state relation = (s.located relation.fromId).itemEmptyCheck state relation := by
  rw [processHandler_eq hnot (by rw [hspecial, hlocal]; exact hown), hspecial, hlocal]
  exact if_pos rfl

end BuddyStore

end Oce.Buddy
