import Oce.Base.Run
import Oce.SixDegrees.Analysis.Batches

/-!
# Where two users meet

The nodes that are tried are those that both users have joined so far, as long as each join that
compares two batches has sorted ones and each other join brings no new node that both have
(`Search.Covers`). What both have joined when the end flag is set is what both have at all, as long
as the threads keep up with each other: the push thread waits for the builder and its tasks, the
first task of a user puts the data in the cache before another one looks for it, and the task for
the calculation has taken all batches when the calculation has waited in vain.
-/

set_option autoImplicit false

namespace Oce.SixDegrees

open Base

variable {streams : Side → List IndexInfo} {s : Search} {friends : Side → Option (List ℤ)}
  {newA newB allA allB : List IndexInfo} {pairs : List Pair} {x : Side} {i : ℤ}

theorem forall_side {P : Side → Prop} : (∀ x, P x) ↔ P .host ∧ P .guest := by
  refine ⟨fun h => ⟨h .host, h .guest⟩, fun ⟨hhost, hguest⟩ x => ?_⟩
  cases x with
  | host => exact hhost
  | guest => exact hguest

/-! ## One join -/

/-- A pair that is tried is of a new entry and of another one of the same node. -/
theorem mem_hasCommonFriendNew {p : Pair}
    (h : FriendsCompareSixDegreesNew.hasCommonFriendNew newA newB allA allB = some pairs)
    (hp : p ∈ pairs) : (p.1 ∈ newA ∧ p.2 ∈ allB ∨ p.1 ∈ allA ∧ p.2 ∈ newB) ∧ p.1.id = p.2.id := by
  unfold FriendsCompareSixDegreesNew.hasCommonFriendNew at h
  split_ifs at h
  · cases h
    cases hp
  · simp only [Option.bind_eq_bind, Option.bind_eq_some_iff] at h
    obtain ⟨pairsA, hpairsA, pairsB, hpairsB, h⟩ := h
    cases h
    rcases List.mem_append.mp hp with hp | hp
    · obtain ⟨h1, h2, h3⟩ := mem_twoWay hpairsA hp
      exact ⟨.inl ⟨h1, h2⟩, h3⟩
    · obtain ⟨h1, h2, h3⟩ := mem_twoWay hpairsB hp
      exact ⟨.inr ⟨h1, h2⟩, h3⟩

/-- A comparison in the order of the ids comes to its end, and tries each node that one user has
anew and the other has. -/
theorem hasCommonFriendNew_complete (hnewA : SortedById newA) (hnewB : SortedById newB)
    (hallA : SortedById allA) (hallB : SortedById allB) (hneA : newA ≠ []) (hneB : newB ≠ [])
    (hallneA : allA ≠ []) (hallneB : allB ≠ []) :
    ∃ pairs, FriendsCompareSixDegreesNew.hasCommonFriendNew newA newB allA allB = some pairs ∧
      ∀ i, HasId newA i ∧ HasId allB i ∨ HasId allA i ∧ HasId newB i → ∃ p ∈ pairs, p.1.id = i := by
  obtain ⟨pairsA, hpairsA, hallpairsA⟩ :=
    twoWay_complete hneA hallneB hnewA hallB (Nat.le_add_right newA.length allB.length)
  obtain ⟨pairsB, hpairsB, hallpairsB⟩ :=
    twoWay_complete hallneA hneB hallA hnewB (Nat.le_add_right allA.length newB.length)
  refine ⟨pairsA ++ pairsB, ?_, fun i h => ?_⟩
  · unfold FriendsCompareSixDegreesNew.hasCommonFriendNew FriendsCompareSixDegreesNew.comparePrivate
    rw [if_neg (by simp [hneA, hneB, hallneA, hallneB]), hpairsA, hpairsB]
    rfl
  · rcases h with h | h
    · obtain ⟨p, hp, hpi⟩ := hallpairsA i h.1 h.2
      exact ⟨p, List.mem_append_left _ hp, hpi⟩
    · obtain ⟨p, hp, hpi⟩ := hallpairsB i h.1 h.2
      exact ⟨p, List.mem_append_right _ hp, hpi⟩

/-- The newest batches are compared. -/
def Search.Compares (s : Search) (friends : Side → Option (List ℤ)) : Prop :=
  ∀ x, (friends x).isSome ∧ (s.flows x).newest ≠ []

instance (s : Search) (friends : Side → Option (List ℤ)) : Decidable (s.Compares friends) :=
  inferInstanceAs (Decidable (∀ x, (friends x).isSome ∧ (s.flows x).newest ≠ []))

/-- The newest batches are sorted if they are compared, and bring no node that both users have and
did not have both before if they are not. -/
def Search.Covers (s : Search) (friends : Side → Option (List ℤ)) : Prop :=
  if s.Compares friends then ∀ x, SortedById (s.flows x).newest
  else
    ∀ e ∈ (s.flows .host).newest ++ (s.flows .guest).newest,
      (∀ x, HasId (s.flows x).allFriends e.id ∨ HasId (s.flows x).newest e.id) →
        ∀ x, HasId (s.flows x).allFriends e.id

/-- The nodes that are tried are those that both users have joined. -/
def Search.Tried (s : Search) : Prop :=
  ∀ i, (∃ p ∈ s.tried, p.1.id = i) ↔ ∀ x, HasId (s.flows x).allFriends i

theorem hasEnd_addRouts (s : Search) (routList : List (List ℤ)) :
    (s.addRouts routList).hasEnd = s.hasEnd := by
  unfold Search.hasEnd Search.addRouts
  cases s.rout with
  | none => rfl
  | some r => rfl

/-- The newest entries are among all entries after the join. -/
theorem join_ne_nil {u : Flow} (h : u.newest ≠ []) : u.join.allFriends ≠ [] := by
  intro hnil
  obtain ⟨e, he⟩ := List.exists_mem_of_ne_nil _ h
  have hid : HasId u.join.allFriends e.id := (Flow.hasId_join u).mpr (.inr ⟨e, he, rfl⟩)
  rw [hnil] at hid
  exact not_hasId_nil hid

/-- **What a join does**: both batches are merged and taken, and the pairs that are tried are of
entries of one node of which one is new. If the batches are compared, each such node is tried. -/
theorem calculateRout_spec (hsorted : ∀ x, SortedById (s.flows x).allFriends) (hcovers : s.Covers friends) :
    ∃ pairs, (s.calculateRout friends).flows = (fun x => (s.flows x).join) ∧
      (s.calculateRout friends).hasEnd = s.hasEnd ∧ (s.calculateRout friends).tried = s.tried ++ pairs ∧
      (∀ p ∈ pairs, ((p.1 ∈ (s.flows .host).newest ∧ p.2 ∈ (s.flows .guest).join.allFriends) ∨
        (p.1 ∈ (s.flows .host).join.allFriends ∧ p.2 ∈ (s.flows .guest).newest)) ∧ p.1.id = p.2.id) ∧
      (s.Compares friends → ∀ i,
        HasId (s.flows .host).newest i ∧ HasId (s.flows .guest).join.allFriends i ∨
          HasId (s.flows .host).join.allFriends i ∧ HasId (s.flows .guest).newest i →
        ∃ p ∈ pairs, p.1.id = i) := by
  unfold Search.calculateRout
  dsimp only
  cases hhost : friends .host with
  | none =>
      refine ⟨[], rfl, rfl, (List.append_nil _).symm, nofun, fun h => ?_⟩
      have hsome := (h .host).1
      rw [hhost] at hsome
      cases hsome
  | some hostFriends =>
      cases hguest : friends .guest with
      | none =>
          refine ⟨[], rfl, rfl, (List.append_nil _).symm, nofun, fun h => ?_⟩
          have hsome := (h .guest).1
          rw [hguest] at hsome
          cases hsome
      | some guestFriends =>
          dsimp only
          have hend : ∃ pairs, FriendsCompareSixDegreesNew.hasCommonFriendNew (s.flows .host).newest
              (s.flows .guest).newest (s.flows .host).join.allFriends
              (s.flows .guest).join.allFriends = some pairs ∧
              (s.Compares friends → ∀ i,
                HasId (s.flows .host).newest i ∧ HasId (s.flows .guest).join.allFriends i ∨
                  HasId (s.flows .host).join.allFriends i ∧ HasId (s.flows .guest).newest i →
                ∃ p ∈ pairs, p.1.id = i) := by
            by_cases hcompares : s.Compares friends
            · unfold Search.Covers at hcovers
              rw [if_pos hcompares] at hcovers
              obtain ⟨pairs, hpairs, hall⟩ := hasCommonFriendNew_complete (hcovers .host) (hcovers .guest)
                (sorted_addNewFriends _ (hsorted .host)) (sorted_addNewFriends _ (hsorted .guest))
                (hcompares .host).2 (hcompares .guest).2 (join_ne_nil (hcompares .host).2)
                (join_ne_nil (hcompares .guest).2)
              exact ⟨pairs, hpairs, fun _ => hall⟩
            · refine ⟨[], if_pos ?_, fun h => absurd h hcompares⟩
              by_contra hne
              have hfull : (s.flows .host).newest ≠ [] ∧ (s.flows .guest).newest ≠ [] := by
                constructor
                · exact fun hnil => hne (.inr (.inr (.inl hnil)))
                · exact fun hnil => hne (.inr (.inr (.inr hnil)))
              refine hcompares (forall_side.mpr ?_)
              rw [hhost, hguest]
              exact ⟨⟨rfl, hfull.1⟩, rfl, hfull.2⟩
          obtain ⟨pairs, hpairs, hall⟩ := hend
          rw [hpairs]
          exact ⟨pairs, rfl, hasEnd_addRouts _ _, rfl, fun p hp => mem_hasCommonFriendNew hpairs hp, hall⟩

/-- A comparison tries the nodes that both users have joined. -/
theorem tried_calculateRout (hsorted : ∀ x, SortedById (s.flows x).allFriends) (h : s.Tried)
    (hcovers : s.Covers friends) : (s.calculateRout friends).Tried := by
  intro i
  obtain ⟨pairs, hflows, -, htried, hpairs, hall⟩ := calculateRout_spec hsorted hcovers
  rw [hflows, htried]
  have hjoin : ∀ x, HasId (s.flows x).join.allFriends i ↔
      HasId (s.flows x).allFriends i ∨ HasId (s.flows x).newest i := fun x => Flow.hasId_join (s.flows x)
  constructor
  · rintro ⟨p, hp, rfl⟩
    rcases List.mem_append.mp hp with hp | hp
    · exact fun x => (Flow.hasId_join (s.flows x)).mpr (.inl ((h p.1.id).mp ⟨p, hp, rfl⟩ x))
    · -- a pair is of entries of the two users, of which new ones are joined as well
      obtain ⟨hmem, heq⟩ := hpairs p hp
      rw [forall_side]
      rcases hmem with ⟨h1, h2⟩ | ⟨h1, h2⟩
      · exact ⟨(Flow.hasId_join _).mpr (.inr ⟨p.1, h1, rfl⟩), p.2, h2, heq.symm⟩
      · exact ⟨⟨p.1, h1, rfl⟩, (Flow.hasId_join _).mpr (.inr ⟨p.2, h2, heq.symm⟩)⟩
  · intro hboth
    by_cases hold : ∀ x, HasId (s.flows x).allFriends i
    · obtain ⟨p, hp, hpi⟩ := (h i).mpr hold
      exact ⟨p, List.mem_append_left _ hp, hpi⟩
    by_cases hcompares : s.Compares friends
    · have hnew : HasId (s.flows .host).newest i ∧ HasId (s.flows .guest).join.allFriends i ∨
          HasId (s.flows .host).join.allFriends i ∧ HasId (s.flows .guest).newest i := by
        obtain ⟨hA, hB⟩ := forall_side.mp hboth
        rcases (hjoin .host).mp hA with hA' | hA'
        · rcases (hjoin .guest).mp hB with hB' | hB'
          · exact absurd (forall_side.mpr ⟨hA', hB'⟩) hold
          · exact .inr ⟨hA, hB'⟩
        · exact .inl ⟨hA', hB⟩
      obtain ⟨p, hp, hpi⟩ := hall hcompares i hnew
      exact ⟨p, List.mem_append_right _ hp, hpi⟩
    · unfold Search.Covers at hcovers
      rw [if_neg hcompares] at hcovers
      refine absurd (fun x => ?_) hold
      have hmem : ∃ e ∈ (s.flows .host).newest ++ (s.flows .guest).newest, e.id = i := by
        obtain ⟨x, hx⟩ := not_forall.mp hold
        obtain ⟨e, he, hei⟩ := ((hjoin x).mp (hboth x)).resolve_left hx
        cases x with
        | host => exact ⟨e, List.mem_append_left _ he, hei⟩
        | guest => exact ⟨e, List.mem_append_right _ he, hei⟩
      obtain ⟨e, he, rfl⟩ := hmem
      exact hcovers e he (fun y => (hjoin y).mp (hboth y)) x

/-! ## Runs -/

/-- What a step must find so that nothing is lost. -/
def SearchOp.Keeps (streams : Side → List IndexInfo) (s : Search) : SearchOp → Prop
  | .pushIndex x => (s.flows x).pusher = .waiting →
      if (s.flows x).indexCache = [] then (s.flows x).todo = [] ∧ (s.flows x).tasks = []
      else (s.flows x).cut.length < MAX_DATA
  | .pushTask x k => ((s.flows x).tasks[k]?.map fun t => t.located) = some .missing →
      (s.flows x).asyn = none
  | .task friends => s.task = .comparing → (∀ x, (friends x).isSome) ∨ ∀ x, streams x = []
  | .calculate friends => s.calculate = .waiting →
      if ∀ x, (s.flows x).newFriends = [] then
        (∀ x, (s.flows x).data.finish = true) → ∀ x, (s.flows x).unfetched = []
      else s.Covers friends
  | _ => True

/-- The state of a search in which nothing is lost. -/
structure SearchInv (streams : Side → List IndexInfo) (s : Search) : Prop where
  kept : ∀ x, (s.flows x).Kept (streams x)
  tried : s.Tried
  drained : s.hasEnd = true → ∀ x, (s.flows x).Drained

/-- A step that changes one user, or both alike, and neither the pairs nor the end flag. -/
theorem SearchInv.of_flows {s' : Search} (h : SearchInv streams s)
    (hkept : ∀ x, (s'.flows x).Kept (streams x))
    (hall : ∀ x, (s'.flows x).allFriends = (s.flows x).allFriends)
    (hdrained : ∀ x, (s.flows x).Drained → (s'.flows x).Drained) (htried : s'.tried = s.tried)
    (hend : s'.hasEnd = s.hasEnd) : SearchInv streams s' where
  kept := hkept
  tried i := by
    rw [htried, h.tried i]
    exact forall_congr' fun x => by rw [hall x]
  drained he x := hdrained x (h.drained (hend ▸ he) x)

theorem SearchInv.setFlow (h : SearchInv streams s) {u : Flow} (hkept : u.Kept (streams x))
    (hall : u.allFriends = (s.flows x).allFriends) (hdrained : (s.flows x).Drained → u.Drained) :
    SearchInv streams (s.setFlow x u) := by
  have hother : ∀ y, y ≠ x → (s.setFlow x u).flows y = s.flows y :=
    fun y hy => Function.update_of_ne hy _ _
  have hself : (s.setFlow x u).flows x = u := Function.update_self _ _ _
  refine h.of_flows (fun y => ?_) (fun y => ?_) (fun y hy => ?_) rfl rfl
  · by_cases hyx : y = x
    · subst hyx
      rwa [hself]
    · rw [hother y hyx]
      exact h.kept y
  · by_cases hyx : y = x
    · subst hyx
      rw [hself, hall]
    · rw [hother y hyx]
  · by_cases hyx : y = x
    · subst hyx
      rw [hself]
      exact hdrained hy
    · rwa [hother y hyx]

/-- A step that leaves the users, the pairs and the end flag alone. -/
theorem SearchInv.of_eq {s' : Search} (h : SearchInv streams s) (hflows : s'.flows = s.flows)
    (htried : s'.tried = s.tried) (hend : s'.hasEnd = s.hasEnd) : SearchInv streams s' :=
  h.of_flows (fun x => by rw [hflows]; exact h.kept x) (fun x => by rw [hflows])
    (fun x hx => by rwa [hflows]) htried hend

/-- The end flag is set when all is joined. -/
theorem SearchInv.setEnd {s' : Search} (h : SearchInv streams s) (hflows : s'.flows = s.flows)
    (htried : s'.tried = s.tried) (hdrained : ∀ x, (s.flows x).Drained) : SearchInv streams s' where
  kept x := hflows ▸ h.kept x
  tried i := by
    rw [htried, h.tried i, hflows]
  drained _ x := hflows ▸ hdrained x

theorem SearchInv.compareFriends (h : SearchInv streams s)
    (hguard : (∀ x, (friends x).isSome) ∨ ∀ x, streams x = []) :
    SearchInv streams (s.compareFriends friends) := by
  have hnone : ∀ x, friends x = none → ∀ y, (s.flows y).Drained := by
    intro x hx y
    refine Flow.Kept.drained_of_nil ?_
    have hnil := hguard.resolve_left fun hall => by
      have := hall x
      rw [hx] at this
      cases this
    rw [← hnil y]
    exact h.kept y
  unfold Search.compareFriends
  cases hhost : friends .host with
  | none => exact h.setEnd rfl rfl (hnone .host hhost)
  | some hostFriends =>
      dsimp only
      cases hguest : friends .guest with
      | none => exact h.setEnd rfl rfl (hnone .guest hguest)
      | some guestFriends =>
          refine h.of_eq rfl rfl ?_
          exact (hasEnd_addRouts _ _).trans (hasEnd_addRouts _ _)

/-- One step of the comparing thread. -/
theorem SearchInv.taskStep (h : SearchInv streams s)
    (hguard : s.task = .comparing → (∀ x, (friends x).isSome) ∨ ∀ x, streams x = []) :
    SearchInv streams (s.taskStep friends) := by
  unfold Search.taskStep
  cases htask : s.task with
  | starting => exact h.of_eq rfl rfl rfl
  | opening =>
      dsimp only
      cases hrout : s.rout with
      | none =>
          refine h.of_eq rfl rfl ?_
          unfold Search.hasEnd
          rw [hrout]
          rfl
      | some r =>
          refine h.of_eq rfl rfl ?_
          unfold Search.hasEnd
          rw [hrout]
  | comparing => exact h.compareFriends (hguard htask)
  | looping => exact h.of_eq rfl rfl rfl
  | finding x =>
      have hfound : SearchInv streams (s.setFlow x (s.flows x).hold) :=
        h.setFlow (h.kept x).hold rfl fun hu => { hu with }
      exact hfound.of_eq rfl rfl rfl
  | fetching x =>
      have hfetched : SearchInv streams (s.setFlow x (s.flows x).fetch) :=
        h.setFlow (h.kept x).fetch rfl fun hu => { hu with }
      exact hfetched.of_eq rfl rfl rfl
  | checking => exact h.of_eq rfl rfl rfl
  | pushing =>
      dsimp only
      split_ifs
      · exact h
      · refine h.of_flows (fun x => (h.kept x).pushIndexSeq) (fun x => ?_)
          (fun x hu => hu.pushIndexSeq (h.kept x)) rfl rfl
        change (s.flows x).pushIndexSeq.allFriends = _
        unfold Flow.pushIndexSeq
        split_ifs <;> rfl
  | ended => exact h

/-- The routes are calculated. -/
theorem SearchInv.calculateRout (h : SearchInv streams s) (hcovers : s.Covers friends) :
    SearchInv streams (s.calculateRout friends) := by
  have hsorted : ∀ x, SortedById (s.flows x).allFriends := fun x => (h.kept x).sorted
  obtain ⟨-, hflows, hend, -⟩ := calculateRout_spec hsorted hcovers
  refine ⟨fun x => ?_, tried_calculateRout hsorted h.tried hcovers, fun he x => ?_⟩
  · rw [hflows]
    exact (h.kept x).join
  · rw [hend] at he
    rw [hflows]
    exact (h.drained he x).join

/-- The end flag is set by the calculation when both users are finished and nothing is left in
their data. -/
theorem SearchInv.isEnd (h : SearchInv streams s) (hempty : ∀ x, (s.flows x).newFriends = [])
    (hguard : (∀ x, (s.flows x).data.finish = true) → ∀ x, (s.flows x).unfetched = []) :
    SearchInv streams s.isEnd := by
  unfold Search.isEnd
  by_cases hfinish : s.rout.isSome ∧
      ∀ x, (s.flows x).asyn.isSome ∧ ((s.flows x).dataOf (s.flows x).asyn).finish
  · rw [if_pos hfinish]
    have hboth : ∀ x, (s.flows x).data.finish = true := fun x => (hfinish.2 x).2
    refine h.setEnd rfl rfl fun x => ?_
    obtain ⟨htodo, hcache, htasks⟩ := (h.kept x).finished (hboth x)
    exact ⟨htodo, hcache, htasks, hguard hboth x, hempty x⟩
  · rw [if_neg hfinish]
    exact h.of_eq rfl rfl rfl

/-- One step of the calculating thread. -/
theorem SearchInv.calcStep (h : SearchInv streams s)
    (hguard : s.calculate = .waiting →
      if ∀ x, (s.flows x).newFriends = [] then
        (∀ x, (s.flows x).data.finish = true) → ∀ x, (s.flows x).unfetched = []
      else s.Covers friends) : SearchInv streams (s.calcStep friends) := by
  unfold Search.calcStep
  cases hcalc : s.calculate with
  | idle => exact h
  | endless => exact h
  | ended => exact h
  | checking => exact h.of_eq rfl rfl rfl
  | waiting =>
      have hg := hguard hcalc
      dsimp only
      by_cases hempty : ∀ x, (s.flows x).newFriends = []
      · rw [if_pos hempty] at hg
        rw [if_pos hempty]
        exact h.isEnd hempty hg
      · rw [if_neg hempty] at hg
        rw [if_neg hempty]
        exact h.calculateRout hg

/-- The steps of the push thread and of its tasks leave what is joined alone. -/
theorem locateAsynIndex_allFriends (u : Flow) (located : Located) :
    (u.locateAsynIndex located).2.allFriends = u.allFriends := by
  cases located <;> rfl

/-- One step of any thread. -/
theorem SearchInv.step (h : SearchInv streams s) {op : SearchOp} (hop : op.Keeps streams s) :
    SearchInv streams (op.step s) := by
  cases op with
  | start => exact h.of_eq rfl rfl rfl
  | build x =>
      refine h.setFlow (h.kept x).build ?_ Flow.Drained.build
      unfold Flow.build
      split <;> rfl
  | pushIndex x =>
      refine h.setFlow ((h.kept x).pushIndex s.isStop hop) ?_ fun hu => hu.pushIndex (h.kept x) s.isStop
      unfold Flow.pushIndex
      split
      · rfl
      · split_ifs <;> rfl
      · rfl
      · exact locateAsynIndex_allFriends _ _
      · rfl
  | pushTask x k =>
      refine h.setFlow ((h.kept x).pushTask k hop) ?_ fun hu => hu.pushTask k
      unfold Flow.pushTask
      split
      · rfl
      · rfl
      · exact locateAsynIndex_allFriends _ _
  | task friends => exact h.taskStep hop
  | calculate friends => exact h.calcStep hop

theorem searchInv_new (c : Caches) (host guest : ℤ) :
    SearchInv (indexes c host guest) (.new c host guest) where
  kept x := Flow.kept_new (indexes c host guest x)
  tried i := by
    refine iff_of_false ?_ fun h => not_hasId_nil (h .host)
    rintro ⟨p, hp, -⟩
    cases hp
  drained := nofun

/-! ## Complete searches -/

/-- Every batch that has been cut is in one place, and what has been cut with what is to come is
the whole stream. When the end flag is set, all of both streams is joined, and the nodes that have
been tried are those that are in both. -/
structure Complete (streams : Side → List IndexInfo) (s : Search) : Prop where
  stream : ∀ x, streams x = (s.flows x).cut.flatten ++ (s.flows x).indexCache ++ (s.flows x).todo
  places : ∀ x, (s.flows x).cut.Perm
    ((s.flows x).joined ++ (s.flows x).newFriends ++ (s.flows x).unfetched ++
      (s.flows x).tasks.map (·.batch))
  joined : s.hasEnd = true → ∀ x, streams x = (s.flows x).cut.flatten ∧
    (s.flows x).cut.Perm (s.flows x).joined
  tried : s.hasEnd = true → ∀ i, (∃ p ∈ s.tried, p.1.id = i) ↔ ∀ x, HasId (streams x) i

/-- **A search whose steps keep everything is complete in every state that it reaches.** -/
theorem search_complete (c : Caches) (host guest : ℤ) (ops : List SearchOp)
    (h : StepsMeet SearchOp.step (SearchOp.Keeps (indexes c host guest)) (.new c host guest) ops) :
    Complete (indexes c host guest) (runOps SearchOp.step (.new c host guest) ops) := by
  have hinv := run_invariant (fun _ _ hs hop => hs.step hop) (searchInv_new c host guest) h
  refine ⟨fun x => (hinv.kept x).stream, fun x => (hinv.kept x).places, fun he x => ?_, fun he i => ?_⟩
  · have hu := hinv.drained he x
    have hstream := (hinv.kept x).stream
    have hplaces := (hinv.kept x).places
    rw [hu.todo, hu.indexCache, List.append_nil, List.append_nil] at hstream
    rw [hu.newFriends, hu.unfetched, hu.tasks, List.map_nil, List.append_nil, List.append_nil,
      List.append_nil] at hplaces
    exact ⟨hstream, hplaces⟩
  · rw [hinv.tried i]
    exact forall_congr' fun x => (hinv.kept x).hasId_iff (hinv.drained he x)

/-! ## Sample searches -/

instance (l : List IndexInfo) (i : ℤ) : Decidable (HasId l i) :=
  inferInstanceAs (Decidable (∃ e ∈ l, e.id = i))

instance (s : Search) (friends : Side → Option (List ℤ)) : Decidable (s.Covers friends) :=
  inferInstanceAs (Decidable (if s.Compares friends then _ else _))

instance (streams : Side → List IndexInfo) (s : Search) :
    ∀ op : SearchOp, Decidable (op.Keeps streams s)
  | .start | .build _ => .isTrue trivial
  | .pushIndex _ => inferInstanceAs (Decidable (_ → _))
  | .pushTask _ _ => inferInstanceAs (Decidable (_ → _))
  | .task _ => inferInstanceAs (Decidable (_ → _))
  | .calculate _ => inferInstanceAs (Decidable (_ → _))

/-- User 1 reaches node 7 over user 2, user 9 reaches the nodes 5 and 7 over user 8. -/
def sampleCaches : Caches where
  friends id := if id = 1 then some [2] else if id = 9 then some [8] else none
  join id := if id = 2 then some [7] else if id = 8 then some [5, 7] else none

def sampleFriends : Side → Option (List ℤ)
  | .host => some [2]
  | .guest => some [8]

/-- `n` steps of the task. -/
def taskSteps (n : ℕ) : List SearchOp := List.replicate n (.task sampleFriends)

/-- `n` entries of a user are pushed and cut into one batch. -/
def cutSteps (x : Side) (n : ℕ) : List SearchOp := List.replicate n (.build x) ++ [.pushIndex x, .pushIndex x]

/-- `n` entries of a user are brought to the data of the user in one batch. -/
def batchOf (x : Side) (n : ℕ) : List SearchOp := cutSteps x n ++ List.replicate 3 (.pushTask x 0)

/-- What is in the data is taken, and joined. -/
def joinSteps : List SearchOp :=
  taskSteps 7 ++ [.calculate sampleFriends, .calculate sampleFriends]

/-- The push threads find nothing more. -/
def finishSteps : List SearchOp :=
  List.replicate 5 (.pushIndex .host) ++ List.replicate 5 (.pushIndex .guest)

/-- All entries are joined at once. -/
def together : List SearchOp :=
  .start :: taskSteps 3 ++ batchOf .host 1 ++ batchOf .guest 2 ++ joinSteps ++ finishSteps ++ joinSteps

theorem search_complete_together :
    Complete (indexes sampleCaches 1 9) (runOps SearchOp.step (.new sampleCaches 1 9) together) ∧
      (runOps SearchOp.step (.new sampleCaches 1 9) together).hasEnd = true ∧
      (runOps SearchOp.step (.new sampleCaches 1 9) together).tried ≠ [] :=
  ⟨search_complete sampleCaches 1 9 together (by decide), by decide, by decide⟩

/-- The batch with node 7 of user 9 is joined without one of user 1. -/
def alone : List SearchOp :=
  .start :: taskSteps 3 ++ batchOf .host 1 ++ batchOf .guest 1 ++ joinSteps ++ batchOf .guest 1 ++
    joinSteps ++ finishSteps ++ joinSteps

/-- The push threads find nothing before the builders have pushed anything. -/
def early : List SearchOp := .start :: taskSteps 3 ++ finishSteps ++ joinSteps

/-- Two tasks of user 9 find no data, and the second puts its own in the place of the first one's. -/
def replaced : List SearchOp :=
  .start :: taskSteps 3 ++ batchOf .host 1 ++ cutSteps .guest 1 ++ cutSteps .guest 1 ++
    [.pushTask .guest 0, .pushTask .guest 1, .pushTask .guest 1, .pushTask .guest 1,
      .pushTask .guest 0, .pushTask .guest 0] ++ joinSteps ++ finishSteps ++ joinSteps

/-- Node 7 is not tried, a search ends before it has begun, and a batch is lost. -/
theorem searches_miss :
    ¬ Complete (indexes sampleCaches 1 9) (runOps SearchOp.step (.new sampleCaches 1 9) alone) ∧
      ¬ Complete (indexes sampleCaches 1 9) (runOps SearchOp.step (.new sampleCaches 1 9) early) ∧
      ¬ Complete (indexes sampleCaches 1 9) (runOps SearchOp.step (.new sampleCaches 1 9) replaced) := by
  refine ⟨fun h => ?_, fun h => ?_, fun h => ?_⟩
  · have htried : (runOps SearchOp.step (.new sampleCaches 1 9) alone).tried = [] := by decide
    obtain ⟨p, hp, -⟩ := (h.tried (by decide) 7).mpr (by decide)
    rw [htried] at hp
    cases hp
  · exact absurd (h.joined (by decide) .host).1 (by decide)
  · have hlength := (h.joined (by decide) .guest).2.length_eq
    exact absurd hlength (by decide)

end Oce.SixDegrees
