import Oce.FeedDispatcher.Analysis.ExpressionValue
import Oce.FeedDispatcher.Model.Delivery

/-!
# Everyone gets a feed once

Who gets a feed is who is wanted and has not refused it in an answer that has come (`mem_target`);
everyone is asked about once. Each of them is in one part, and with it in one call to each of the
services, at the news server of his own, with his own weight (`everyone_once`).
-/

set_option autoImplicit false

namespace Oce.FeedDispatcher

open Oce.Base

variable {part : List ℤ} {call : Call}

/-! ## What a call takes along -/

namespace Call

/-- The part that is asked about. -/
def asked : Call → Option (List ℤ)
  | filterRecvConfig part _ _ => some part
  | _ => none

def transitIds : Call → List ℤ
  | transit ids => ids
  | _ => []

def newsIds : Call → Int2IntMap
  | news _ _ _ m => m
  | _ => []

def sinkIds : Call → Int2IntMap
  | sink _ _ m => m
  | _ => []

def cacheIds : Call → Int2IntMap
  | cacheLogic _ m => m
  | _ => []

/-- A call takes at most 50000 users along. -/
def Few (c : Call) : Prop :=
  c.transitIds.length ≤ FeedDeliver.maxSize ∧ c.newsIds.length ≤ FeedDeliver.maxSize ∧
    c.sinkIds.length ≤ FeedDeliver.maxSize ∧ c.cacheIds.length ≤ FeedDeliver.maxSize

end Call

section Parts

variable {s : Services} {feed : FeedSeed} {config : FeedConfig} {rank : ℤ → Option (BitVec 32)}

open FeedDeliver

/-- The weights of a part. -/
def weights (feed : FeedSeed) (rank : ℤ → Option (BitVec 32)) (part : List ℤ) : Int2IntMap :=
  part.map fun id => (id, weightOf feed rank id)

theorem flatMap_weights (parts : List (List ℤ)) :
    parts.flatMap (weights feed rank) = weights feed rank parts.flatten := by
  unfold weights
  rw [List.map_flatten, List.flatMap_def]

/-- The calls of one part, apart from those for the photos. -/
theorem deliverPart_eq (h : config.sendNewsConfig = true) (part : List ℤ) :
    ∃ item rest, (rest = [] ∨ rest = deliverToPhotos feed rank part) ∧
      deliverPart s feed config rank part = .transit part ::
        (FeedNewsReplicaAdapter.addFeed s item config (weights feed rank part) ++
          .sink item config (weights feed rank part) :: .cacheLogic item (weights feed rank part) :: rest) := by
  unfold deliverPart deliverToNews
  rw [if_pos h]
  refine ⟨_, _, ?_, by rw [List.append_assoc]; rfl⟩
  split
  · exact .inr rfl
  · exact .inl rfl

/-- What the calls of one part take along that is not for the photos. -/
theorem flatMap_deliverPart {β : Type} {f : Call → List β} (hf : ∀ owner m, f (.photos owner m) = [])
    (h : config.sendNewsConfig = true) (part : List ℤ) :
    ∃ item, (deliverPart s feed config rank part).flatMap f = f (.transit part) ++
      ((FeedNewsReplicaAdapter.addFeed s item config (weights feed rank part)).flatMap f ++
        (f (.sink item config (weights feed rank part)) ++ f (.cacheLogic item (weights feed rank part)))) := by
  obtain ⟨item, rest, hrest, heq⟩ := @deliverPart_eq s feed config rank h part
  have hnone : rest.flatMap f = [] := by
    rcases hrest with rfl | rfl
    · rfl
    · simp [deliverToPhotos, hf]
  refine ⟨item, ?_⟩
  rw [heq, List.flatMap_cons, List.flatMap_append, List.flatMap_cons, List.flatMap_cons, hnone, List.append_nil]

theorem transitIds_deliverPart (h : config.sendNewsConfig = true) (part : List ℤ) :
    (deliverPart s feed config rank part).flatMap Call.transitIds = part := by
  obtain ⟨item, hflat⟩ := @flatMap_deliverPart s feed config rank _ Call.transitIds (fun _ _ => rfl) h part
  rw [hflat]
  simp [Call.transitIds, FeedNewsReplicaAdapter.addFeed, List.flatMap_map]

theorem sinkIds_deliverPart (h : config.sendNewsConfig = true) (part : List ℤ) :
    (deliverPart s feed config rank part).flatMap Call.sinkIds = weights feed rank part := by
  obtain ⟨item, hflat⟩ := @flatMap_deliverPart s feed config rank _ Call.sinkIds (fun _ _ => rfl) h part
  rw [hflat]
  simp [Call.sinkIds, FeedNewsReplicaAdapter.addFeed, List.flatMap_map]

theorem cacheIds_deliverPart (h : config.sendNewsConfig = true) (part : List ℤ) :
    (deliverPart s feed config rank part).flatMap Call.cacheIds = weights feed rank part := by
  obtain ⟨item, hflat⟩ := @flatMap_deliverPart s feed config rank _ Call.cacheIds (fun _ _ => rfl) h part
  rw [hflat]
  simp [Call.cacheIds, FeedNewsReplicaAdapter.addFeed, List.flatMap_map]

/-- The servers together get the weights of the part. -/
theorem newsIds_deliverPart (h : config.sendNewsConfig = true) (part : List ℤ) :
    ((deliverPart s feed config rank part).flatMap Call.newsIds).Perm (weights feed rank part) := by
  obtain ⟨item, hflat⟩ := @flatMap_deliverPart s feed config rank _ Call.newsIds (fun _ _ => rfl) h part
  have hgroups : (deliverPart s feed config rank part).flatMap Call.newsIds =
      (groupBy (fun e : ℤ × BitVec 32 => e.1.natAbs % s.cluster) (weights feed rank part)).entries.flatMap
        Prod.snd := by
    rw [hflat]
    simp [Call.newsIds, FeedNewsReplicaAdapter.addFeed, List.flatMap_map]
  rw [hgroups]
  exact perm_groupBy _ _

/-- A news server gets its own users. -/
theorem news_deliverPart (h : config.sendNewsConfig = true) {k : ℕ} {item : FeedItem}
    {config' : FeedConfig} {m : Int2IntMap}
    (hmem : Call.news k item config' m ∈ deliverPart s feed config rank part) :
    m = (weights feed rank part).filter fun e => e.1.natAbs % s.cluster = k := by
  obtain ⟨item', rest, hrest, heq⟩ := @deliverPart_eq s feed config rank h part
  rw [heq] at hmem
  have hnews : Call.news k item config' m ∈
      FeedNewsReplicaAdapter.addFeed s item' config (weights feed rank part) := by
    rcases hrest with rfl | rfl <;> simpa [deliverToPhotos] using hmem
  obtain ⟨⟨k', m'⟩, hentry, hcall⟩ := List.mem_map.mp hnews
  cases hcall
  exact mem_groupBy _ hentry

theorem few_deliverToMini (hmem : call ∈ deliverToMini feed config) : call.Few := by
  unfold deliverToMini at hmem
  split at hmem
  · rw [List.mem_singleton] at hmem
    subst hmem
    exact ⟨Nat.zero_le _, Nat.zero_le _, Nat.zero_le _, Nat.zero_le _⟩
  · cases hmem

theorem asked_deliverToMini (hmem : call ∈ deliverToMini feed config) : call.asked = none := by
  unfold deliverToMini at hmem
  split at hmem
  · rw [List.mem_singleton] at hmem
    rw [hmem]
    rfl
  · cases hmem

/-- The calls of a part do not ask. -/
theorem asked_deliverPart (h : config.sendNewsConfig = true)
    (hmem : call ∈ deliverPart s feed config rank part) : call.asked = none := by
  obtain ⟨item, rest, hrest, heq⟩ := @deliverPart_eq s feed config rank h part
  rw [heq, List.mem_cons, List.mem_append, List.mem_cons, List.mem_cons] at hmem
  rcases hmem with rfl | hnews | rfl | rfl | hphotos
  · rfl
  · obtain ⟨e, -, rfl⟩ := List.mem_map.mp hnews
    rfl
  · rfl
  · rfl
  · rcases hrest with rfl | rfl
    · cases hphotos
    · rw [deliverToPhotos, List.mem_singleton] at hphotos
      rw [hphotos]
      rfl

/-- No call of a part takes more users along than the part has. -/
theorem few_deliverPart (h : config.sendNewsConfig = true) (hpart : part.length ≤ maxSize)
    (hmem : call ∈ deliverPart s feed config rank part) : call.Few := by
  have hweights : (weights feed rank part).length ≤ maxSize := by
    rw [weights, List.length_map]
    exact hpart
  obtain ⟨item, rest, hrest, heq⟩ := @deliverPart_eq s feed config rank h part
  rw [heq, List.mem_cons, List.mem_append, List.mem_cons, List.mem_cons] at hmem
  rcases hmem with rfl | hnews | rfl | rfl | hphotos
  · exact ⟨hpart, Nat.zero_le _, Nat.zero_le _, Nat.zero_le _⟩
  · obtain ⟨⟨k, m⟩, hentry, rfl⟩ := List.mem_map.mp hnews
    have hm : m = _ := mem_groupBy _ hentry
    refine ⟨Nat.zero_le _, ?_, Nat.zero_le _, Nat.zero_le _⟩
    show m.length ≤ maxSize
    rw [hm]
    exact (List.length_filter_le _ _).trans hweights
  · exact ⟨Nat.zero_le _, Nat.zero_le _, hweights, Nat.zero_le _⟩
  · exact ⟨Nat.zero_le _, Nat.zero_le _, Nat.zero_le _, hweights⟩
  · rcases hrest with rfl | rfl
    · cases hphotos
    · rw [deliverToPhotos, List.mem_singleton] at hphotos
      subst hphotos
      exact ⟨Nat.zero_le _, Nat.zero_le _, Nat.zero_le _, Nat.zero_le _⟩

/-- **The parts of a delivery.** -/
theorem deliver_eq (target : Finset ℤ) : ∃ parts : List (List ℤ), parts.flatten = intSeq target ∧
    (∀ part ∈ parts, part.length ≤ maxSize) ∧
      deliver s feed config rank target =
        deliverToMini feed config ++ parts.flatMap (deliverPart s feed config rank) := by
  unfold deliver
  by_cases hempty : target = ∅
  · exact ⟨[], by simp [hempty], by simp, by simp [hempty]⟩
  · obtain ⟨parts, hflat, hlen, hsent⟩ := @Batch.foldl_next ℤ Call maxSize target.card (deliverPart s feed config rank)
      (intSeq target) ⟨[], 0, []⟩ (by simp) (by decide) (fun _ => rfl)
    refine ⟨parts, by simpa using hflat, fun part hp => (hlen part hp).2, ?_⟩
    rw [if_neg hempty, hsent]
    rfl

/-- What a delivery takes along that is not for the mini page. -/
theorem flatMap_deliver {β : Type} {f : Call → List β} (hf : ∀ item c m, f (.mini item c m) = [])
    (parts : List (List ℤ)) :
    (deliverToMini feed config ++ parts.flatMap (deliverPart s feed config rank)).flatMap f =
      parts.flatMap fun part => (deliverPart s feed config rank part).flatMap f := by
  rw [List.flatMap_append, List.flatMap_assoc]
  unfold deliverToMini
  split <;> simp [hf]

/-- **Everyone once.** -/
theorem deliver_once (h : config.sendNewsConfig = true) (target : Finset ℤ) :
    let calls := deliver s feed config rank target
    let sent := weights feed rank (intSeq target)
    (∀ call ∈ calls, call.asked = none) ∧
      calls.flatMap Call.transitIds = intSeq target ∧
      (calls.flatMap Call.newsIds).Perm sent ∧
      calls.flatMap Call.sinkIds = sent ∧
      calls.flatMap Call.cacheIds = sent ∧
      (∀ call ∈ calls, call.Few) ∧
      ∀ k item config' m, Call.news k item config' m ∈ calls → ∀ e ∈ m, e.1.natAbs % s.cluster = k := by
  obtain ⟨parts, hflat, hlen, hdeliver⟩ := @deliver_eq s feed config rank target
  intro calls sent
  have hcalls : calls = deliverToMini feed config ++ parts.flatMap (deliverPart s feed config rank) := hdeliver
  have hparts : ∀ call ∈ calls, call ∈ deliverToMini feed config ∨
      ∃ part ∈ parts, call ∈ deliverPart s feed config rank part := by
    intro call hmem
    rw [hcalls, List.mem_append, List.mem_flatMap] at hmem
    exact hmem
  refine ⟨?_, ?_, ?_, ?_, ?_, ?_, ?_⟩
  · intro call hmem
    rcases hparts call hmem with hmini | ⟨part, -, hin⟩
    · exact asked_deliverToMini hmini
    · exact asked_deliverPart h hin
  · rw [hcalls, flatMap_deliver fun _ _ _ => rfl, ← hflat]
    simp only [transitIds_deliverPart h]
    simp
  · rw [hcalls, flatMap_deliver fun _ _ _ => rfl]
    refine (List.Perm.flatMap_left _ fun part _ => newsIds_deliverPart h part).trans ?_
    rw [flatMap_weights, hflat]
  · rw [hcalls, flatMap_deliver fun _ _ _ => rfl]
    simp only [sinkIds_deliverPart h]
    rw [flatMap_weights, hflat]
  · rw [hcalls, flatMap_deliver fun _ _ _ => rfl]
    simp only [cacheIds_deliverPart h]
    rw [flatMap_weights, hflat]
  · intro call hmem
    rcases hparts call hmem with hmini | ⟨part, hp, hin⟩
    · exact few_deliverToMini hmini
    · exact few_deliverPart h (hlen part hp) hin
  · intro k item config' m hmem e he
    rcases hparts _ hmem with hmini | ⟨part, hp, hin⟩
    · unfold deliverToMini at hmini
      split at hmini <;> simp at hmini
    · rw [news_deliverPart h hin] at he
      exact of_decide_eq_true (List.mem_filter.mp he).2

end Parts

/-! ## Who gets it -/

namespace DispatchTask

variable {s : Services} {feed : FeedSeed} {config : FeedConfig} {target : Finset ℤ} {id : ℤ}

/-- Who is left after all of a list are erased. -/
theorem mem_foldl_erase (l : List ℤ) (r : Finset ℤ) : id ∈ l.foldl Finset.erase r ↔ id ∈ r ∧ id ∉ l := by
  have herase : l.foldl Finset.erase r = r \ l.toFinset := foldl_erase l r
  rw [herase, Finset.mem_sdiff, List.mem_toFinset]

/-- The id is one of the expression, of nobody who has blocked the actor. -/
def Listed (s : Services) (feed : FeedSeed) (config : FeedConfig) (id : ℤ) : Prop :=
  (∃ ids, s.exprIds config.expr = some ids ∧ id ∈ ids) ∧ ∀ l, s.blockers feed.actor = some l → id ∉ l

/-- The feed goes to the actor himself. -/
def OwnPage (feed : FeedSeed) (config : FeedConfig) : Prop :=
  config.sendMiniConfig ∧ ¬(2901 ≤ feed.stype ∧ feed.stype ≤ 2904)

/-- Who is wanted, as the configuration says. -/
theorem mem_wanted :
    id ∈ wanted s feed config ↔ Listed s feed config id ∨ (id = feed.actor ∧ OwnPage feed config) := by
  have hlisted : id ∈ ((s.exprIds config.expr).map (filtFriend s feed.actor)).getD ∅ ↔ Listed s feed config id := by
    unfold Listed filtFriend
    cases s.exprIds config.expr with
    | none => simp
    | some ids =>
        rw [Option.map_some, Option.getD_some, mem_foldl_erase]
        cases s.blockers feed.actor <;> simp
  unfold wanted
  dsimp only
  split_ifs with hown
  · rw [Finset.mem_insert, hlisted, or_comm]
    exact or_congr_right (and_iff_left hown).symm
  · rw [hlisted]
    exact (or_iff_left fun hboth => hown hboth.2).symm

/-- The id is in an answer about a part. -/
def Refused (s : Services) (feed : FeedSeed) (id : ℤ) (part : List ℤ) : Prop :=
  ∃ out, s.filterRecvConfig part (feed.stype / 100) (appid feed) = some out ∧ id ∈ out

theorem mem_filterPart (r : Finset ℤ × List Call) (part : List ℤ) :
    id ∈ (filterPart s feed r part).1 ↔ id ∈ r.1 ∧ ¬Refused s feed id part := by
  unfold filterPart Refused
  cases hout : s.filterRecvConfig part (feed.stype / 100) (appid feed) with
  | none => simp
  | some out =>
      dsimp only
      rw [mem_foldl_erase]
      simp

theorem mem_filterParts (parts : List (List ℤ)) (r : Finset ℤ × List Call) :
    id ∈ (parts.foldl (filterPart s feed) r).1 ↔
      id ∈ r.1 ∧ ∀ part ∈ parts, ¬Refused s feed id part := by
  induction parts generalizing r with
  | nil => simp
  | cons part parts ih =>
      rw [List.foldl_cons, ih, mem_filterPart, List.forall_mem_cons, and_assoc]

/-- The calls that ask. -/
theorem asks_filterParts (parts : List (List ℤ)) (r : Finset ℤ × List Call) :
    (parts.foldl (filterPart s feed) r).2 =
      r.2 ++ parts.map fun part => .filterRecvConfig part (feed.stype / 100) (appid feed) := by
  induction parts generalizing r with
  | nil => simp
  | cons part parts ih =>
      rw [List.foldl_cons, ih]
      simp [filterPart]

/-- Who is asked: everyone who is wanted, if the feed is to go to news at all. -/
theorem asks_target (s : Services) (feed : FeedSeed) (config : FeedConfig) :
    (DispatchTask.target s feed config).2 =
      if config.sendNewsConfig then (partsOf kMaxSize (intSeq (wanted s feed config))).map
        fun part => .filterRecvConfig part (feed.stype / 100) (appid feed) else [] := by
  unfold DispatchTask.target filterRecv
  split
  · rw [asks_filterParts, List.nil_append]
  · rfl

/-- **Who is left.** -/
theorem mem_filterRecv :
    id ∈ (filterRecv s feed target).1 ↔
      id ∈ target ∧ ∀ part ∈ partsOf kMaxSize (intSeq target), ¬Refused s feed id part :=
  mem_filterParts _ _

theorem mem_target :
    id ∈ (DispatchTask.target s feed config).1 ↔ config.sendNewsConfig = true ∧
      (Listed s feed config id ∨ (id = feed.actor ∧ OwnPage feed config)) ∧
      ∀ part ∈ partsOf kMaxSize (intSeq (wanted s feed config)), ¬Refused s feed id part := by
  unfold DispatchTask.target
  split_ifs with hsend
  · simp [hsend, mem_filterRecv, mem_wanted]
  · simp [hsend]

/-- **Everyone once.** If the feed is to go to news, everyone who is wanted is asked about in one call
with at most 5000 users, else nobody is. Those who are wanted and have not refused, and no others,
are in one call to each of the services, at the news server of their own and with their own
weight, in calls with at most 50000. -/
theorem everyone_once (s : Services) (feed : FeedSeed) (config : FeedConfig) :
    let c := sendConfig s feed config
    let calls := handle s feed config
    let asked := calls.filterMap Call.asked
    let target := (DispatchTask.target s feed c).1
    let sent := weights feed (rank s feed target) (intSeq target)
    (asked.flatten = (if c.sendNewsConfig then intSeq (wanted s feed c) else []) ∧
        ∀ part ∈ asked, part.length ≤ kMaxSize) ∧
      (∀ id, id ∈ target ↔ c.sendNewsConfig = true ∧
        (Listed s feed c id ∨ (id = feed.actor ∧ OwnPage feed c)) ∧ ∀ part ∈ asked, ¬Refused s feed id part) ∧
      calls.flatMap Call.transitIds = intSeq target ∧
      (calls.flatMap Call.newsIds).Perm sent ∧
      calls.flatMap Call.sinkIds = sent ∧
      calls.flatMap Call.cacheIds = sent ∧
      (∀ call ∈ calls, call.Few) ∧
      ∀ k item config' m, Call.news k item config' m ∈ calls → ∀ e ∈ m, e.1.natAbs % s.cluster = k := by
  intro c calls asked target sent
  by_cases hsend : c.sendNewsConfig = true
  · set parts := partsOf kMaxSize (intSeq (wanted s feed c)) with hparts
    set asks := parts.map fun part => Call.filterRecvConfig part (feed.stype / 100) (appid feed) with hasks
    set delivered := FeedDeliver.deliver s feed { c with expr := eraseSpaces c.expr }
      (rank s feed target) target with hdelivered
    have hcalls : calls = asks ++ delivered := by
      show handle s feed config = _
      unfold handle
      dsimp only
      rw [asks_target, if_pos hsend, if_pos hsend]
    obtain ⟨hnone, htransit, hnews, hsink, hcache, hfew, hserver⟩ :=
      @deliver_once s feed { c with expr := eraseSpaces c.expr } (rank s feed target) hsend target
    have hasked : asked = parts := by
      show calls.filterMap Call.asked = parts
      rw [hcalls, List.filterMap_append, List.filterMap_eq_nil_iff.mpr hnone, List.append_nil, hasks,
        List.filterMap_map]
      exact List.filterMap_some
    have hflat : ∀ {β : Type} (f : Call → List β), (∀ part bigtype appid,
        f (.filterRecvConfig part bigtype appid) = []) → calls.flatMap f = delivered.flatMap f := by
      intro β f hf
      rw [hcalls, List.flatMap_append, hasks, List.flatMap_map]
      simp [hf]
    rw [hasked, if_pos hsend, hflat _ fun _ _ _ => rfl, hflat _ fun _ _ _ => rfl, hflat _ fun _ _ _ => rfl,
      hflat _ fun _ _ _ => rfl]
    refine ⟨⟨flatten_partsOf (by decide) _, fun part hp => length_le_of_mem_partsOf hp⟩, fun id => mem_target,
      htransit, hnews, hsink, hcache, fun call hmem => ?_, fun k item config' m hmem => ?_⟩
    · rw [hcalls, List.mem_append] at hmem
      rcases hmem with hmem | hmem
      · obtain ⟨part, -, rfl⟩ := List.mem_map.mp hmem
        exact ⟨Nat.zero_le _, Nat.zero_le _, Nat.zero_le _, Nat.zero_le _⟩
      · exact hfew call hmem
    · rw [hcalls, List.mem_append] at hmem
      refine hserver k item config' m (hmem.resolve_left fun hask => ?_)
      obtain ⟨part, -, hpart⟩ := List.mem_map.mp hask
      cases hpart
  · have htarget : target = ∅ := by
      show (DispatchTask.target s feed c).1 = ∅
      unfold DispatchTask.target
      rw [if_neg hsend]
    have hcalls : calls = FeedDeliver.deliverToMini feed c := by
      show handle s feed config = _
      unfold handle FeedDeliver.deliver
      dsimp only
      rw [asks_target, if_neg hsend, if_neg hsend, if_pos htarget, List.append_nil, List.nil_append]
    have hsent : sent = [] := by
      show weights feed _ (intSeq target) = []
      rw [htarget, intSeq_empty]
      rfl
    have hasked : asked = [] := List.filterMap_eq_nil_iff.mpr fun call hmem =>
      asked_deliverToMini (hcalls ▸ hmem)
    have hfew : ∀ call ∈ calls, call.Few := fun call hmem => few_deliverToMini (hcalls ▸ hmem)
    rw [hasked, hsent, htarget, if_neg hsend]
    refine ⟨by simp, by simp [hsend], ?_, ?_, ?_, ?_, hfew, ?_⟩
    all_goals
      rw [hcalls]
      unfold FeedDeliver.deliverToMini
      split <;> simp [Call.transitIds, Call.newsIds, Call.sinkIds, Call.cacheIds]

end DispatchTask

end Oce.FeedDispatcher
