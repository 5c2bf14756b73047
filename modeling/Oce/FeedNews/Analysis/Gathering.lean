import Mathlib.Data.List.Forall2
import Mathlib.Data.List.Sort
import Oce.FeedNews.Analysis.Grouping
import Oce.FeedNews.Analysis.RingLaw

/-!
# What a gathering shows

Each group with a feed that is no comment goes to the end of an entry or is a new entry, so the entries
are a permutation of these groups; the order of the groups is any permutation of their
numbers. Viewing a feed changes its weight only, and the ring holds the same feeds after it.
-/

set_option autoImplicit false

namespace Oce.FeedNews.LiveFeedRing

variable {feeds feeds' : ℕ → LiveFeedItem}

/-! ## The order of the groups -/

theorem exists_mapM {α β : Type} {f : α → Option β} {p : α → β → Prop} {l : List α}
    (h : ∀ x ∈ l, ∃ y, f x = some y ∧ p x y) : ∃ l', l.mapM f = some l' ∧ List.Forall₂ p l l' := by
  induction l with
  | nil => exact ⟨[], rfl, .nil⟩
  | cons x l ih =>
      obtain ⟨y, hy, hp⟩ := h x List.mem_cons_self
      obtain ⟨l', hl', hall⟩ := ih fun z hz => h z (List.mem_cons_of_mem _ hz)
      refine ⟨y :: l', ?_, .cons hp hall⟩
      rw [List.mapM_cons, hy, hl']
      rfl

/-- Every group is in the order once. -/
theorem orderByTime_spec (a : MergeArgs) {m : Merging} (h : m.Aligned) :
    ∃ order, orderByTime a m = some order ∧
      (order.reverse.map Prod.snd).Perm (List.range m.mergeFeeds.length) := by
  have hat : ∀ i ∈ List.range m.weights.length, ∃ p : ℤ × ℕ,
      (if a.sort then m.weights[i]? else m.updateTimes[i]?).map (·, i) = some p ∧ i = p.2 := by
    intro i hi
    have hlt := List.mem_range.mp hi
    have hlt' : i < m.updateTimes.length := by
      rw [h.updateTimes, ← h.weights]
      exact hlt
    rw [List.getElem?_eq_getElem hlt, List.getElem?_eq_getElem hlt']
    split
    · exact ⟨_, rfl, rfl⟩
    · exact ⟨_, rfl, rfl⟩
  obtain ⟨l, hl, hall⟩ := exists_mapM hat
  unfold orderByTime
  rw [hl]
  refine ⟨_, rfl, ?_⟩
  have hsnd : List.range m.weights.length = l.map Prod.snd := by
    refine List.forall₂_eq_eq_eq ▸ ?_
    exact List.forall₂_map_right_iff.mpr hall
  rw [← h.weights, hsnd]
  exact ((List.reverse_perm _).trans (List.mergeSort_perm _ _)).map _

/-! ## One group -/

/-- A group has a feed that is no comment. -/
def hasMain (feeds : ℕ → LiveFeedItem) (group : List ℕ) : Bool :=
  group.any fun slot => (feeds slot).feed.any fun f => !isComment f.smallType

theorem hasMain_congr (h : ∀ i, (feeds' i).feed = (feeds i).feed) :
    hasMain feeds' = hasMain feeds := by
  unfold hasMain
  funext group
  simp only [h]

theorem groupFeed_spec {group : List ℕ} (h : ∀ slot ∈ group, (feeds slot).feed.isSome = true) :
    ∃ found, groupFeed feeds group = some found ∧ found.isSome = hasMain feeds group := by
  induction group with
  | nil => exact ⟨none, rfl, rfl⟩
  | cons slot group ih =>
      obtain ⟨feed, hfeed⟩ := Option.isSome_iff_exists.mp (h slot List.mem_cons_self)
      unfold groupFeed hasMain
      rw [hfeed, Option.bind_some, List.any_cons, hfeed, Option.any_some]
      by_cases hcomment : isComment feed.smallType = true
      · rw [if_pos hcomment, hcomment]
        exact ih fun i hi => h i (List.mem_cons_of_mem _ hi)
      · rw [if_neg hcomment, Bool.eq_false_iff.mpr hcomment]
        exact ⟨some feed, rfl, rfl⟩

/-- A change of the slots of a group that leaves their feeds. -/
theorem foldl_update_feed {f : LiveFeedItem → LiveFeedItem} (hf : ∀ x, (f x).feed = x.feed)
    (group : List ℕ) (feeds : ℕ → LiveFeedItem) (i : ℕ) :
    (group.foldl (fun feeds slot => Function.update feeds slot (f (feeds slot))) feeds i).feed =
      (feeds i).feed := by
  induction group generalizing feeds with
  | nil => rfl
  | cons slot group ih => exact (ih _).trans ((retimed_update (hf (feeds slot))).feed i)

theorem view_feed (a : GatherArgs) (size : ℕ) (x : LiveFeedItem) : (view a size x).feed = x.feed := by
  unfold view
  dsimp only
  split_ifs <;> rfl

theorem showRandom_feed (x : LiveFeedItem) : (showRandom x).feed = x.feed := by
  have hmany : ∀ n (y : LiveFeedItem), (Nat.iterate LiveFeedItem.incViewedCount n y).feed = y.feed := by
    intro n
    induction n with
    | zero => exact fun _ => rfl
    | succ n ih => exact fun y => (ih y.incViewedCount).trans rfl
  exact hmany _ x

/-! ## All groups -/

/-- The groups `done` have been gathered. -/
structure Gathers (feeds : ℕ → LiveFeedItem) (m : Merging) (done : List ℕ) (s : Gathering) : Prop where
  feed : ∀ i, (s.feeds i).feed = (feeds i).feed
  flags : ∀ key p, s.flags key = some p → p.2 < s.res.length
  whole : s.res.flatten.Perm ((done.filterMap fun g => m.mergeFeeds[g]?).filter (hasMain feeds))
  leastViewed : ∀ g ∈ s.leastViewed, g < m.mergeFeeds.length

section Round

variable {a : GatherArgs} {m : Merging} {feeds : ℕ → LiveFeedItem} {done : List ℕ} {s : Gathering}
  {g : ℕ} {group : List ℕ}

theorem filterMap_snoc (hgroup : m.mergeFeeds[g]? = some group) :
    ((done ++ [g]).filterMap fun g => m.mergeFeeds[g]?).filter (hasMain feeds) =
      (done.filterMap fun g => m.mergeFeeds[g]?).filter (hasMain feeds) ++
        if hasMain feeds group then [group] else [] := by
  rw [List.filterMap_append, List.filter_append]
  refine congrArg _ ?_
  rw [List.filterMap_cons, hgroup]
  dsimp only [List.filterMap_nil]
  rw [List.filter_cons, List.filter_nil]

theorem gathers_nil (feeds : ℕ → LiveFeedItem) (m : Merging) (leastViewedCount : ℤ) :
    Gathers feeds m [] ⟨feeds, fun _ => none, [], 0, [], leastViewedCount⟩ where
  feed _ := rfl
  flags _ _ h := nomatch h
  whole := .refl []
  leastViewed _ h := nomatch h

theorem Gathers.mem_groups (h : Gathers feeds m done s) (hin : group ∈ s.res.flatten) :
    group ∈ m.mergeFeeds := by
  obtain ⟨hin, -⟩ := List.mem_filter.mp (h.whole.mem_iff.mp hin)
  obtain ⟨g, -, hgroup⟩ := List.mem_filterMap.mp hin
  exact List.mem_of_getElem? hgroup

theorem Gathers.tally (h : Gathers feeds m done s) (hg : g < m.mergeFeeds.length) (feed : PoolFeed)
    (viewed : ℤ) : Gathers feeds m done (s.tally a g feed viewed) := by
  have hsame : (s.tally a g feed viewed).feeds = s.feeds ∧ (s.tally a g feed viewed).flags = s.flags ∧
      (s.tally a g feed viewed).res = s.res := by
    unfold Gathering.tally
    dsimp only
    split_ifs <;> exact ⟨rfl, rfl, rfl⟩
  obtain ⟨hfeeds, hflags, hres⟩ := hsame
  refine ⟨hfeeds ▸ h.feed, ?_, hres ▸ h.whole, ?_⟩
  · rw [hflags, hres]
    exact h.flags
  · have hone : ∀ i ∈ [g], i < m.mergeFeeds.length := fun i hi => List.mem_singleton.mp hi ▸ hg
    unfold Gathering.tally
    dsimp only
    split_ifs <;> first | exact hone | exact h.leastViewed

theorem Gathers.entryFor_lt (h : Gathers feeds m done s) {feed : PoolFeed} {k : ℕ}
    (hk : s.entryFor feed = some k) : k < s.res.length := by
  unfold Gathering.entryFor at hk
  split_ifs at hk
  obtain ⟨p, hp, hk⟩ := Option.bind_eq_some_iff.mp hk
  split_ifs at hk
  cases hk
  exact h.flags _ _ hp

/-- A group with a feed that is no comment goes to one entry. -/
theorem Gathers.enter (h : Gathers feeds m done s) (hgroup : m.mergeFeeds[g]? = some group)
    (hmain : hasMain feeds group = true) (feed : PoolFeed) :
    ∃ s', s.enter a group feed = some s' ∧ Gathers feeds m (done ++ [g]) s' := by
  have hview : ∀ n i, (viewGroup a n group s.feeds i).feed = (feeds i).feed := fun n i =>
    (foldl_update_feed (view_feed a n) group s.feeds i).trans (h.feed i)
  have hmore : (group :: s.res.flatten).Perm
      (((done ++ [g]).filterMap fun g => m.mergeFeeds[g]?).filter (hasMain feeds)) := by
    rw [filterMap_snoc hgroup, if_pos hmain]
    exact (h.whole.cons group).trans (List.perm_append_singleton group _).symm
  unfold Gathering.enter
  cases hentry : s.entryFor feed with
  | some k =>
      have hk := h.entryFor_lt hentry
      have hget := List.getElem?_eq_getElem hk
      dsimp only
      rw [hget, Option.map_some]
      refine ⟨_, rfl, hview _, fun key p hp => ?_, (flatten_set_append hget group).trans hmore, h.leastViewed⟩
      rw [List.length_set]
      exact h.flags key p hp
  | none =>
      refine ⟨_, rfl, hview _, fun key p hp => ?_, ?_, h.leastViewed⟩
      · rw [List.length_append, List.length_singleton]
        by_cases hkey : key = feed.gatherKey
        · subst hkey
          dsimp only at hp
          rw [Function.update_self] at hp
          cases hp
          exact Nat.lt_succ_self _
        · dsimp only at hp
          rw [Function.update_of_ne hkey] at hp
          exact Nat.lt_succ_of_lt (h.flags key p hp)
      · dsimp only
        rw [List.flatten_append]
        exact (List.perm_append_singleton group _).trans hmore

/-- **A round gathers one group.** -/
theorem Gathers.step (h : Gathers feeds m done s) (halign : m.Aligned)
    (hgroup : m.mergeFeeds[g]? = some group) (hfilled : ∀ i ∈ group, (feeds i).feed.isSome = true) :
    ∃ s', gatherAt a m s g = some s' ∧ Gathers feeds m (done ++ [g]) s' := by
  obtain ⟨hg, -⟩ := List.getElem?_eq_some_iff.mp hgroup
  obtain ⟨found, hfound, hmain⟩ := @groupFeed_spec s.feeds group fun i hi => h.feed i ▸ hfilled i hi
  rw [hasMain_congr h.feed] at hmain
  unfold gatherAt
  rw [hgroup]
  dsimp only [Option.bind_eq_bind, Option.bind_some]
  rw [hfound]
  dsimp only [Option.bind_some]
  cases found with
  | none =>
      refine ⟨s, rfl, h.feed, h.flags, ?_, h.leastViewed⟩
      rw [filterMap_snoc hgroup, ← hmain]
      exact (List.append_nil _).symm ▸ h.whole
  | some feed =>
      rw [List.getElem?_eq_getElem (halign.viewedCount ▸ hg)]
      exact (h.tally hg feed _).enter hgroup hmain.symm feed

theorem Gathers.loop (halign : m.Aligned)
    (hfilled : ∀ group ∈ m.mergeFeeds, ∀ i ∈ group, (feeds i).feed.isSome = true) (gs : List ℕ)
    (hgs : ∀ g ∈ gs, g < m.mergeFeeds.length) (h : Gathers feeds m done s) :
    ∃ s', gatherLoop a m gs s = some s' ∧ Gathers feeds m (done ++ gs) s' := by
  induction gs generalizing done s with
  | nil => exact ⟨s, rfl, (List.append_nil done).symm ▸ h⟩
  | cons g gs ih =>
      have hg := hgs g List.mem_cons_self
      obtain ⟨s₁, hs₁, h₁⟩ := h.step (a := a) halign (List.getElem?_eq_getElem hg)
        (hfilled _ (List.getElem_mem hg))
      obtain ⟨s', hs', h'⟩ := ih (fun i hi => hgs i (List.mem_cons_of_mem _ hi)) h₁
      refine ⟨s', ?_, ?_⟩
      · unfold gatherLoop
        rw [hs₁]
        exact hs'
      · rw [List.append_assoc] at h'
        exact h'

end Round

/-! ## The result -/

theorem feedsAt_congr (h : ∀ i, (feeds' i).feed = (feeds i).feed) :
    feedsAt feeds' = feedsAt feeds := by
  unfold feedsAt
  funext entries
  simp only [h]

theorem exists_feedsAt {entries : List (List (List ℕ))}
    (h : ∀ group ∈ entries.flatten, ∀ i ∈ group, (feeds i).feed.isSome = true) :
    ∃ res, feedsAt feeds entries = some res := by
  have hgroup : ∀ group ∈ entries.flatten, ∃ l, group.mapM (fun i => (feeds i).feed) = some l ∧ True := by
    intro group hin
    obtain ⟨l, hl, -⟩ := exists_mapM (p := fun _ _ => True) fun i hi =>
      (Option.isSome_iff_exists.mp (h group hin i hi)).imp fun _ hfeed => ⟨hfeed, trivial⟩
    exact ⟨l, hl, trivial⟩
  have hentry : ∀ entry ∈ entries, ∃ l,
      entry.mapM (fun group => group.mapM fun i => (feeds i).feed) = some l ∧ True := by
    intro entry hin
    obtain ⟨l, hl, -⟩ := exists_mapM fun group hgroup' =>
      hgroup group (List.mem_flatten.mpr ⟨entry, hin, hgroup'⟩)
    exact ⟨l, hl, trivial⟩
  obtain ⟨res, hres, -⟩ := exists_mapM hentry
  exact ⟨res, hres⟩

/-- What a gathering does with the feeds of `r`. -/
structure Gathered.Whole (r : LiveFeedRing) (a : MergeArgs) (g : Gathered) : Prop where
  once : g.groups.flatten.Nodup
  stored : ∀ slot ∈ g.groups.flatten, ∃ d : ℕ, d < r.size ∧ slot = r.newest d
  alike : ∀ group ∈ g.groups, group ≠ [] ∧ ∀ i ∈ group, ∀ j ∈ group, ∃ f f' : PoolFeed,
    (r.feeds i).feed = some f ∧ (r.feeds j).feed = some f' ∧ f.merge = f'.merge ∧ f.ver = f'.ver ∧
      main2Comment f.smallType = main2Comment f'.smallType
  entries : g.entries.flatten.Perm (g.groups.filter (hasMain r.feeds))
  res : feedsAt r.feeds g.entries = some g.res
  absent : ∀ d : ℕ, d < r.size → r.newest d ∉ g.entries.flatten.flatten →
    (∃ group ∈ g.groups, r.newest d ∈ group ∧ hasMain r.feeds group = false) ∨ LeftOut r a g.groups d

section Whole

variable {r : LiveFeedRing} {l : List LiveFeedItem} {a : MergeArgs} {m : Merging}

theorem Grouped.alike {c : ℕ} (h : Grouped r a c m) (group : List ℕ) (hin : group ∈ m.mergeFeeds) :
    group ≠ [] ∧ ∃ key, ∀ i ∈ group, keyAt r i = some key := by
  obtain ⟨g, hg, rfl⟩ := List.getElem_of_mem hin
  obtain ⟨key, hkey⟩ := h.keyed g hg
  obtain ⟨group, hgroup, hne, hall⟩ := h.indexed key g hkey
  rw [List.getElem?_eq_getElem hg] at hgroup
  cases hgroup
  exact ⟨hne, key, hall⟩

theorem keyAt_eq_some {key : ℕ × ℤ} {i : ℕ} (h : keyAt r i = some key) :
    ∃ f : PoolFeed, (r.feeds i).feed = some f ∧ f.mergeKey = key :=
  Option.map_eq_some_iff.mp h

theorem filterMap_range {α : Type} (l : List α) :
    (List.range l.length).filterMap (fun i => l[i]?) = l := by
  have hmap : (List.range l.length).map (fun i => l[i]?) = l.map some := by
    refine List.ext_getElem (by simp) fun i hi hi' => ?_
    rw [List.getElem_map, List.getElem_map, List.getElem_range]
    exact List.getElem?_eq_getElem _
  have hid := congrArg (List.filterMap id) hmap
  rw [List.filterMap_map, List.filterMap_map] at hid
  exact hid.trans List.filterMap_some

/-- All groups have been gathered. -/
theorem Grouped.whole (h : Keeps r l) (hm : Grouped r a l.length m) {gs : List ℕ}
    (hgs : gs.Perm (List.range m.mergeFeeds.length)) {s : Gathering}
    (hs : Gathers m.feeds m gs s) {g : Gathered} (hgroups : g.groups = m.mergeFeeds)
    (hentries : g.entries = s.res) (hres : feedsAt s.feeds s.res = some g.res) : g.Whole r a := by
  have hmain := hasMain_congr hm.feed
  have hall := filterMap_range m.mergeFeeds
  have hwhole : s.res.flatten.Perm (m.mergeFeeds.filter (hasMain r.feeds)) := by
    rw [← hmain]
    conv_rhs => rw [← hall]
    exact hs.whole.trans ((hgs.filterMap _).filter _)
  refine ⟨hgroups ▸ hm.nodup, fun slot hin => ?_, fun group hin => ?_, ?_, ?_, fun d hd hout => ?_⟩
  · obtain ⟨d, hd, heq⟩ := hm.read slot (hgroups ▸ hin)
    refine ⟨d, ?_, heq⟩
    rw [h.size]
    exact Int.ofNat_lt.mpr hd
  · obtain ⟨hne, key, hkey⟩ := hm.alike group (hgroups ▸ hin)
    refine ⟨hne, fun i hi j hj => ?_⟩
    obtain ⟨f, hf, hfkey⟩ := keyAt_eq_some (hkey i hi)
    obtain ⟨f', hf', hfkey'⟩ := keyAt_eq_some (hkey j hj)
    exact ⟨f, f', hf, hf', mergeKey_inj (hfkey.trans hfkey'.symm)⟩
  · rw [hgroups, hentries]
    exact hwhole
  · rw [hentries, ← hres, feedsAt_congr fun i => (hs.feed i).trans (hm.feed i)]
  · rw [h.size] at hd
    by_cases hin : r.newest d ∈ m.mergeFeeds.flatten
    · left
      obtain ⟨group, hgroup, hmem⟩ := List.mem_flatten.mp hin
      refine ⟨group, hgroups ▸ hgroup, hmem, Bool.eq_false_iff.mpr fun htrue => hout ?_⟩
      refine List.mem_flatten.mpr ⟨group, ?_, hmem⟩
      rw [hentries]
      exact hwhole.mem_iff.mpr (List.mem_filter.mpr ⟨hgroup, htrue⟩)
    · right
      rw [hgroups]
      exact hm.left d (Int.ofNat_lt.mp hd) hin

/-- The slots have the same feeds. -/
theorem Keeps.refeed (h : Keeps r l) (hfeed : ∀ i, (feeds i).feed = (r.feeds i).feed) :
    ∃ l' : List LiveFeedItem, Keeps { r with feeds := feeds } l' ∧
      l'.map LiveFeedItem.feed = l.map LiveFeedItem.feed := by
  set l' := (List.range l.length).map fun t => feeds (place r.endPos l.length t) with hl'
  have hlen : l'.length = l.length := by
    rw [hl', List.length_map, List.length_range]
  have hmap : l'.map LiveFeedItem.feed = l.map LiveFeedItem.feed := by
    refine List.ext_getElem (by simp [hl']) fun t ht ht' => ?_
    rw [List.length_map] at ht'
    simp only [List.getElem_map, hl', List.getElem_range]
    rw [hfeed, h.slots t _ (List.getElem?_eq_getElem ht')]
  have hindex : ∀ k (ys : List LiveFeedItem), ys.countP (hasIndex k) =
      (ys.map LiveFeedItem.feed).countP fun o => o.any fun f => f.index = k := by
    intro k ys
    rw [List.countP_map]
    rfl
  refine ⟨l', ⟨fun t x hx => ?_, ?_, ?_, h.lt, fun x hx => ?_, fun k => ?_⟩, hmap⟩
  · obtain ⟨ht, rfl⟩ := List.getElem?_eq_some_iff.mp hx
    rw [hlen]
    simp only [hl', List.getElem_map, List.getElem_range]
  · rw [hlen]
    exact h.size
  · rw [hlen]
    exact h.le
  · have hin : x.feed ∈ l.map LiveFeedItem.feed := hmap ▸ List.mem_map_of_mem hx
    obtain ⟨y, hy, heq⟩ := List.mem_map.mp hin
    rw [← heq]
    exact h.filled y hy
  · rw [hindex, hmap, ← hindex]
    exact h.sizes k

end Whole

/-- **Gathering loses and doubles nothing.** The feeds that are not shown are those shown as random
before, those of groups of comments, and the advertising ones after the first. -/
theorem gathering_law {r : LiveFeedRing} {l : List LiveFeedItem} (h : Keeps r l) (a : GatherArgs)
    (now later : ℕ → ℤ) (weight : ℕ → LiveFeedItem → ℤ) (edmCount : ℤ) :
    ∃ g, r.getGatheredFeed a now later weight edmCount = some g ∧
      g.Whole r ⟨a.first, a.hot, true, now, later, weight⟩ ∧
      ∃ l' : List LiveFeedItem, Keeps g.ring l' ∧
        l'.map LiveFeedItem.feed = l.map LiveFeedItem.feed := by
  obtain ⟨m, hm, hgrouped⟩ :=
    h.mergeFeed (a := ⟨a.first, a.hot, true, now, later, weight⟩) rfl edmCount
  obtain ⟨order, horder, hperm⟩ :=
    orderByTime_spec ⟨a.first, a.hot, true, now, later, weight⟩ hgrouped.aligned
  have hfilled : ∀ group ∈ m.mergeFeeds, ∀ i ∈ group, (m.feeds i).feed.isSome = true := by
    intro group hin i hi
    obtain ⟨d, hd, rfl⟩ := hgrouped.read i (List.mem_flatten.mpr ⟨group, hin, hi⟩)
    rw [hgrouped.feed]
    exact h.filled_newest hd
  obtain ⟨s, hs, hgathers⟩ := Gathers.loop (a := a) hgrouped.aligned hfilled _
    (fun g hg => List.mem_range.mp (hperm.mem_iff.mp hg))
    (gathers_nil m.feeds m 2)
  rw [List.nil_append] at hgathers
  have hfeed : ∀ i, (s.feeds i).feed = (r.feeds i).feed := fun i =>
    (hgathers.feed i).trans (hgrouped.feed i)
  have hshown : ∀ group ∈ m.mergeFeeds, ∀ i ∈ group, (s.feeds i).feed.isSome = true := by
    intro group hin i hi
    rw [hgathers.feed]
    exact hfilled group hin i hi
  obtain ⟨res, hres⟩ := exists_feedsAt fun group hin => hshown group (hgathers.mem_groups hin)
  unfold getGatheredFeed
  dsimp only [Option.bind_eq_bind]
  rw [hm]
  dsimp only [Option.bind_some]
  rw [horder]
  dsimp only [Option.bind_some]
  rw [hs]
  dsimp only [Option.bind_some]
  rw [hres]
  dsimp only [Option.bind_some]
  cases hleast : s.leastViewed with
  | nil => exact ⟨_, rfl, hgrouped.whole h hperm hgathers rfl rfl hres, h.refeed hfeed⟩
  | cons g gs =>
      have hg := hgathers.leastViewed g (hleast ▸ List.mem_cons_self)
      obtain ⟨random, hrandom⟩ : ∃ random, feedsAt s.feeds [[m.mergeFeeds[g]]] = some random := by
        refine exists_feedsAt fun group hin => hshown group ?_
        rw [List.flatten_singleton, List.mem_singleton] at hin
        exact hin ▸ List.getElem_mem hg
      dsimp only
      rw [List.getElem?_eq_getElem hg]
      dsimp only [Option.bind_some]
      rw [hrandom]
      refine ⟨_, rfl, hgrouped.whole h hperm hgathers rfl rfl hres, h.refeed fun i => ?_⟩
      exact (foldl_update_feed showRandom_feed _ _ i).trans (hfeed i)

/-- Two feeds of one group, and two advertising ones. -/
def fourFeeds : List RingOp :=
  [.add none ⟨⟨1, 10, 701, 100⟩, 0, 7⟩ false true, .add none ⟨⟨2, 10, 2902, 150⟩, 0, 7⟩ false true,
    .add none ⟨⟨3, 11, 502, -1⟩, 0, 7⟩ false true, .add none ⟨⟨4, 12, 502, 900⟩, 0, 7⟩ false true]

theorem gathering_law_four : ∃ r g, RingOp.run .new fourFeeds = some r ∧
    r.getGatheredFeed ⟨0, 20, true⟩ (fun _ => 200) (fun _ => 200) (fun _ x => x.time) 0 = some g ∧
    g.Whole r ⟨0, true, true, fun _ => 200, fun _ => 200, fun _ x => x.time⟩ := by
  obtain ⟨r, hrun, h⟩ := RingOp.run_keeps keeps_new fourFeeds
  obtain ⟨g, hg, hwhole, -⟩ := gathering_law h ⟨0, 20, true⟩ (fun _ => 200) (fun _ => 200) (fun _ x => x.time) 0
  exact ⟨r, g, hrun, hg, hwhole⟩

end Oce.FeedNews.LiveFeedRing
