import Mathlib.Data.List.Dedup
import Oce.FeedGroup.Model.Group
import Oce.FeedGroup.Model.Pages

/-!
# The order of a group's feeds, and its pages

Every operation keeps the newest feed first (`NewestFirst`), the appending one when the feed it
appends is no newer than the last, and a refresh moves one feed and no other (`RefreshesOnly`).
By that order the feed that opens a group is the newest of it, and the multimap orders the groups
by their newest feeds. The pages cut the accepted groups into pieces of `limit` (`getFeed_eq`).

What a group holds is decided feed by feed, from the merge type of the feed that is to join and
not from that of the group (`kept`). Where all feeds of a group have one merge type that is one
feed, five or all of them (`kept_of_type`); where they differ it need not be the newest ones.
-/

set_option autoImplicit false

namespace Oce.FeedGroup

open Oce.Base

variable {l l' : List GroupFeedItem} {g : GroupFeeds} {e item : GroupFeedItem} {feedId timestamp : ℤ}

/-! ## The order -/

/-- The times descend. -/
def NewestFirst (l : List GroupFeedItem) : Prop := l.Pairwise fun e e' => e'.time ≤ e.time

instance (l : List GroupFeedItem) : Decidable (NewestFirst l) :=
  inferInstanceAs (Decidable (l.Pairwise _))

/-- One feed of that id has the new time and a new place, or nothing has changed. -/
def RefreshesOnly (feedId timestamp : ℤ) (l l' : List GroupFeedItem) : Prop :=
  l' = l ∨ ∃ front middle item back, l = front ++ (middle ++ item :: back) ∧ item.id = feedId ∧
    l' = front ++ { item with time := timestamp } :: (middle ++ back)

theorem mem_insertByTime : e ∈ GroupFeeds.insertByTime item l → e = item ∨ e ∈ l := by
  induction l with
  | nil => exact fun h => .inl (List.mem_singleton.mp h)
  | cons e' l ih =>
      intro h
      unfold GroupFeeds.insertByTime at h
      split at h
      · exact List.mem_cons.mp h
      · rcases List.mem_cons.mp h with rfl | h
        · exact .inr (by simp)
        · exact (ih h).imp_right (List.mem_cons_of_mem _)

theorem NewestFirst.insertByTime (h : NewestFirst l) : NewestFirst (GroupFeeds.insertByTime item l) := by
  induction l with
  | nil => exact List.pairwise_singleton _ _
  | cons e l ih =>
      obtain ⟨he, hl⟩ := List.pairwise_cons.mp h
      unfold GroupFeeds.insertByTime
      split
      · rename_i hle
        refine List.pairwise_cons.mpr ⟨fun e' he' => ?_, h⟩
        rcases List.mem_cons.mp he' with rfl | he'
        · exact hle
        · exact (he e' he').trans hle
      · rename_i hlt
        refine List.pairwise_cons.mpr ⟨fun e' he' => ?_, ih hl⟩
        rcases mem_insertByTime he' with rfl | he'
        · exact (not_le.mp hlt).le
        · exact he e' he'

/-- The feed that is taken out stands before no other of its id. -/
theorem takeById_eq_some {others : List GroupFeedItem}
    (h : GroupFeeds.takeById feedId l = some (item, others)) :
    ∃ middle back, l = middle ++ item :: back ∧ others = middle ++ back ∧ item.id = feedId := by
  induction l generalizing others with
  | nil => cases h
  | cons e l ih =>
      unfold GroupFeeds.takeById at h
      split at h
      · rename_i hid
        cases h
        exact ⟨[], l, rfl, rfl, hid⟩
      · obtain ⟨r, hr, heq⟩ := Option.map_eq_some_iff.mp h
        cases heq
        obtain ⟨middle, back, rfl, hothers, hid⟩ := ih hr
        exact ⟨e :: middle, back, rfl, by rw [hothers]; rfl, hid⟩

/-- Where a refresh puts the feed: behind the newer ones and before one that is not. -/
theorem refreshScan_spec (feedId timestamp : ℤ) (l : List GroupFeedItem) :
    GroupFeeds.refreshScan feedId timestamp l = l ∨
      ∃ front middle item back, l = front ++ (middle ++ item :: back) ∧ item.id = feedId ∧
        GroupFeeds.refreshScan feedId timestamp l =
          front ++ { item with time := timestamp } :: (middle ++ back) ∧
        (∀ e ∈ front, timestamp < e.time) ∧
        ∀ e ∈ (middle ++ item :: back).head?, e.time ≤ timestamp := by
  induction l with
  | nil => exact .inl rfl
  | cons e l ih =>
      unfold GroupFeeds.refreshScan
      by_cases hle : e.time ≤ timestamp
      · rw [if_pos hle]
        cases htake : GroupFeeds.takeById feedId (e :: l) with
        | none => exact .inl rfl
        | some r =>
            obtain ⟨middle, back, hl, hothers, hid⟩ := takeById_eq_some htake
            refine .inr ⟨[], middle, r.1, back, hl, hid, by rw [← hothers]; rfl, by simp, ?_⟩
            rw [← hl]
            simpa using hle
      · rw [if_neg hle]
        by_cases hid : e.id = feedId
        · rw [if_pos hid]
          exact .inl rfl
        · rw [if_neg hid]
          rcases ih with ih | ⟨front, middle, item, back, hl, hitem, hscan, hfront, hhead⟩
          · exact .inl (by rw [ih])
          · refine .inr ⟨e :: front, middle, item, back, by rw [hl]; rfl, hitem, by rw [hscan]; rfl,
              ?_, hhead⟩
            intro e' he'
            rcases List.mem_cons.mp he' with rfl | he'
            · exact not_le.mp hle
            · exact hfront e' he'

/-- **A refresh moves one feed and no other.** -/
theorem refreshesOnly (g : GroupFeeds) (feedId timestamp : ℤ) :
    RefreshesOnly feedId timestamp g.feeds (g.refreshFeedItem feedId timestamp).feeds := by
  rcases refreshScan_spec feedId timestamp g.feeds with h |
    ⟨front, middle, item, back, hl, hid, hscan, _, _⟩
  · exact .inl h
  · exact .inr ⟨front, middle, item, back, hl, hid, hscan⟩

/-- A refreshed item goes to its time. -/
theorem NewestFirst.refreshScan (h : NewestFirst l) (feedId timestamp : ℤ) :
    NewestFirst (GroupFeeds.refreshScan feedId timestamp l) := by
  rcases refreshScan_spec feedId timestamp l with hl |
    ⟨front, middle, item, back, hl, _, hscan, hfront, hhead⟩
  · rw [hl]
    exact h
  · rw [hscan]
    unfold NewestFirst at h
    rw [hl] at h
    obtain ⟨hf, hrest, hcross⟩ := List.pairwise_append.mp h
    have hsub : (middle ++ back).Sublist (middle ++ item :: back) :=
      (List.sublist_cons_self item back).append_left middle
    -- the first of the rest is no newer than the new time, and the others are no newer than it
    have hle : ∀ e ∈ middle ++ item :: back, e.time ≤ timestamp := by
      cases hrest' : middle ++ item :: back with
      | nil => simp
      | cons e₀ rest =>
          rw [hrest'] at hrest hhead
          have h₀ : e₀.time ≤ timestamp := hhead e₀ rfl
          intro e he
          rcases List.mem_cons.mp he with rfl | he
          · exact h₀
          · exact ((List.pairwise_cons.mp hrest).1 e he).trans h₀
    refine List.pairwise_append.mpr ⟨hf, ?_, ?_⟩
    · exact List.pairwise_cons.mpr ⟨fun e he => hle e (hsub.subset he), hrest.sublist hsub⟩
    · intro e he e' he'
      rcases List.mem_cons.mp he' with rfl | he'
      · exact (hfront e he).le
      · exact hcross e he e' (hsub.subset he')

/-- A feed is appended only where it is no newer than the last. -/
def FeedsOp.Ordered (g : GroupFeeds) : FeedsOp → Prop
  | addFeedItem item => ∀ back ∈ g.feeds.getLast?, item.time ≤ back.time
  | _ => True

instance (g : GroupFeeds) (op : FeedsOp) : Decidable (op.Ordered g) := by
  cases op <;> unfold FeedsOp.Ordered <;> infer_instance

theorem NewestFirst.append (h : NewestFirst l) (hlast : ∀ back ∈ l.getLast?, item.time ≤ back.time) :
    NewestFirst (l ++ [item]) := by
  refine List.pairwise_append.mpr ⟨h, List.pairwise_singleton _ _, ?_⟩
  rintro e he e' he'
  rw [List.mem_singleton.mp he']
  rcases List.eq_nil_or_concat l with rfl | ⟨init, back, rfl⟩
  · cases he
  · have hback : item.time ≤ back.time := hlast back (by simp)
    rw [List.concat_eq_append] at h he
    rcases List.mem_append.mp he with he | he
    · exact hback.trans ((List.pairwise_append.mp h).2.2 e he back (by simp))
    · rw [List.mem_singleton.mp he]
      exact hback

theorem NewestFirst.remove (h : NewestFirst g.feeds) (stype : ℕ) (merge : ℤ) :
    NewestFirst (g.remove stype merge).2.feeds := h.filter _

/-- **Every operation keeps the newest first.** -/
theorem NewestFirst.step {op : FeedsOp} (h : NewestFirst g.feeds) (hop : op.Ordered g) :
    NewestFirst (op.step g).feeds := by
  cases op with
  | addFeedItem item => exact h.append hop
  | addNewFeedItem item => exact h.insertByTime
  | refreshFeedItem feedId timestamp => exact h.refreshScan feedId timestamp
  | remove stype merge => exact h.remove stype merge
  | removeById feedId byMerge =>
      unfold FeedsOp.step
      cases byMerge with
      | true =>
          show NewestFirst (g.removeById feedId).2.feeds
          unfold GroupFeeds.removeById
          split <;> exact h.remove _ _
      | false =>
          show NewestFirst (g.removeOneById feedId).2.feeds
          unfold GroupFeeds.removeOneById
          split
          · rename_i e others htake
            obtain ⟨middle, back, hl, hothers, _⟩ := takeById_eq_some htake
            unfold NewestFirst at h
            rw [hl] at h
            rw [hothers]
            exact h.sublist ((List.sublist_cons_self e back).append_left middle)
          · exact h.remove _ _
  | evictOversize => exact h.sublist (List.take_sublist _ _)

/-! ## Groups -/

/-- The feeds of one key, the newest first. -/
def mergeGroup (k : ℕ × ℤ) (l : List GroupFeedItem) : List GroupFeedItem :=
  l.filter fun e => e.mergeKey = k

/-- The newest feed of a key. -/
def newest (l : List GroupFeedItem) (k : ℕ × ℤ) : Option GroupFeedItem := (mergeGroup k l).head?

/-- The keys whose newest feed is accepted. -/
def acceptedKeys (check : GroupFeedItem → Bool) (l : List GroupFeedItem) : List (ℕ × ℤ) :=
  (l.map GroupFeedItem.mergeKey).dedup.filter fun k => (newest l k).any check

/-- One feed of a replace type, five of an append type, all of another. -/
def newestOfType (type : ℕ) (l : List GroupFeedItem) : List GroupFeedItem :=
  if type = feedMergeReplace then l.take 1 else if type = feedMergeAppend then l.take 5 else l

/-- Nothing that merges with the newest feed of a key is newer. -/
theorem NewestFirst.newest_le {k : ℕ × ℤ} (h : NewestFirst l) (hnew : newest l k = some item) :
    ∀ e ∈ mergeGroup k l, e.time ≤ item.time := by
  have hgroup : NewestFirst (mergeGroup k l) := h.filter _
  unfold newest at hnew
  cases hl : mergeGroup k l with
  | nil => simp
  | cons e₀ rest =>
      rw [hl] at hnew hgroup
      cases hnew
      intro e he
      rcases List.mem_cons.mp he with rfl | he
      · exact le_refl _
      · exact (List.pairwise_cons.mp hgroup).1 e he

/-- What a group of one merge type holds. -/
theorem kept_of_type {type : ℕ} (h : ∀ e ∈ l, e.miniMergeType = type) :
    kept GroupFeeds.joins l = newestOfType type l := by
  induction l using List.reverseRecOn with
  | nil => simp [kept, newestOfType]
  | append_singleton l e ih =>
      have hl := ih fun e' he' => h e' (by simp [he'])
      have he : e.miniMergeType = type := h e (by simp)
      rw [kept_append]
      by_cases hnil : l = []
      · subst hnil
        unfold newestOfType
        split_ifs <;> simp [kept, keepNext]
      · have hlen : 1 ≤ l.length := List.length_pos_iff.mpr hnil
        rw [keepNext_of_ne_nil (kept_ne_nil hnil), hl]
        unfold GroupFeeds.joins newestOfType feedMergeReplace feedMergeAppend
        rw [he]
        by_cases hrep : type = 1
        · simp [hrep, List.take_append_of_le_length hlen]
        · by_cases happ : type = 2
          · by_cases hfive : 5 ≤ l.length
            · simp [happ, hfive, List.take_append_of_le_length hfive]
            · have hle : (l ++ [e]).length ≤ 5 := by
                rw [List.length_append, List.length_singleton]
                omega
              have hle' : l.length ≤ 5 := by omega
              simp [happ, List.take_of_length_le hle, List.take_of_length_le hle', hfive]
          · simp [hrep, happ]

/-! ## Pages -/

/-- The first `n` pages. -/
def GroupFeeds.pages (g : GroupFeeds) (check : GroupFeedItem → Bool) (limit n : ℕ) :
    List (List (List GroupFeedItem)) :=
  (List.range n).flatMap fun i => g.getFeed check (i * limit : ℕ) limit

theorem orderByTime_concat (merged : List (Grouped GroupFeedItem)) (m : Grouped GroupFeedItem) :
    GroupFeeds.orderByTime (merged ++ [m]) =
      (GroupFeeds.orderByTime merged).orderedInsert (fun m m' => m.front.time < m'.front.time) m := by
  simp [GroupFeeds.orderByTime, List.foldl_append]

theorem sorted_orderedInsert {merged : List (Grouped GroupFeedItem)} {m : Grouped GroupFeedItem}
    (h : merged.Pairwise fun m m' => m.front.time ≤ m'.front.time) :
    (merged.orderedInsert (fun m m' => m.front.time < m'.front.time) m).Pairwise
      fun m m' => m.front.time ≤ m'.front.time := by
  induction merged with
  | nil => exact List.pairwise_singleton _ _
  | cons m₀ merged ih =>
      obtain ⟨hm₀, hmerged⟩ := List.pairwise_cons.mp h
      rw [List.orderedInsert_cons]
      split
      · rename_i hlt
        refine List.pairwise_cons.mpr ⟨fun m' hm' => ?_, h⟩
        rcases List.mem_cons.mp hm' with rfl | hm'
        · exact hlt.le
        · exact hlt.le.trans (hm₀ m' hm')
      · rename_i hge
        refine List.pairwise_cons.mpr ⟨fun m' hm' => ?_, ih hmerged⟩
        rcases (List.mem_orderedInsert _).mp hm' with rfl | hm'
        · exact not_lt.mp hge
        · exact hm₀ m' hm'

/-- The multimap has the groups, those of older feeds first. -/
theorem orderByTime_spec (merged : List (Grouped GroupFeedItem)) :
    (GroupFeeds.orderByTime merged).Perm merged ∧
      (GroupFeeds.orderByTime merged).Pairwise fun m m' => m.front.time ≤ m'.front.time := by
  induction merged using List.reverseRecOn with
  | nil => simp [GroupFeeds.orderByTime]
  | append_singleton merged m ih =>
      rw [orderByTime_concat]
      refine ⟨?_, ?_⟩
      · exact ((List.perm_orderedInsert _ _ _).trans (ih.1.cons m)).trans
          (List.perm_append_singleton m merged).symm
      · exact sorted_orderedInsert ih.2

/-- The loop takes the checked items from `start` on. -/
theorem pageLoop_eq (check : GroupFeedItem → Bool) (start limit : ℕ)
    (l : List (Grouped GroupFeedItem)) (count : ℕ) :
    GroupFeeds.pageLoop check start limit count l =
      (((l.filter fun m => check m.front).take (start + limit - count)).drop (start - count)).map
        fun m => [m.items] := by
  induction l generalizing count with
  | nil => simp [GroupFeeds.pageLoop]
  | cons m l ih =>
      unfold GroupFeeds.pageLoop
      have hnext := ih (count + 1)
      push_cast at hnext
      by_cases hcheck : check m.front = true
      · have hfilter : (m :: l).filter (fun m => check m.front) =
            m :: l.filter fun m => check m.front := by simp [hcheck]
        rw [if_neg (by simpa using hcheck), hfilter]
        by_cases hskip : count < start
        · have htake : start + limit - count = start + limit - (count + 1) + 1 := by omega
          have hdrop : start - count = start - (count + 1) + 1 := by omega
          rw [if_pos (by omega), hnext, htake, hdrop, List.take_succ_cons, List.drop_succ_cons]
        · have hdrop : start - count = 0 := by omega
          have hdrop' : start - (count + 1) = 0 := by omega
          rw [if_neg (by omega), hdrop, List.drop_zero]
          rw [hdrop', List.drop_zero] at hnext
          by_cases hfull : start + limit ≤ count
          · have htake : start + limit - count = 0 := by omega
            rw [if_pos (by omega), htake, List.take_zero]
            rfl
          · have htake : start + limit - count = start + limit - (count + 1) + 1 := by omega
            rw [if_neg (by omega), hnext, htake, List.take_succ_cons, List.map_cons]
      · have hfilter : (m :: l).filter (fun m => check m.front) = l.filter fun m => check m.front := by
          simp [hcheck]
        rw [if_pos (by simpa using hcheck), hfilter]
        exact ih count

/-- The groups that are accepted, those of newer feeds first. -/
def GroupFeeds.acceptedGroups (g : GroupFeeds) (check : GroupFeedItem → Bool) :
    List (Grouped GroupFeedItem) :=
  (GroupFeeds.orderByTime g.mergeFeed).reverse.filter fun m => check m.front

/-- **A page is a piece of the accepted groups.** -/
theorem getFeed_eq (g : GroupFeeds) (check : GroupFeedItem → Bool) (start limit : ℕ) :
    g.getFeed check start limit =
      (((g.acceptedGroups check).drop start).take limit).map fun m => [m.items] := by
  have h := pageLoop_eq check start limit (GroupFeeds.orderByTime g.mergeFeed).reverse 0
  rw [Nat.sub_zero, Nat.sub_zero] at h
  unfold GroupFeeds.getFeed
  show GroupFeeds.pageLoop check start limit ((0 : ℕ) : ℤ) _ = _
  rw [h, List.drop_take, Nat.add_sub_cancel_left]
  rfl

theorem pages_eq (g : GroupFeeds) (check : GroupFeedItem → Bool) (limit n : ℕ) :
    g.pages check limit n =
      ((g.acceptedGroups check).take (n * limit)).map fun m => [m.items] := by
  unfold GroupFeeds.pages
  induction n with
  | zero => simp
  | succ n ih =>
      rw [List.range_succ, List.flatMap_append, ih, List.flatMap_singleton, getFeed_eq,
        ← List.map_append, Nat.succ_mul, List.take_add]

/-- A group has what is kept of the feeds of its key, and opens with the newest of them. -/
theorem mergeFeed_spec {m : Grouped GroupFeedItem} (hm : m ∈ g.mergeFeed) :
    m.items = kept GroupFeeds.joins (mergeGroup m.front.mergeKey g.feeds) ∧
      newest g.feeds m.front.mergeKey = some m.front := by
  have hitems := items_of_mem_gather hm
  refine ⟨hitems, ?_⟩
  have hhead : (kept GroupFeeds.joins (mergeGroup m.front.mergeKey g.feeds)).head? = some m.front := by
    rw [mergeGroup, ← hitems]
    rfl
  rw [newest, ← hhead, head?_kept]

theorem mem_acceptedGroups {check : GroupFeedItem → Bool} {m : Grouped GroupFeedItem} :
    m ∈ g.acceptedGroups check ↔ m ∈ g.mergeFeed ∧ check m.front = true := by
  unfold GroupFeeds.acceptedGroups
  rw [List.mem_filter, List.mem_reverse, (orderByTime_spec g.mergeFeed).1.mem_iff]

/-- **Each key whose newest feed is accepted has one group.** -/
theorem acceptedGroups_perm (g : GroupFeeds) (check : GroupFeedItem → Bool) :
    ((g.acceptedGroups check).map fun m => m.front.mergeKey).Perm (acceptedKeys check g.feeds) := by
  obtain ⟨hnodup, hkeys⟩ := keys_gather GroupFeedItem.mergeKey GroupFeeds.joins g.feeds
  have hnodup' : ((g.acceptedGroups check).map fun m => m.front.mergeKey).Nodup := by
    have hperm := (List.reverse_perm _).trans (orderByTime_spec g.mergeFeed).1
    have hall := (hperm.map fun m => m.front.mergeKey).nodup_iff.mpr hnodup
    exact hall.sublist (List.filter_sublist.map _)
  refine (List.perm_ext_iff_of_nodup hnodup' ((List.nodup_dedup _).filter _)).mpr fun k => ?_
  rw [List.mem_filter, List.mem_dedup, ← hkeys, List.mem_map, List.mem_map]
  constructor
  · rintro ⟨m, hm, rfl⟩
    obtain ⟨hm, hcheck⟩ := mem_acceptedGroups.mp hm
    exact ⟨⟨m, hm, rfl⟩, by rw [(mergeFeed_spec hm).2]; exact hcheck⟩
  · rintro ⟨⟨m, hm, rfl⟩, hcheck⟩
    rw [(mergeFeed_spec hm).2] at hcheck
    exact ⟨m, mem_acceptedGroups.mpr ⟨hm, hcheck⟩, rfl⟩

/-! ## Runs -/

/-- **main result**: in every run the list is sorted, the newest feed first, and a refresh changes
no other feed; and the pages cut into pieces of `limit` one list of the accepted groups, ordered by
their newest feeds, each with what is kept of its feeds in list order. -/
theorem pages_partition (ops : List FeedsOp)
    (h : StepsMeet FeedsOp.step (fun g op => op.Ordered g) .new ops) :
    NewestFirst (runOps FeedsOp.step .new ops).feeds ∧
      (∀ feedId timestamp, RefreshesOnly feedId timestamp (runOps FeedsOp.step .new ops).feeds
        ((runOps FeedsOp.step .new ops).refreshFeedItem feedId timestamp).feeds) ∧
      (∀ k item, newest (runOps FeedsOp.step .new ops).feeds k = some item →
        ∀ e ∈ mergeGroup k (runOps FeedsOp.step .new ops).feeds, e.time ≤ item.time) ∧
      (∀ k type, (∀ e ∈ mergeGroup k (runOps FeedsOp.step .new ops).feeds, e.miniMergeType = type) →
        kept GroupFeeds.joins (mergeGroup k (runOps FeedsOp.step .new ops).feeds) =
          newestOfType type (mergeGroup k (runOps FeedsOp.step .new ops).feeds)) ∧
      ∀ (check : GroupFeedItem → Bool) (limit : ℕ), ∃ ks : List (ℕ × ℤ),
        ks.Perm (acceptedKeys check (runOps FeedsOp.step .new ops).feeds) ∧
        (ks.Pairwise fun k k' => ∀ e ∈ newest (runOps FeedsOp.step .new ops).feeds k,
          ∀ e' ∈ newest (runOps FeedsOp.step .new ops).feeds k', e'.time ≤ e.time) ∧
        ∀ n, (runOps FeedsOp.step .new ops).pages check limit n =
          (ks.take (n * limit)).map fun k =>
            [kept GroupFeeds.joins (mergeGroup k (runOps FeedsOp.step .new ops).feeds)] := by
  have hsorted : NewestFirst (runOps FeedsOp.step .new ops).feeds :=
    @run_invariant _ _ FeedsOp.step (fun g op => op.Ordered g) (fun g => NewestFirst g.feeds)
      (fun _ _ hs hop => hs.step hop) GroupFeeds.new List.Pairwise.nil ops h
  generalize runOps FeedsOp.step .new ops = g at hsorted
  refine ⟨hsorted, refreshesOnly g, fun k item hnew => hsorted.newest_le hnew,
    fun k type htype => kept_of_type htype, fun check limit => ?_⟩
  refine ⟨(g.acceptedGroups check).map fun m => m.front.mergeKey, acceptedGroups_perm g check, ?_,
    fun n => ?_⟩
  · rw [List.pairwise_map]
    have horder : (g.acceptedGroups check).Pairwise fun m m' => m'.front.time ≤ m.front.time :=
      (List.pairwise_reverse.mpr (orderByTime_spec g.mergeFeed).2).filter _
    refine horder.imp_of_mem fun hm hm' hle e he e' he' => ?_
    rw [(mergeFeed_spec (mem_acceptedGroups.mp hm).1).2, Option.mem_some_iff] at he
    rw [(mergeFeed_spec (mem_acceptedGroups.mp hm').1).2, Option.mem_some_iff] at he'
    rw [← he, ← he']
    exact hle
  · rw [pages_eq, ← List.map_take, List.map_map]
    refine List.map_congr_left fun m hm => ?_
    rw [(mergeFeed_spec (mem_acceptedGroups.mp (List.take_subset _ _ hm)).1).1]
    rfl

/-- Three feeds of one key: one to append, one to replace, and one of neither type. -/
def mixedOps : List FeedsOp :=
  [.addFeedItem ⟨3, 1, 2 ^ 29, 30, 0⟩, .addFeedItem ⟨2, 1, 2 ^ 28, 20, 0⟩, .addFeedItem ⟨1, 1, 0, 10, 0⟩]

/-- Their times descend. -/
theorem pages_partition_mixed :
    NewestFirst (runOps FeedsOp.step .new mixedOps).feeds :=
  (pages_partition mixedOps (by decide)).1

/-- Each accepted group holds as many of its newest feeds as the type of one of them says. -/
def HeldByType (g : GroupFeeds) (check : GroupFeedItem → Bool) (limit : ℕ) : Prop :=
  ∀ k ∈ acceptedKeys check g.feeds, ∃ e ∈ mergeGroup k g.feeds,
    [newestOfType e.miniMergeType (mergeGroup k g.feeds)] ∈ g.getFeed check 0 limit

instance (g : GroupFeeds) (check : GroupFeedItem → Bool) (limit : ℕ) :
    Decidable (HeldByType g check limit) := inferInstanceAs (Decidable (∀ _ ∈ _, _))

/-- The second is left out for its own type, and the third, which is older, is not. -/
theorem newer_left_out : ¬ HeldByType (runOps FeedsOp.step .new mixedOps) (fun _ => true) 20 := by
  decide

end Oce.FeedGroup
