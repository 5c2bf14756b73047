import Oce.FeedGroup.Model.Group

/-!
# Adjusted counts against counting

`unread` counts what a member has not read; a member is in step (`InStep`) when its count is
not made yet or is that number. For each operation a lemma says exactly when it keeps a member
in step:

* **add**: a count that is made goes up by one, which is right for another's feed; one that is
  not made goes up as well, to zero, and passes for made from then on;
* **remove**: the count goes down for every feed newer than the last read, own feeds too;
* **read all**, **remove all**: always.

The feeds of a group are in descending order of ids (`Group.Ordered`), by which the walk of
`CountUnread` may stop at the first feed that has been read.
-/

set_option autoImplicit false

namespace Oce.FeedGroup

open Oce.Base

variable {g : Group} {m maxRead : ℤ} {u : UnreadCount} {item : GroupFeedItem}
  {l : List GroupFeedItem}

/-! ## Counting -/

/-- A feed of another that is newer than the last read. -/
def Newer (maxRead m : ℤ) (e : GroupFeedItem) : Prop := maxRead < e.id ∧ e.actor ≠ m

instance : DecidablePred (Newer maxRead m) := fun _ => inferInstanceAs (Decidable (_ ∧ _))

/-- The feeds that a member has not read; after a last read of -1 there are none. -/
def unread (maxRead m : ℤ) (l : List GroupFeedItem) : ℕ :=
  if maxRead ≤ 0 then 0 else l.countP (Newer maxRead m)

/-- Descending ids, none above `maxFeed`. -/
structure Group.Ordered (g : Group) : Prop where
  desc : g.feeds.feeds.Pairwise fun e e' => e'.id < e.id
  le_max : ∀ e ∈ g.feeds.feeds, e.id ≤ g.feeds.maxFeed

/-- The count is not made yet, or is the number of unread feeds. -/
def InStep (u : UnreadCount) (m : ℤ) (l : List GroupFeedItem) : Prop :=
  u.count < 0 ∨ u.count = unread u.maxReadFeed m l

theorem countP_newer_eq_zero (h : ∀ e ∈ l, e.id ≤ maxRead) : l.countP (Newer maxRead m) = 0 := by
  apply List.countP_eq_zero.mpr
  intro e he hn
  exact absurd (of_decide_eq_true hn).1 (not_lt.mpr (h e he))

/-- The walk counts all the feeds that are newer. -/
theorem countLoop_eq (h : l.Pairwise fun e e' => e'.id < e.id) :
    GroupFeeds.countLoop maxRead m l = l.countP (Newer maxRead m) := by
  induction l with
  | nil => rfl
  | cons e l ih =>
      obtain ⟨he, hl⟩ := List.pairwise_cons.mp h
      rw [GroupFeeds.countLoop, List.countP_cons, ih hl]
      by_cases hread : e.id ≤ maxRead
      · -- everything behind has been read as well
        have hzero : l.countP (Newer maxRead m) = 0 :=
          countP_newer_eq_zero fun e' he' => (he e' he').le.trans hread
        have hnot : ¬ Newer maxRead m e := fun hn => absurd hn.1 (not_lt.mpr hread)
        simp [hread, hzero, hnot]
      · by_cases hactor : e.actor = m
        · have hnot : ¬ Newer maxRead m e := fun hn => hn.2 hactor
          simp [hread, hactor, hnot]
        · have hnewer : Newer maxRead m e := ⟨not_le.mp hread, hactor⟩
          simp [hread, hactor, hnewer]

/-! ## Adding -/

theorem insertByTime_front (h : ∀ e ∈ l, e.time ≤ item.time) :
    GroupFeeds.insertByTime item l = item :: l := by
  cases l with
  | nil => rfl
  | cons e l => rw [GroupFeeds.insertByTime, if_pos (h e (by simp))]

/-- The feed is newer than all that have been, by its id and by its time. -/
def Increasing (g : Group) (item : GroupFeedItem) : Prop :=
  g.feeds.maxFeed < item.id ∧ ∀ e ∈ g.feeds.feeds, e.time ≤ item.time

theorem feeds_addFeed (h : Increasing g item) : (g.addFeed item).feeds.feeds = item :: g.feeds.feeds :=
  insertByTime_front h.2

theorem ordered_addFeed (hg : g.Ordered) (h : Increasing g item) : (g.addFeed item).Ordered where
  desc := by
    rw [feeds_addFeed h]
    exact List.pairwise_cons.mpr ⟨fun e he => (hg.le_max e he).trans_lt h.1, hg.desc⟩
  le_max e he := by
    rw [feeds_addFeed h] at he
    rcases List.mem_cons.mp he with rfl | he
    · exact le_max_right _ _
    · exact (hg.le_max e he).trans (le_max_left _ _)

/-- The member takes no notice of the feed, or has its count made and the feed is another's, or
has nothing unread and the feed is its own. -/
def UnreadCount.AddFits (u : UnreadCount) (m : ℤ) (l : List GroupFeedItem) (item : GroupFeedItem) :
    Prop :=
  (0 < u.maxReadFeed ∧ item.id ≤ u.maxReadFeed) ∨ (0 ≤ u.count ∧ item.actor ≠ m ∧ 1 < item.id) ∨
    (u.count < 0 ∧ item.actor = m ∧ unread u.maxReadFeed m l = 0)

instance : Decidable (Increasing g item) := inferInstanceAs (Decidable (_ ∧ _))

instance : Decidable (u.AddFits m l item) := inferInstanceAs (Decidable (_ ∨ _))

theorem unread_cons_newer (hpos : 0 < maxRead) (h : Newer maxRead m item) :
    unread maxRead m (item :: l) = unread maxRead m l + 1 := by
  unfold unread
  rw [if_neg (not_le.mpr hpos), if_neg (not_le.mpr hpos), List.countP_cons_of_pos (by simpa using h)]

theorem unread_cons_other (h : ¬ Newer maxRead m item) :
    unread maxRead m (item :: l) = unread maxRead m l := by
  unfold unread
  rw [List.countP_cons_of_neg (by simpa using h)]

/-- The first feed of another after all has been read. -/
theorem unread_first (hl : ∀ e ∈ l, e.id < item.id) (hother : item.actor ≠ m) (hone : 1 < item.id) :
    unread (item.id - 1) m (item :: l) = 1 := by
  have hzero : l.countP (Newer (item.id - 1) m) = 0 :=
    countP_newer_eq_zero fun e he => by have := hl e he; omega
  rw [unread_cons_newer (by omega) ⟨by omega, hother⟩]
  unfold unread
  rw [hzero, ite_self]

/-- A new feed is counted once. -/
theorem inStep_addFeed (hu : InStep u m l) (hcount : -1 ≤ u.count)
    (hl : ∀ e ∈ l, e.id < item.id) (hfits : u.AddFits m l item) :
    InStep (u.addFeed item m) m (item :: l) := by
  unfold UnreadCount.addFeed InStep at *
  dsimp only
  by_cases hread : 0 < u.maxReadFeed ∧ item.id ≤ u.maxReadFeed
  · -- read ahead of the feed
    have hnot : ¬ Newer u.maxReadFeed m item := fun hn => absurd hn.1 (not_lt.mpr hread.2)
    rw [if_neg (by omega), if_neg (by omega), unread_cons_other hnot]
    exact hu
  have hbump : u.maxReadFeed ≤ 0 ∨ u.maxReadFeed < item.id := by omega
  rw [if_pos hbump]
  rcases hfits.resolve_left hread with ⟨hmade, hother, hone⟩ | ⟨hlazy, hown, hnone⟩
  · have heq := hu.resolve_left (by omega)
    by_cases hpos : 0 < u.maxReadFeed
    · rw [if_neg (by omega), unread_cons_newer hpos ⟨by omega, hother⟩]
      omega
    · have hunread : unread u.maxReadFeed m l = 0 := if_pos (not_lt.mp hpos)
      rw [if_pos ⟨not_lt.mp hpos, hother⟩, unread_first hl hother hone]
      omega
  · have hnot : ¬ Newer u.maxReadFeed m item := fun hn => hn.2 hown
    rw [if_neg fun h => h.2 hown, unread_cons_other hnot]
    omega

/-- **An add keeps a member in step exactly when it fits.** -/
theorem inStep_addFeed_iff (hu : InStep u m l) (hcount : -1 ≤ u.count)
    (hl : ∀ e ∈ l, e.id < item.id) (hone : 1 < item.id) :
    InStep (u.addFeed item m) m (item :: l) ↔ u.AddFits m l item := by
  refine ⟨fun h => ?_, inStep_addFeed hu hcount hl⟩
  by_contra hfits
  unfold UnreadCount.AddFits at hfits
  unfold UnreadCount.addFeed InStep at *
  dsimp only at h
  simp only [not_or, not_and] at hfits
  obtain ⟨hread, hmade, hlazy⟩ := hfits
  have hbump : u.maxReadFeed ≤ 0 ∨ u.maxReadFeed < item.id := by omega
  rw [if_pos hbump] at h
  by_cases hown : item.actor = m
  · have hnot : ¬ Newer u.maxReadFeed m item := fun hn => hn.2 hown
    rw [if_neg fun h => h.2 hown, unread_cons_other hnot] at h
    have := fun hc => hlazy hc hown
    omega
  · by_cases hpos : 0 < u.maxReadFeed
    · rw [if_neg (by omega), unread_cons_newer hpos ⟨by omega, hown⟩] at h
      have := fun hc => hmade hc hown
      omega
    · rw [if_pos ⟨not_lt.mp hpos, hown⟩, unread_first hl hown hone] at h
      have := fun hc => hmade hc hown
      omega

/-! ## Removing -/

/-- The count goes down with each removed feed that is newer than the last read, to zero. -/
theorem foldl_removeFeed (removed : List GroupFeedItem) (u : UnreadCount) :
    removed.foldl (fun u e => u.removeFeed e.id) u =
      { u with count :=
          if u.count < 0 then u.count
          else max 0 (u.count - removed.countP fun e => u.maxReadFeed < e.id) } := by
  induction removed generalizing u with
  | nil =>
      rw [List.foldl_nil, List.countP_nil]
      have : (if u.count < 0 then u.count else max 0 (u.count - (0 : ℕ))) = u.count := by
        split_ifs <;> omega
      rw [this]
  | cons e l ih =>
      rw [List.foldl_cons, ih]
      unfold UnreadCount.removeFeed
      dsimp only
      congr 1
      by_cases hnewer : u.maxReadFeed < e.id
      · rw [List.countP_cons_of_pos (by simpa using hnewer)]
        push_cast
        split_ifs <;> omega
      · rw [List.countP_cons_of_neg (by simpa using hnewer)]
        simp only [hnewer, false_and, if_false]

/-- No own feed goes that is newer than the last read, or all that is unread goes with it. -/
def UnreadCount.RemoveFits (u : UnreadCount) (m : ℤ) (l : List GroupFeedItem)
    (p : GroupFeedItem → Bool) : Prop :=
  u.count ≤ 0 ∨ (∀ e ∈ l, p e → u.maxReadFeed < e.id → e.actor ≠ m) ∨
    ∀ e ∈ l, Newer u.maxReadFeed m e → p e

instance {p : GroupFeedItem → Bool} : Decidable (u.RemoveFits m l p) :=
  inferInstanceAs (Decidable (_ ∨ _))

/-- The newer feeds that are removed are the own ones and those that count as unread. -/
theorem countP_removed (maxRead m : ℤ) (p : GroupFeedItem → Bool) (l : List GroupFeedItem) :
    ((l.filter p).countP fun e => maxRead < e.id) =
      (l.filter p).countP (Newer maxRead m) +
        (l.filter p).countP fun e => maxRead < e.id ∧ e.actor = m := by
  induction l.filter p with
  | nil => rfl
  | cons e l ih =>
      rw [List.countP_cons, List.countP_cons, List.countP_cons, ih]
      by_cases hid : maxRead < e.id <;> by_cases hactor : e.actor = m <;>
        simp [Newer, hid, hactor] <;> omega

theorem countP_kept (maxRead m : ℤ) (p : GroupFeedItem → Bool) (l : List GroupFeedItem) :
    l.countP (Newer maxRead m) =
      (l.filter p).countP (Newer maxRead m) + (l.filter fun e => ¬ p e).countP (Newer maxRead m) := by
  simpa using List.countP_eq_countP_filter_add l (fun e => decide (Newer maxRead m e)) p

/-- **A removal keeps a member in step exactly when it fits.** -/
theorem inStep_removeItems_iff (hu : InStep u m l) (p : GroupFeedItem → Bool) :
    InStep ((l.filter p).foldl (fun u e => u.removeFeed e.id) u) m (l.filter fun e => ¬ p e) ↔
      u.RemoveFits m l p := by
  rw [foldl_removeFeed]
  unfold InStep at *
  unfold UnreadCount.RemoveFits
  dsimp only
  by_cases hlazy : u.count < 0
  · rw [if_pos hlazy]
    exact iff_of_true (.inl hlazy) (.inl hlazy.le)
  have heq := hu.resolve_left hlazy
  rw [if_neg hlazy]
  by_cases hpos : u.maxReadFeed ≤ 0
  · have hzero : ∀ l, unread u.maxReadFeed m l = 0 := fun l => if_pos hpos
    rw [hzero] at heq ⊢
    exact iff_of_true (.inr (by omega)) (.inl (by omega))
  · have hunread : ∀ l, unread u.maxReadFeed m l = l.countP (Newer u.maxReadFeed m) :=
      fun l => if_neg hpos
    have hremoved := countP_removed u.maxReadFeed m p l
    have hkept := countP_kept u.maxReadFeed m p l
    rw [hunread, hkept] at heq
    rw [hunread, heq, hremoved]
    have hown : ((l.filter p).countP fun e => u.maxReadFeed < e.id ∧ e.actor = m) = 0 ↔
        ∀ e ∈ l, p e → u.maxReadFeed < e.id → e.actor ≠ m := by
      rw [List.countP_eq_zero]
      simp only [List.mem_filter, and_imp, decide_eq_true_eq, not_and, ne_eq]
    have hleft : (l.filter fun e => ¬ p e).countP (Newer u.maxReadFeed m) = 0 ↔
        ∀ e ∈ l, Newer u.maxReadFeed m e → p e := by
      rw [List.countP_eq_zero]
      simp only [List.mem_filter, and_imp, decide_eq_true_eq]
      exact forall₂_congr fun e _ => not_imp_not
    rw [← hown, ← hleft]
    omega

/-! ## Asking -/

/-- The last feed is the oldest. -/
theorem last_le_iff (maxRead : ℤ) (h : l.Pairwise fun e e' => e'.id < e.id) {back : GroupFeedItem}
    (hback : l.getLast? = some back) : back.id ≤ maxRead ↔ ∃ e ∈ l, e.id ≤ maxRead := by
  obtain ⟨front, rfl⟩ := List.getLast?_eq_some_iff.mp hback
  refine ⟨fun hle => ⟨back, by simp, hle⟩, ?_⟩
  rintro ⟨e, he, hle⟩
  rcases List.mem_append.mp he with he | he
  · have := (List.pairwise_append.mp h).2.2 e he back (by simp)
    omega
  · rw [List.mem_singleton] at he
    rwa [← he]

theorem countUnread_eq (hg : g.Ordered) (hpos : 0 < maxRead) (hne : g.feeds.feeds ≠ []) :
    g.countUnread maxRead m = some (if ∃ e ∈ g.feeds.feeds, e.id ≤ maxRead
      then unread maxRead m g.feeds.feeds else min 105 (unread maxRead m g.feeds.feeds)) := by
  have hunread : unread maxRead m g.feeds.feeds = g.feeds.feeds.countP (Newer maxRead m) :=
    if_neg (not_le.mpr hpos)
  have hlast := List.getLast?_eq_getLast_of_ne_nil hne
  have hiff := last_le_iff maxRead hg.desc hlast
  unfold Group.countUnread GroupFeeds.countUnread
  rw [if_neg (not_le.mpr hpos), hlast]
  dsimp only
  by_cases hback : (g.feeds.feeds.getLast hne).id ≤ maxRead
  · rw [if_neg (not_lt.mpr hback), if_pos (hiff.mp hback), hunread, countLoop_eq hg.desc]
  · rw [if_pos (not_le.mp hback), if_neg fun h => hback (hiff.mpr h), hunread]
    rfl

/-- The count of a member is made, or can be: not on an empty list, and with all the unread
feeds in reach, in memory or by the limit of the query. -/
def Group.Reaches (g : Group) (m : ℤ) (u : UnreadCount) : Prop :=
  0 ≤ u.count ∨ u.maxReadFeed ≤ 0 ∨ (g.feeds.feeds ≠ [] ∧
    ((∃ e ∈ g.feeds.feeds, e.id ≤ u.maxReadFeed) ∨ unread u.maxReadFeed m g.feeds.feeds ≤ 105))

instance : Decidable (g.Reaches m u) := inferInstanceAs (Decidable (_ ∨ _))

/-- **The answer to a member in step is its number of unread feeds exactly when they can be
reached.** -/
theorem getUnreadCount_iff (hg : g.Ordered) (hfind : g.members.find m = some u)
    (hu : InStep u m g.feeds.feeds) :
    (g.getUnreadCount m).1 = some ((unread u.maxReadFeed m g.feeds.feeds : ℤ), u.replyCnt) ↔
      g.Reaches m u := by
  unfold Group.getUnreadCount Group.Reaches
  rw [hfind]
  dsimp only
  by_cases hmade : 0 ≤ u.count
  · rw [if_pos hmade, hu.resolve_left (not_lt.mpr hmade)]
    exact iff_of_true rfl (.inl (by omega))
  rw [if_neg hmade]
  by_cases hpos : u.maxReadFeed ≤ 0
  · have hcount : g.countUnread u.maxReadFeed m = some 0 := if_pos hpos
    rw [hcount, show unread u.maxReadFeed m g.feeds.feeds = 0 from if_pos hpos]
    exact iff_of_true rfl (.inr (.inl hpos))
  by_cases hne : g.feeds.feeds = []
  · have hcount : g.countUnread u.maxReadFeed m = none := by
      unfold Group.countUnread GroupFeeds.countUnread
      rw [if_neg hpos, hne]
      rfl
    rw [hcount]
    exact iff_of_false nofun (by simp [hmade, hpos, hne])
  · rw [countUnread_eq hg (not_le.mp hpos) hne]
    simp only [hmade, hpos, hne, false_or, ne_eq, not_false_eq_true, true_and, Option.some.injEq,
      Prod.mk.injEq, and_true, Int.natCast_inj]
    split_ifs with hreach
    · exact iff_of_true rfl (.inl hreach)
    · rw [or_iff_right hreach]
      omega

/-- What asking leaves of a member in step. -/
theorem find_getUnreadCount (hfind : (g.getUnreadCount m).2.members.find m = some u) :
    g.members.find m = some u ∨ ∃ u' count, g.members.find m = some u' ∧
      (g.getUnreadCount m).1 = some (count, u'.replyCnt) ∧ u = { u' with count := count } := by
  unfold Group.getUnreadCount at *
  cases hm : g.members.find m with
  | none =>
      rw [hm] at hfind
      exact .inl (hm.symm.trans hfind)
  | some u' =>
      rw [hm] at hfind
      dsimp only at *
      split_ifs at hfind ⊢ with hmade
      · exact .inl (hm.symm.trans hfind)
      · cases hcount : g.countUnread u'.maxReadFeed m with
        | none =>
            rw [hcount] at hfind
            exact .inl (hm.symm.trans hfind)
        | some count =>
            rw [hcount] at hfind
            dsimp only at hfind
            rw [OrdMap.find_insert_self] at hfind
            exact .inr ⟨u', count, rfl, rfl, (Option.some.inj hfind).symm⟩

theorem frame_getUnreadCount (g : Group) (m' : ℤ) :
    (g.getUnreadCount m').2.feeds = g.feeds ∧
      ∀ m, m ≠ m' → (g.getUnreadCount m').2.members.find m = g.members.find m := by
  unfold Group.getUnreadCount
  split
  · exact ⟨rfl, fun _ _ => rfl⟩
  · split_ifs
    · exact ⟨rfl, fun _ _ => rfl⟩
    · split
      · exact ⟨rfl, fun _ _ => rfl⟩
      · exact ⟨rfl, fun m hm => OrdMap.find_insert_ne _ _ hm⟩

/-! ## The operations of a group -/

/-- The feeds in order, and the member in step. -/
structure Follows (m : ℤ) (g : Group) : Prop where
  ordered : g.Ordered
  inStep : ∀ u, g.members.find m = some u → -1 ≤ u.count ∧ InStep u m g.feeds.feeds

theorem follows_addFeed (h : Follows m g) (hinc : Increasing g item)
    (hfits : ∀ u, g.members.find m = some u → u.AddFits m g.feeds.feeds item) :
    Follows m (g.addFeed item) := by
  refine ⟨ordered_addFeed h.ordered hinc, fun u hfind => ?_⟩
  unfold Group.addFeed at hfind
  dsimp only at hfind
  rw [OrdMap.find_map] at hfind
  obtain ⟨u', hu', rfl⟩ := Option.map_eq_some_iff.mp hfind
  obtain ⟨hcount, hstep⟩ := h.inStep u' hu'
  rw [feeds_addFeed hinc]
  refine ⟨?_, inStep_addFeed hstep hcount
    (fun e he => (h.ordered.le_max e he).trans_lt hinc.1) (hfits u' hu')⟩
  unfold UnreadCount.addFeed
  dsimp only
  split_ifs <;> omega

/-- The feeds that `RemoveById` takes out. -/
def GroupFeeds.mergesById (g : GroupFeeds) (feedId : ℤ) : GroupFeedItem → Bool :=
  match g.feeds.find? fun e => e.id = feedId with
  | some e => merges e.smallType e.merge
  | none => merges 0 0

theorem removeById_eq (g : GroupFeeds) (feedId : ℤ) :
    g.removeById feedId = (g.feeds.filter (g.mergesById feedId),
      { g with feeds := g.feeds.filter fun e => ¬ g.mergesById feedId e }) := by
  unfold GroupFeeds.removeById GroupFeeds.mergesById
  cases g.feeds.find? fun e => e.id = feedId <;> rfl

theorem find_foldl_removeFeed (removed : List GroupFeedItem) (members : OrdMap ℤ UnreadCount) :
    (removed.foldl (fun members e => members.map fun _ => UnreadCount.removeFeed e.id) members).find m =
      (members.find m).map fun u => removed.foldl (fun u e => u.removeFeed e.id) u := by
  induction removed generalizing members with
  | nil => simp
  | cons e l ih =>
      rw [List.foldl_cons, ih, OrdMap.find_map, Option.map_map]
      rfl

theorem follows_removeItems (h : Follows m g) (p : GroupFeedItem → Bool)
    (hfits : ∀ u, g.members.find m = some u → u.RemoveFits m g.feeds.feeds p) :
    Follows m (g.removeItems (g.feeds.feeds.filter p,
      { g.feeds with feeds := g.feeds.feeds.filter fun e => ¬ p e })) := by
  unfold Group.removeItems
  refine ⟨⟨h.ordered.desc.sublist List.filter_sublist,
    fun e he => h.ordered.le_max e (List.mem_filter.mp he).1⟩, fun u hfind => ?_⟩
  dsimp only at *
  rw [find_foldl_removeFeed] at hfind
  obtain ⟨u', hu', rfl⟩ := Option.map_eq_some_iff.mp hfind
  obtain ⟨hcount, hstep⟩ := h.inStep u' hu'
  refine ⟨?_, (inStep_removeItems_iff hstep p).mpr (hfits u' hu')⟩
  rw [foldl_removeFeed]
  dsimp only
  split_ifs <;> omega

theorem follows_removeAllFeed (m : ℤ) (g : Group) : Follows m g.removeAllFeed := by
  refine ⟨⟨List.Pairwise.nil, fun e he => absurd he List.not_mem_nil⟩, fun u hfind => ?_⟩
  unfold Group.removeAllFeed at hfind
  dsimp only at hfind
  rw [OrdMap.find_map] at hfind
  obtain ⟨u', -, rfl⟩ := Option.map_eq_some_iff.mp hfind
  exact ⟨by simp [UnreadCount.removeAllFeed], .inr rfl⟩

theorem follows_readAllFeed (h : Follows m g) (m' : ℤ) : Follows m (g.readAllFeed m') := by
  unfold Group.readAllFeed
  cases hm : g.members.find m' with
  | none => exact h
  | some u' =>
      refine ⟨⟨h.ordered.desc, h.ordered.le_max⟩, fun u hfind => ?_⟩
      dsimp only at hfind ⊢
      rw [OrdMap.find_insert] at hfind
      split_ifs at hfind
      · obtain rfl := Option.some.inj hfind
        have hzero : unread g.feeds.maxFeed m g.feeds.feeds = 0 := by
          unfold unread
          rw [countP_newer_eq_zero h.ordered.le_max, ite_self]
        exact ⟨by simp [UnreadCount.readAllFeed], .inr (by simp [UnreadCount.readAllFeed, hzero])⟩
      · exact h.inStep u hfind

theorem follows_getUnreadCount (h : Follows m g) (m' : ℤ)
    (hreach : ∀ u, m = m' → g.members.find m = some u → g.Reaches m u) :
    Follows m (g.getUnreadCount m').2 := by
  obtain ⟨hfeeds, hother⟩ := frame_getUnreadCount g m'
  refine ⟨⟨by rw [hfeeds]; exact h.ordered.desc, by rw [hfeeds]; exact h.ordered.le_max⟩,
    fun u hfind => ?_⟩
  rw [hfeeds]
  by_cases hm : m = m'
  · subst hm
    rcases find_getUnreadCount hfind with hsame | ⟨u', count, hu', hanswer, rfl⟩
    · exact h.inStep u hsame
    · have hright := (getUnreadCount_iff h.ordered hu' (h.inStep u' hu').2).mpr (hreach u' rfl hu')
      rw [hanswer] at hright
      simp only [Option.some.injEq, Prod.mk.injEq, and_true] at hright
      exact ⟨by dsimp only; omega, .inr hright⟩
  · rw [hother m hm] at hfind
    exact h.inStep u hfind

/-! ## Runs -/

/-- Asking a member is defined: its count is made, all is read, or there are feeds. -/
def Group.Defined (g : Group) (u : UnreadCount) : Prop :=
  0 ≤ u.count ∨ u.maxReadFeed ≤ 0 ∨ g.feeds.feeds ≠ []

instance : Decidable (g.Defined u) := inferInstanceAs (Decidable (_ ∨ _))

/-- What an operation must find for the member's count to stay right. -/
def GroupOp.Fits (m : ℤ) (g : Group) : GroupOp → Prop
  | .addFeed item =>
    Increasing g item ∧ ∀ u, g.members.find m = some u → u.AddFits m g.feeds.feeds item
  | .removeFeed stype merge =>
    ∀ u, g.members.find m = some u → u.RemoveFits m g.feeds.feeds (GroupFeeds.merges stype merge)
  | .removeFeedById feedId =>
    ∀ u, g.members.find m = some u → u.RemoveFits m g.feeds.feeds (g.feeds.mergesById feedId)
  | .removeAllFeed => True
  | .readAllFeed _ => True
  | .getUnreadCount m' =>
    ∀ u, g.members.find m' = some u → g.Defined u ∧ (m = m' → g.Reaches m u)

instance decidableFits (m : ℤ) (g : Group) : ∀ a : GroupOp, Decidable (a.Fits m g)
  | .addFeed item => inferInstanceAs
      (Decidable (_ ∧ ∀ u ∈ g.members.find m, u.AddFits m g.feeds.feeds item))
  | .removeFeed stype merge => inferInstanceAs
      (Decidable (∀ u ∈ g.members.find m,
        u.RemoveFits m g.feeds.feeds (GroupFeeds.merges stype merge)))
  | .removeFeedById feedId => inferInstanceAs
      (Decidable (∀ u ∈ g.members.find m, u.RemoveFits m g.feeds.feeds (g.feeds.mergesById feedId)))
  | .removeAllFeed => .isTrue trivial
  | .readAllFeed _ => .isTrue trivial
  | .getUnreadCount m' => inferInstanceAs
      (Decidable (∀ u ∈ g.members.find m', g.Defined u ∧ (m = m' → g.Reaches m u)))

/-- **The step lemma.** -/
theorem follows_step (g : Group) (a : GroupOp) (h : Follows m g) (ha : a.Fits m g) :
    Follows m (a.step g) := by
  cases a with
  | addFeed item => exact follows_addFeed h ha.1 ha.2
  | removeFeed stype merge => exact follows_removeItems h _ ha
  | removeFeedById feedId =>
      unfold GroupOp.step Group.removeFeedById
      dsimp only
      rw [removeById_eq]
      exact follows_removeItems h _ ha
  | removeAllFeed => exact follows_removeAllFeed m g
  | readAllFeed m' => exact follows_readAllFeed h m'
  | getUnreadCount m' =>
      refine follows_getUnreadCount h m' fun u hm hu => ?_
      subst hm
      exact (ha u hu).2 rfl

theorem feeds_load (items : List GroupFeedItem) (g : GroupFeeds) :
    let g' := items.foldl GroupFeeds.addFeedItem g
    g'.feeds = g.feeds ++ items ∧ g.maxFeed ≤ g'.maxFeed ∧ ∀ e ∈ items, e.id ≤ g'.maxFeed := by
  induction items generalizing g with
  | nil => simp
  | cons e l ih =>
      obtain ⟨hfeeds, hmax, hall⟩ := ih (g.addFeedItem e)
      rw [List.foldl_cons]
      refine ⟨?_, (le_max_left _ _).trans hmax, ?_⟩
      · rw [hfeeds]
        unfold GroupFeeds.addFeedItem
        simp
      · intro e' he'
        rcases List.mem_cons.mp he' with rfl | he'
        · exact (le_max_right _ _).trans hmax
        · exact hall e' he'

theorem count_load (rows : List (ℤ × ℤ × ℤ)) (members : OrdMap ℤ UnreadCount)
    (h : ∀ m u, members.find m = some u → u.count = -1) (hfind : (rows.foldl Group.addMember members).find m = some u) :
    u.count = -1 := by
  induction rows generalizing members with
  | nil => exact h m u hfind
  | cons row l ih =>
      refine ih _ (fun m' u' hu' => ?_) hfind
      unfold Group.addMember at hu'
      split at hu'
      · exact h m' u' hu'
      · rw [OrdMap.find_insert] at hu'
        split_ifs at hu'
        · cases hu'
          rfl
        · exact h m' u' hu'

theorem follows_load {items : List GroupFeedItem} (h : items.Pairwise fun e e' => e'.id < e.id)
    (rows : List (ℤ × ℤ × ℤ)) : Follows m (.load items rows) := by
  obtain ⟨hfeeds, -, hmax⟩ := feeds_load items .new
  refine ⟨⟨?_, ?_⟩, fun u hu => ?_⟩
  · unfold Group.load
    rw [hfeeds]
    exact h
  · unfold Group.load
    rw [hfeeds]
    exact hmax
  · have hcount : u.count = -1 := count_load rows .empty (fun _ _ h => by cases h) hu
    exact ⟨by omega, .inl (by omega)⟩

/-- **In every run from a loaded group whose steps fit a member, the member is told how many
feeds there are that are newer than its last read and not its own, whenever they are in reach.** -/
theorem unread_counts_agree (m : ℤ) (items : List GroupFeedItem) (rows : List (ℤ × ℤ × ℤ))
    (hitems : items.Pairwise fun e e' => e'.id < e.id) (ops : List GroupOp)
    (h : StepsMeet GroupOp.step (GroupOp.Fits m) (.load items rows) ops) :
    let g := runOps GroupOp.step (.load items rows) ops
    ∀ u, g.members.find m = some u →
      ((g.getUnreadCount m).1 = some ((unread u.maxReadFeed m g.feeds.feeds : ℤ), u.replyCnt) ↔
        g.Reaches m u) := by
  intro g u hu
  have hfollows : Follows m g := run_invariant follows_step (follows_load hitems rows) h
  exact getUnreadCount_iff hfollows.ordered hu (hfollows.inStep u hu).2

/-! ## Sample runs -/

def sampleItem (id actor : ℤ) : GroupFeedItem := ⟨id, id, 701, id, actor⟩

/-- Member 7 has read up to feed 10, which is all there is. -/
def sampleGroup : Group := .load [sampleItem 10 8] [(7, 10, 0)]

/-- The member asks, another writes two feeds, and one of them goes. -/
def askedFirst : List GroupOp :=
  [.getUnreadCount 7, .addFeed (sampleItem 11 8), .addFeed (sampleItem 12 8), .removeFeed 701 11]

/-- Another writes a feed before the member has asked. -/
def askedLate : List GroupOp := [.addFeed (sampleItem 11 8)]

/-- The member asks, and writes a feed itself. -/
def ownFeed : List GroupOp := [.getUnreadCount 7, .addFeed (sampleItem 11 7)]

theorem unread_counts_agree_askedFirst :
    ((runOps GroupOp.step sampleGroup askedFirst).getUnreadCount 7).1 = some (1, 0) :=
  (unread_counts_agree 7 [sampleItem 10 8] [(7, 10, 0)] (List.pairwise_singleton _ _) askedFirst
    (by decide) ⟨1, 10, 0⟩ (by decide)).mpr
    (.inl (by decide))

/-- The late member is told of no feed where there is one, the writer of one where there is
none. -/
theorem unread_counts_differ :
    ((runOps GroupOp.step sampleGroup askedLate).getUnreadCount 7).1 = some (0, 0) ∧
      unread 10 7 (runOps GroupOp.step sampleGroup askedLate).feeds.feeds = 1 ∧
      ((runOps GroupOp.step sampleGroup ownFeed).getUnreadCount 7).1 = some (1, 0) ∧
      unread 10 7 (runOps GroupOp.step sampleGroup ownFeed).feeds.feeds = 0 := by
  decide

end Oce.FeedGroup
