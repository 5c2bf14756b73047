import Mathlib.Data.List.Count
import Oce.FeedInteraction.Model.Cache

/-!
# Where the counts of a feed are

`Holds s feed a b`: the feed has been given `a` clicks, `b` replies and no view, and the slot,
the dirty map and the table say so, each as far as it speaks of the feed. Putting a feed's own
item into its slot takes nothing from any other (`Others`), for a slot that comes to hold one
feed says nothing of the rest. `Accounts s q` adds the calls that are queued up.

Views break this: they spill into the replies that are answered, and are not read back from
the dirty map. So do counts that outgrow their bits.
-/

set_option autoImplicit false

namespace Oce.FeedInteraction

open Oce.Base

section Places

variable {s s' : Service} {feed g : ℤ} {a b type : ℕ} {d e : DbItem} {item : CacheItem}
/-! ## Packed counts -/

/-- Clicks and replies in one number, with no views. -/
def packed (a b : ℕ) : ℤ := a + b * 2 ^ 16

/-- The entry or row of a feed with these counts, and no views. -/
structure Counts (d : DbItem) (feed : ℤ) (a b : ℕ) : Prop where
  feed_eq : d.feed = feed
  clicks : d.clickCount = a
  replies : d.replyCount = b
  views : d.viewCount = 0

theorem itemOfDirty_count (h : Counts d feed a b) (ha : a < 2 ^ 16) (hb : b < 2 ^ 15) :
    (itemOfDirty d).count = packed a b := by
  unfold itemOfDirty toInt32 packed
  rw [h.clicks, h.replies]
  dsimp only
  rw [Int.bmod_def]
  split_ifs <;> omega

theorem itemOfRow_count (h : Counts d feed a b) (ha : a < 2 ^ 16) (hb : b < 2 ^ 16) :
    (itemOfRow d).count = packed a b := by
  have hor : b <<< 16 ||| a = b <<< 16 + a := (Nat.shiftLeft_add_eq_or_of_lt ha b).symm
  have hshift : b <<< 16 = b * 2 ^ 16 := Nat.shiftLeft_eq b 16
  have hnat : (BitVec.ofInt 64 (0 : ℤ) <<< 32 ||| BitVec.ofInt 64 (b : ℤ) <<< 16 |||
      BitVec.ofInt 64 (a : ℤ)).toNat = b * 2 ^ 16 + a := by
    simp only [BitVec.ofInt_natCast, BitVec.toNat_or, BitVec.toNat_shiftLeft, BitVec.toNat_ofNat]
    rw [Nat.mod_eq_of_lt (show a < 2 ^ 64 by omega), Nat.mod_eq_of_lt (show b < 2 ^ 64 by omega),
      Nat.mod_eq_of_lt (show b <<< 16 < 2 ^ 64 by omega)]
    have hzero : (BitVec.ofInt 64 (0 : ℤ)).toNat = 0 := by decide
    rw [hzero, Nat.zero_shiftLeft, Nat.zero_mod, Nat.zero_or, hor, hshift]
  unfold itemOfRow packed
  rw [h.clicks, h.replies, h.views]
  dsimp only
  rw [BitVec.toInt_eq_toNat_of_lt (by omega), hnat]
  omega

theorem counts_entryOf (hfeed : item.feed = feed) (h : item.count = packed a b) (ha : a < 2 ^ 16)
    (hb : b < 2 ^ 16) : Counts (entryOf item) feed a b := by
  unfold entryOf packed at *
  refine ⟨hfeed, ?_, ?_, ?_⟩
  · dsimp only
    omega
  · dsimp only
    omega
  · have hzero : item.count / 2 ^ 32 = 0 := by omega
    dsimp only
    rw [hzero]
    decide

theorem Counts.raise {a' b' : ℕ} (h : Counts d feed a b) (h' : Counts e feed a' b') (ha : a ≤ a')
    (hb : b ≤ b') : Counts (d.raise e) feed a' b' := by
  unfold DbItem.raise
  refine ⟨h.feed_eq, ?_, ?_, ?_⟩
  · dsimp only
    rw [h.clicks, h'.clicks]
    split_ifs <;> omega
  · dsimp only
    rw [h.replies, h'.replies]
    split_ifs <;> omega
  · dsimp only
    rw [h.views, h'.views, ite_self]

/-! ## Where they are -/

/-- The slot, the dirty map and the table have these counts of the feed. -/
structure Holds (s : Service) (feed : ℤ) (a b : ℕ) : Prop where
  slot : (s.slot feed).feed = feed → (s.slot feed).count = packed a b
  dirty : ∀ d, s.dirty feed = some d → Counts d feed a b
  row : s.dirty feed = none → ∃ d, s.table feed = some d ∧ Counts d feed a b
  rowFeed : ∀ d, s.table feed = some d → d.feed = feed

/-- There is nothing of the feed. -/
structure Absent (s : Service) (feed : ℤ) : Prop where
  slot : (s.slot feed).feed ≠ feed
  dirty : s.dirty feed = none
  table : s.table feed = none

theorem Holds.unique {a' b' : ℕ} (h : Holds s feed a b) (h' : Holds s feed a' b') : a = a' ∧ b = b' := by
  have hcounts : ∃ d, Counts d feed a b ∧ Counts d feed a' b' := by
    cases hd : s.dirty feed with
    | some d => exact ⟨d, h.dirty d hd, h'.dirty d hd⟩
    | none =>
        obtain ⟨d, hrow, hd1⟩ := h.row hd
        obtain ⟨d', hrow', hd2⟩ := h'.row hd
        rw [hrow] at hrow'
        cases hrow'
        exact ⟨d, hd1, hd2⟩
  obtain ⟨d, h1, h2⟩ := hcounts
  have := h1.clicks.symm.trans h2.clicks
  have := h1.replies.symm.trans h2.replies
  omega

theorem isHitted_iff : s.isHitted feed ↔ (s.slot feed).feed = feed := by
  unfold Service.isHitted
  rw [decide_eq_true_eq]
  exact eq_comm

theorem Absent.not_hitted (h : Absent s feed) : s.isHitted feed = false := by
  by_contra hhit
  rw [Bool.not_eq_false] at hhit
  exact h.slot (isHitted_iff.mp hhit)

theorem Absent.query (h : Absent s feed) : s.queryCacheItemFromDb feed = .new := by
  unfold Service.queryCacheItemFromDb
  rw [h.dirty, h.table]

/-- The feed's own item is found, with its counts unless they outgrow the dirty entry. -/
theorem Holds.query_feed (h : Holds s feed a b) : (s.queryCacheItemFromDb feed).feed = feed := by
  unfold Service.queryCacheItemFromDb
  cases hd : s.dirty feed with
  | some d => exact (h.dirty d hd).feed_eq
  | none =>
      obtain ⟨d, hrow, hd'⟩ := h.row hd
      rw [hrow]
      exact hd'.feed_eq

theorem Holds.query_count (h : Holds s feed a b) (ha : a < 2 ^ 16) (hb : b < 2 ^ 16)
    (hload : s.dirty feed = none ∨ b < 2 ^ 15) :
    (s.queryCacheItemFromDb feed).count = packed a b := by
  unfold Service.queryCacheItemFromDb
  cases hd : s.dirty feed with
  | some d => exact itemOfDirty_count (h.dirty d hd) ha (hload.resolve_left (by simp [hd]))
  | none =>
      obtain ⟨d, hrow, hd'⟩ := h.row hd
      rw [hrow]
      exact itemOfRow_count hd' ha hb

/-! ## Other feeds -/

/-- Nothing changes for the feeds other than `feed`, nor in what is queued and made. -/
structure Others (s s' : Service) (feed : ℤ) : Prop where
  holds : ∀ {g a b}, g ≠ feed → Holds s g a b → Holds s' g a b
  absent : ∀ {g}, g ≠ feed → Absent s g → Absent s' g
  made : s'.made = s.made
  clicks : s'.clicks = s.clicks
  replys : s'.replys = s.replys

theorem Others.refl (s : Service) (feed : ℤ) : Others s s feed :=
  ⟨fun _ h => h, fun _ h => h, rfl, rfl, rfl⟩

theorem Others.trans {s'' : Service} (h : Others s s' feed) (h' : Others s' s'' feed) :
    Others s s'' feed :=
  ⟨fun hg hh => h'.holds hg (h.holds hg hh), fun hg hh => h'.absent hg (h.absent hg hh),
    h'.made.trans h.made, h'.clicks.trans h.clicks, h'.replys.trans h.replys⟩

theorem slot_setSlot : (s.setSlot feed item).slot g =
    if getCacheIndex g = getCacheIndex feed then item else s.slot g :=
  Function.update_apply s.slots (getCacheIndex feed) item (getCacheIndex g)

@[simp] theorem slot_setSlot_self : (s.setSlot feed item).slot feed = item := by
  rw [slot_setSlot, if_pos rfl]

/-- A slot that comes to hold a feed says nothing of the others. -/
theorem others_setSlot (hitem : item.feed = feed) : Others s (s.setSlot feed item) feed where
  holds {g a b} hg h := by
    refine ⟨?_, h.dirty, h.row, h.rowFeed⟩
    rw [slot_setSlot]
    split_ifs
    · rw [hitem]
      exact fun heq => absurd heq.symm hg
    · exact h.slot
  absent {g} hg h := by
    refine ⟨?_, h.dirty, h.table⟩
    rw [slot_setSlot]
    split_ifs
    · rw [hitem]
      exact Ne.symm hg
    · exact h.slot
  made := rfl
  clicks := rfl
  replys := rfl

theorem holds_setSlot (h : Holds s feed a b) (hcount : item.count = packed a b) :
    Holds (s.setSlot feed item) feed a b :=
  ⟨fun _ => by rw [slot_setSlot_self]; exact hcount, h.dirty, h.row, h.rowFeed⟩

theorem others_setDirty (s : Service) (feed : ℤ) (d : DbItem) :
    Others s { s with dirty := Function.update s.dirty feed (some d) } feed where
  holds {g a b} hg h := by
    have hdirty : Function.update s.dirty feed (some d) g = s.dirty g := Function.update_of_ne hg _ _
    exact ⟨h.slot, fun d' hd => h.dirty d' (hdirty.symm.trans hd),
      fun hd => h.row (hdirty.symm.trans hd), h.rowFeed⟩
  absent {g} hg h := by
    have hdirty : Function.update s.dirty feed (some d) g = s.dirty g := Function.update_of_ne hg _ _
    exact ⟨h.slot, hdirty.trans h.dirty, h.table⟩
  made := rfl
  clicks := rfl
  replys := rfl

/-! ## One more call -/

/-- What a call does to the slot of its feed and to the dirty map. -/
def bump (s : Service) (feed : ℤ) (type : ℕ) : Service :=
  (s.updateCache feed type).markDirty feed ((s.updateCache feed type).slot feed)

/-- The counts after a call. -/
def clicksAfter (a type : ℕ) : ℕ := if type = 1 then a + 1 else a

def repliesAfter (b type : ℕ) : ℕ := if type = 2 then b + 1 else b

theorem others_bump (hslot : (s.slot feed).feed = feed) (type : ℕ) :
    Others s (bump s feed type) feed := by
  have hcache : Others s (s.updateCache feed type) feed := others_setSlot hslot
  exact hcache.trans (others_setDirty _ feed _)

/-- A slot counts one more. -/
theorem holds_bump (h : Holds s feed a b) (hslot : (s.slot feed).feed = feed)
    (ha : clicksAfter a type < 2 ^ 16) (hb : repliesAfter b type < 2 ^ 16) (htype : type ≠ 3) :
    Holds (bump s feed type) feed (clicksAfter a type) (repliesAfter b type) := by
  have hnew : (s.updateCache feed type).slot feed =
      { s.slot feed with count := packed (clicksAfter a type) (repliesAfter b type) } := by
    unfold Service.updateCache
    rw [slot_setSlot_self, h.slot hslot]
    congr 1
    unfold packed clicksAfter repliesAfter kReplyCountStep
    split_ifs <;> omega
  have hentry : Counts (entryOf ((s.updateCache feed type).slot feed)) feed (clicksAfter a type)
      (repliesAfter b type) := by
    rw [hnew]
    exact counts_entryOf hslot rfl ha hb
  have hdirty : ∃ d, (bump s feed type).dirty feed = some d ∧
      Counts d feed (clicksAfter a type) (repliesAfter b type) := by
    refine ⟨_, Function.update_self _ _ _, ?_⟩
    cases hold : (s.updateCache feed type).dirty feed with
    | none => exact hentry
    | some old =>
        refine (h.dirty old hold).raise hentry ?_ ?_
        · unfold clicksAfter
          split_ifs <;> omega
        · unfold repliesAfter
          split_ifs <;> omega
  obtain ⟨d, hfind, hcounts⟩ := hdirty
  refine ⟨fun _ => ?_, fun d' hd => ?_, fun hd => ?_, h.rowFeed⟩
  · change ((s.updateCache feed type).slot feed).count = _
    rw [hnew]
  · rw [hfind] at hd
    cases hd
    exact hcounts
  · rw [hfind] at hd
    cases hd

/-- A call that loads the feed, if it is not in its slot. -/
theorem update_loaded (type : ℕ) (h : Holds s feed a b) (hpos : 0 < feed)
    (ha : clicksAfter a type < 2 ^ 16) (hb : repliesAfter b type < 2 ^ 16) (hload : s.isHitted feed ∨ s.dirty feed = none ∨ b < 2 ^ 15)
    (htype : type ≠ 3) :
    Holds (s.updateFeedInteraction feed type true).2 feed (clicksAfter a type) (repliesAfter b type) ∧
      Others s (s.updateFeedInteraction feed type true).2 feed := by
  have ha' : a < 2 ^ 16 := by
    unfold clicksAfter at ha
    split_ifs at ha <;> omega
  have hb' : b < 2 ^ 16 := by
    unfold repliesAfter at hb
    split_ifs at hb <;> omega
  unfold Service.updateFeedInteraction
  by_cases hhit : s.isHitted feed
  · rw [if_pos hhit]
    have hslot := isHitted_iff.mp hhit
    exact ⟨holds_bump h hslot ha hb htype, others_bump hslot type⟩
  · have hfeed := h.query_feed
    have hcount := h.query_count ha' hb' (hload.resolve_left hhit)
    have hmiss : (s.slot feed).feed ≠ (s.queryCacheItemFromDb feed).feed := by
      rw [hfeed]
      exact fun heq => hhit (isHitted_iff.mpr heq)
    rw [if_neg hhit, if_pos rfl]
    dsimp only
    rw [if_neg (by omega), if_pos hmiss]
    have hslot : ((s.setSlot feed (s.queryCacheItemFromDb feed)).slot feed).feed = feed := by
      rw [slot_setSlot_self, hfeed]
    exact ⟨holds_bump (holds_setSlot h hcount) hslot ha hb htype,
      (others_setSlot hfeed).trans (others_bump hslot type)⟩

/-- A call for a feed that is not there. -/
theorem update_absent (h : Absent s feed) (load : Bool) :
    (s.updateFeedInteraction feed type load).2 = s := by
  unfold Service.updateFeedInteraction
  rw [if_neg (by simp [h.not_hitted])]
  cases load with
  | false => rfl
  | true =>
      rw [if_pos rfl, h.query]
      rfl

end Places

/-!
## The calls that are made and the counts there are

`Accounts s q`: of the calls that were made for a feed since it was added, those of `q` are
still queued and the cache, the dirty map and the table have the rest. A call that finds its
feed in the slot is counted at once, another is queued; `UpdateTimer::handle` counts what is
queued, if there is a feed among it that is not in its slot.
-/

variable {s s' : Service} {feed g : ℤ} {a b type : ℕ} {item : CacheItem} {t : Tally}
  {q q' : List (ℕ × ℤ)} {e : ℕ × ℤ}

/-! ## The accounts -/

/-- The counts fit their bits, and there are no views. -/
structure Tally.Within (t : Tally) : Prop where
  clicks : t.clicks < 2 ^ 16
  replies : t.replies < 2 ^ 16
  views : t.views = 0

instance (t : Tally) : Decidable t.Within :=
  decidable_of_iff (t.clicks < 2 ^ 16 ∧ t.replies < 2 ^ 16 ∧ t.views = 0)
    ⟨fun h => ⟨h.1, h.2.1, h.2.2⟩, fun h => ⟨h.clicks, h.replies, h.views⟩⟩

/-- Of the calls for the feed, those of `q` are queued and the rest is counted. -/
def Settles (s : Service) (q : List (ℕ × ℤ)) (feed : ℤ) (t : Tally) : Prop :=
  ∃ a b, t.clicks = a + q.count (1, feed) ∧ t.replies = b + q.count (2, feed) ∧ Holds s feed a b

structure Accounts (s : Service) (q : List (ℕ × ℤ)) : Prop where
  absent : ∀ feed, 0 < feed → s.made feed = none → Absent s feed
  pos : ∀ feed t, s.made feed = some t → 0 < feed
  within : ∀ feed t, s.made feed = some t → t.Within
  settles : ∀ feed t, s.made feed = some t → Settles s q feed t
  queued : ∀ e ∈ q, 0 < e.2 ∧ (e.1 = 1 ∨ e.1 = 2)

/-- Nothing changes for any feed. -/
structure Keeps (s s' : Service) : Prop where
  holds : ∀ {g a b}, Holds s g a b → Holds s' g a b
  absent : ∀ {g}, Absent s g → Absent s' g
  made : s'.made = s.made

theorem Accounts.keeps (h : Accounts s q) (hs : Keeps s s') : Accounts s' q where
  absent feed hpos hmade := hs.absent (h.absent feed hpos (by rwa [hs.made] at hmade))
  pos feed t hmade := h.pos feed t (by rwa [hs.made] at hmade)
  within feed t hmade := h.within feed t (by rwa [hs.made] at hmade)
  settles feed t hmade := by
    rw [hs.made] at hmade
    obtain ⟨a, b, ha, hb, hholds⟩ := h.settles feed t hmade
    exact ⟨a, b, ha, hb, hs.holds hholds⟩
  queued := h.queued

/-- Queues of the same counts are as good. -/
theorem Accounts.count_congr (h : Accounts s q)
    (hq : ∀ feed t, s.made feed = some t → ∀ k, q'.count (k, feed) = q.count (k, feed))
    (hqueued : ∀ e ∈ q', 0 < e.2 ∧ (e.1 = 1 ∨ e.1 = 2)) : Accounts s q' where
  absent := h.absent
  pos := h.pos
  within := h.within
  settles feed t hmade := by
    obtain ⟨a, b, ha, hb, hholds⟩ := h.settles feed t hmade
    exact ⟨a, b, by rw [hq feed t hmade]; exact ha, by rw [hq feed t hmade]; exact hb, hholds⟩
  queued := hqueued

/-! ## Loading -/

/-- An item of a feed with its counts. -/
def RightItem (s : Service) (item : CacheItem) : Prop :=
  0 < item.feed ∧ ∃ a b, Holds s item.feed a b ∧ item.count = packed a b

theorem Absent.not_holds (h : Absent s feed) : ¬ Holds s feed a b := by
  intro hholds
  obtain ⟨d, hrow, -⟩ := hholds.row h.dirty
  rw [h.table] at hrow
  cases hrow

theorem keeps_storeItem (h : RightItem s item) : Keeps s (s.storeItem item) := by
  obtain ⟨hpos, a, b, hholds, hcount⟩ := h
  unfold Service.storeItem
  rw [if_neg (by omega)]
  refine ⟨fun {g a' b'} hg => ?_, fun {g} hg => ?_, rfl⟩
  · by_cases hfeed : g = item.feed
    · subst hfeed
      obtain ⟨rfl, rfl⟩ := hg.unique hholds
      exact holds_setSlot hholds hcount
    · exact (others_setSlot rfl).holds hfeed hg
  · refine (others_setSlot rfl).absent ?_ hg
    rintro rfl
    exact hg.not_holds hholds

theorem accounts_storeItems (items : List CacheItem) (h : Accounts s q)
    (hitems : ∀ item ∈ items, RightItem s item) :
    Accounts (items.foldl Service.storeItem s) q ∧ (items.foldl Service.storeItem s).made = s.made := by
  induction items generalizing s with
  | nil => exact ⟨h, rfl⟩
  | cons item l ih =>
      have hkeeps := keeps_storeItem (hitems item (by simp))
      obtain ⟨hacc, hmade⟩ := ih (h.keeps hkeeps) fun item' hitem' => by
        obtain ⟨hpos, a, b, hholds, hcount⟩ := hitems item' (List.mem_cons_of_mem _ hitem')
        exact ⟨hpos, a, b, hkeeps.holds hholds, hcount⟩
      exact ⟨hacc, hmade.trans hkeeps.made⟩

/-- The replies of a feed fit the item that is made of its dirty entry. -/
def Loads (s : Service) (feed : ℤ) : Prop :=
  ∀ t, s.made feed = some t → s.dirty feed = none ∨ t.replies < 2 ^ 15

instance (s : Service) (feed : ℤ) : Decidable (Loads s feed) :=
  inferInstanceAs (Decidable (∀ t ∈ s.made feed, s.dirty feed = none ∨ t.replies < 2 ^ 15))

/-- What a query finds of a feed that was added is right. -/
theorem rightItem_query (h : Accounts s q) (hmade : s.made feed = some t) (hload : Loads s feed) :
    RightItem s (s.queryCacheItemFromDb feed) := by
  obtain ⟨a, b, ha, hb, hholds⟩ := h.settles feed t hmade
  have hwithin := h.within feed t hmade
  have hfeed := hholds.query_feed
  refine ⟨by rw [hfeed]; exact h.pos feed t hmade, a, b, by rw [hfeed]; exact hholds, ?_⟩
  exact hholds.query_count (by have := hwithin.clicks; omega) (by have := hwithin.replies; omega)
    ((hload t hmade).imp_right fun hlt => by omega)

/-- What a query returns is right. -/
theorem rightItem_queryCacheItems (h : Accounts s q) (arrived : ℤ → Bool) {feeds : List ℤ}
    (hpos : ∀ feed ∈ feeds, 0 < feed) (hload : ∀ feed ∈ feeds, Loads s feed) :
    ∀ item ∈ s.queryCacheItems arrived feeds, RightItem s item := by
  -- whatever is found of a feed is what the query for the one feed finds
  have hright : ∀ feed ∈ feeds, ¬ Absent s feed → RightItem s (s.queryCacheItemFromDb feed) := by
    intro feed hfeed hthere
    cases hmade : s.made feed with
    | none => exact absurd (h.absent feed (hpos feed hfeed) hmade) hthere
    | some t => exact rightItem_query h hmade (hload feed hfeed)
  intro item hitem
  unfold Service.queryCacheItems at hitem
  rcases List.mem_append.mp hitem with hdirty | hrow
  · obtain ⟨feed, hfeed, hfound⟩ := List.mem_filterMap.mp hdirty
    obtain ⟨d, hd, rfl⟩ := Option.map_eq_some_iff.mp hfound
    have := hright feed hfeed fun habs => by simp [habs.dirty] at hd
    unfold Service.queryCacheItemFromDb at this
    rwa [hd] at this
  · obtain ⟨feed, hfeed, hfound⟩ := List.mem_filterMap.mp hrow
    split_ifs at hfound with hnone
    obtain ⟨d, hd, rfl⟩ := Option.map_eq_some_iff.mp hfound
    have := hright feed hfeed fun habs => by simp [habs.table] at hd
    unfold Service.queryCacheItemFromDb at this
    rwa [Option.isNone_iff_eq_none.mp hnone.1, hd] at this

/-! ## What is queued -/

theorem made_update (s : Service) (feed : ℤ) (type : ℕ) (load : Bool) :
    (s.updateFeedInteraction feed type load).2.made = s.made := by
  unfold Service.updateFeedInteraction
  dsimp only
  split_ifs <;> rfl

/-- One of the queued calls is counted. -/
theorem accounts_pop (h : Accounts s (e :: q)) (hload : ∀ t, s.made e.2 = some t → t.replies < 2 ^ 15) :
    Accounts (s.updateFeedInteraction e.2 e.1 true).2 q := by
  obtain ⟨type, feed⟩ := e
  obtain ⟨hpos, htype⟩ := h.queued (type, feed) (by simp)
  have hqueued : ∀ e ∈ q, 0 < e.2 ∧ (e.1 = 1 ∨ e.1 = 2) := fun e he => h.queued e (by simp [he])
  have hother : ∀ g, g ≠ feed → ∀ k, ((type, feed) :: q).count (k, g) = q.count (k, g) := by
    intro g hg k
    rw [List.count_cons_of_ne]
    simp only [ne_eq, Prod.mk.injEq, not_and]
    exact fun _ => Ne.symm hg
  cases hmade : s.made feed with
  | none =>
      rw [update_absent (h.absent feed hpos hmade)]
      refine h.count_congr (fun g t hg k => (hother g ?_ k).symm) hqueued
      rintro rfl
      rw [hmade] at hg
      cases hg
  | some t =>
      obtain ⟨a, b, ha, hb, hholds⟩ := h.settles feed t hmade
      have hwithin := h.within feed t hmade
      have hreplies := hload t hmade
      have hclicks : clicksAfter a type + q.count (1, feed) = t.clicks := by
        unfold clicksAfter
        rw [ha, List.count_cons]
        rcases htype with rfl | rfl
        · simp
          omega
        · simp
      have hreplies' : repliesAfter b type + q.count (2, feed) = t.replies := by
        unfold repliesAfter
        rw [hb, List.count_cons]
        rcases htype with rfl | rfl
        · simp
        · simp
          omega
      obtain ⟨hnew, hothers⟩ := update_loaded type hholds hpos
        (by have := hwithin.clicks; omega) (by have := hwithin.replies; omega)
        (.inr (.inr (by omega))) (by rcases htype with rfl | rfl <;> simp)
      refine ⟨fun g hg hnone => ?_, fun g t' hg => ?_, fun g t' hg => ?_, fun g t' hg => ?_, hqueued⟩
      · rw [made_update] at hnone
        refine hothers.absent ?_ (h.absent g hg hnone)
        rintro rfl
        rw [hmade] at hnone
        cases hnone
      · rw [made_update] at hg
        exact h.pos g t' hg
      · rw [made_update] at hg
        exact h.within g t' hg
      · rw [made_update] at hg
        by_cases hgf : g = feed
        · subst hgf
          rw [hmade] at hg
          cases hg
          exact ⟨_, _, hclicks.symm, hreplies'.symm, hnew⟩
        · obtain ⟨a', b', ha', hb', hholds'⟩ := h.settles g t' hg
          rw [hother g hgf] at ha' hb'
          exact ⟨a', b', ha', hb', hothers.holds hgf hholds'⟩

/-- All of the queued calls are counted. -/
theorem accounts_foldl (q : List (ℕ × ℤ)) (h : Accounts s q)
    (hload : ∀ e ∈ q, ∀ t, s.made e.2 = some t → t.replies < 2 ^ 15) :
    Accounts (q.foldl (fun s e => (s.updateFeedInteraction e.2 e.1 true).2) s) [] := by
  induction q generalizing s with
  | nil => exact h
  | cons e q ih =>
      refine ih (accounts_pop h (hload e (by simp))) fun e' he' t hmade => ?_
      rw [made_update] at hmade
      exact hload e' (List.mem_cons_of_mem _ he') t hmade

end Oce.FeedInteraction
