import Mathlib.Data.List.Induction
import Oce.Base.Again
import Oce.FeedDB.Analysis.Replay

/-!
# Recovery restores the contents of every block

The log is replayed from its start over an image in which each block stands as it did at
some moment of the run that wrote the log. On a block in memory whose owner is known a log
acts on each feed as a function of the kind `SlotFn`, which is idempotent: the part of the
log that the image already holds changes nothing, and the rest goes on from there as it
did the first time (`replay_owned`). A block without an owner takes the user of the first
item written to it (`fold_ownerless`), and a block that is not in memory is read or blanked
by the first record that touches it (`unloaded_cases`).

This needs a nonzero user id in every record that writes an item: a block that belongs to
user 0 stays open to every other user, and forgets its items when it is read again.
-/

set_option autoImplicit false

namespace Oce.FeedDB

open Oce.Base Node

variable {id : BlockId} {feed : ℤ} {owner : UInt32} {data : FeedItemBlockInfo}
  {records : List FeedItemBlockInfo} {s : Slot}

/-! ## One record -/

/-- What a record does to the item of a slot whose owner is `owner`. -/
def itemStep (id : BlockId) (feed : ℤ) (owner : UInt32) (item : Option FeedItem)
    (data : FeedItemBlockInfo) : Option FeedItem :=
  if data.blk.curCount = -3 ∧ data.blk.id = id then none
  else if data.item.feed < 0 then
    if data.blk.id = id ∧ id.isNone = false ∧ -data.item.feed = feed then none else item
  else if data.blk.id = id ∧ uint32 data.blk.curCount ≤ UInt32.ofNat recordPerBlock ∧
      uint32 data.blk.userId = owner ∧ data.item.feed = feed then item.or (some data.item)
  else item

theorem slotFn_itemStep (id : BlockId) (feed : ℤ) (owner : UInt32) (data : FeedItemBlockInfo) :
    SlotFn fun item => itemStep id feed owner item data := by
  unfold itemStep
  by_cases h3 : data.blk.curCount = -3 ∧ data.blk.id = id
  · simp only [if_pos h3]
    exact .const none fun _ => rfl
  simp only [if_neg h3]
  by_cases hfeed : data.item.feed < 0
  · simp only [if_pos hfeed]
    by_cases hrem : data.blk.id = id ∧ id.isNone = false ∧ -data.item.feed = feed
    · simp only [if_pos hrem]
      exact .const none fun _ => rfl
    · simp only [if_neg hrem]
      exact .same fun _ => rfl
  · simp only [if_neg hfeed]
    by_cases hput : data.blk.id = id ∧ uint32 data.blk.curCount ≤ UInt32.ofNat recordPerBlock ∧
        uint32 data.blk.userId = owner ∧ data.item.feed = feed
    · simp only [if_pos hput]
      exact .fill data.item fun _ => rfl
    · simp only [if_neg hput]
      exact .same fun _ => rfl

/-- A put into a loaded block. -/
theorem put_loaded (feed : ℤ) (user : UInt32) (item : Option FeedItem) (data : FeedItemBlockInfo) :
    Slot.put data feed ⟨true, user, item⟩ =
      if user ≠ 0 ∧ user ≠ uint32 data.blk.userId then ⟨true, user, item⟩
      else if uint32 data.blk.curCount ≤ UInt32.ofNat recordPerBlock then
        ⟨true, uint32 data.blk.userId,
          if data.item.feed = feed then item.or (some data.item) else item⟩
      else ⟨true, user, item⟩ := by
  unfold Slot.put
  simp only [Bool.true_eq_false, and_false, if_false]

/-- A block in memory stays there. -/
theorem put_loaded_loaded (feed : ℤ) (user : UInt32) (item : Option FeedItem)
    (data : FeedItemBlockInfo) : (Slot.put data feed ⟨true, user, item⟩).loaded = true := by
  rw [put_loaded]
  split
  · rfl
  split <;> rfl

/-- A record and the slot of a block in memory, which the pointer update it may issue finds
there. -/
theorem step_loaded (id : BlockId) (feed : ℤ) (user : UInt32) (item : Option FeedItem)
    (data : FeedItemBlockInfo) :
    Slot.step id feed ⟨true, user, item⟩ data =
      if data.blk.curCount = -3 ∧ data.blk.id = id then ⟨true, user, none⟩
      else if data.item.feed < 0 then
        ⟨true, user,
          if data.blk.id = id ∧ id.isNone = false ∧ -data.item.feed = feed then none else item⟩
      else if data.blk.id = id then Slot.put data feed ⟨true, user, item⟩
      else ⟨true, user, item⟩ := by
  have hmain : ∀ s : Slot, s.loaded = true → (if data.blk.curCount = 1 ∧ data.blk.preId = id ∧
      id.isNone = false then { s with loaded := true } else s) = s := by
    intro s hs
    split
    · rw [← hs]
    · rfl
  unfold Slot.step Slot.main
  dsimp only
  by_cases hid : data.blk.id = id
  · simp only [hid, true_and, and_true, if_true]
    rw [hmain _ (put_loaded_loaded feed user item data)]
    by_cases h3 : data.blk.curCount = -3
    · rw [if_pos h3, if_pos h3]
      by_cases hfeed : data.item.feed < 0
      · rw [if_pos hfeed]
        split <;> rfl
      · have hbig : ¬ uint32 (-3 : ℤ) ≤ UInt32.ofNat recordPerBlock := by decide
        rw [if_neg hfeed, put_loaded, h3, if_neg hbig]
        split <;> rfl
    · rw [if_neg h3, if_neg h3]
      by_cases hfeed : data.item.feed < 0
      · rw [if_pos hfeed, if_pos hfeed]
        cases id.isNone <;> simp
      · rw [if_neg hfeed, if_neg hfeed]
  · simp only [hid, false_and, and_false, if_false]
    have hsame := hmain ⟨true, user, item⟩ rfl
    dsimp only at hsame
    rw [hsame]

/-- A record and the slot of a block in memory with an owner. -/
theorem step_owned (ho : owner ≠ 0) (item : Option FeedItem) (data : FeedItemBlockInfo) :
    Slot.step id feed ⟨true, owner, item⟩ data =
      ⟨true, owner, itemStep id feed owner item data⟩ := by
  rw [step_loaded, put_loaded]
  unfold itemStep
  by_cases h3 : data.blk.curCount = -3 ∧ data.blk.id = id
  · simp only [if_pos h3]
  simp only [if_neg h3]
  by_cases hfeed : data.item.feed < 0
  · simp only [if_pos hfeed]
  simp only [if_neg hfeed]
  by_cases hid : data.blk.id = id
  · simp only [hid, true_and, if_true]
    by_cases hu : uint32 data.blk.userId = owner
    · simp only [hu, ne_eq, not_true_eq_false, and_false, if_false, true_and]
      by_cases hc : uint32 data.blk.curCount ≤ UInt32.ofNat recordPerBlock
      · simp only [hc, if_true, true_and]
      · simp only [hc, if_false, false_and]
    · have hother : owner ≠ 0 ∧ owner ≠ uint32 data.blk.userId := ⟨ho, Ne.symm hu⟩
      simp only [if_pos hother, hu, false_and, and_false, if_false]
  · simp only [hid, false_and, if_false]

/-- The record writes an item to block `id`. -/
def WritesTo (id : BlockId) (data : FeedItemBlockInfo) : Prop := data.blk.id = id ∧ IsInsert data

instance (id : BlockId) (data : FeedItemBlockInfo) : Decidable (WritesTo id data) :=
  inferInstanceAs (Decidable (_ ∧ _))

/-- A record and the slot of a block in memory without an owner: the first item written
to it sets the owner, and no other record depends on who that will be. -/
theorem step_ownerless (item : Option FeedItem) (data : FeedItemBlockInfo) :
    Slot.step id feed ⟨true, 0, item⟩ data =
      if WritesTo id data then
        ⟨true, uint32 data.blk.userId, itemStep id feed (uint32 data.blk.userId) item data⟩
      else ⟨true, 0, itemStep id feed 0 item data⟩ := by
  have hown : ¬ ((0 : UInt32) ≠ 0 ∧ (0 : UInt32) ≠ uint32 data.blk.userId) := fun h => h.1 rfl
  rw [step_loaded, put_loaded, if_neg hown]
  unfold itemStep WritesTo IsInsert
  by_cases h3 : data.blk.curCount = -3 ∧ data.blk.id = id
  · have hbig : ¬ uint32 (-3 : ℤ) ≤ UInt32.ofNat recordPerBlock := by decide
    simp only [h3, hbig, and_self, and_false, if_true, if_false]
  simp only [if_neg h3]
  by_cases hfeed : data.item.feed < 0
  · have hneg : ¬ 0 ≤ data.item.feed := by omega
    simp only [if_pos hfeed, hneg, false_and, and_false, if_false]
  have hpos : 0 ≤ data.item.feed := by omega
  simp only [if_neg hfeed, hpos, true_and]
  by_cases hid : data.blk.id = id
  · simp only [hid, true_and, if_true]
    by_cases hc : uint32 data.blk.curCount ≤ UInt32.ofNat recordPerBlock
    · simp only [hc, if_true, true_and]
    · simp only [hc, if_false, false_and]
  · simp only [hid, false_and, if_false]

/-- A record that writes no item is the same for every owner. -/
theorem itemStep_congr (h : ¬ WritesTo id data) (feed : ℤ) (owner owner' : UInt32)
    (item : Option FeedItem) :
    itemStep id feed owner item data = itemStep id feed owner' item data := by
  unfold itemStep
  split
  · rfl
  split
  · rfl
  · rename_i hfeed
    have hno : ∀ u : UInt32, ¬ (data.blk.id = id ∧
        uint32 data.blk.curCount ≤ UInt32.ofNat recordPerBlock ∧
        uint32 data.blk.userId = u ∧ data.item.feed = feed) := by
      rintro u ⟨hid, hc, -, -⟩
      exact h ⟨hid, by omega, hc⟩
    rw [if_neg (hno owner), if_neg (hno owner')]

/-- A record and a slot whose block is not in memory: it leaves the block alone, blanks it,
or reads it. -/
theorem step_unloaded (id : BlockId) (feed : ℤ) (data : FeedItemBlockInfo) :
    (∀ user item, Slot.step id feed ⟨false, user, item⟩ data = ⟨false, user, item⟩ ∧
      Slot.step id feed ⟨true, user, item⟩ data = ⟨true, user, item⟩) ∨
    (∀ user item, Slot.step id feed ⟨false, user, item⟩ data =
      Slot.step id feed ⟨true, 0, none⟩ data) ∨
    ∀ user item, Slot.step id feed ⟨false, user, item⟩ data =
      Slot.step id feed ⟨true, user, item⟩ data := by
  unfold Slot.step Slot.main Slot.put
  by_cases hid : data.blk.id = id
  · by_cases hfeed : data.item.feed < 0
    · by_cases hread : data.blk.curCount = -3 ∨ id.isNone = false
      · right
        right
        intro user item
        rcases hread with h | h
        · cases id.isNone <;> simp [hid, hfeed, h]
        · simp [hid, hfeed, h]
      · left
        intro user item
        push Not at hread
        simp [hid, hfeed, hread.1, hread.2]
    · by_cases h1 : data.blk.curCount = 1
      · right
        left
        intro user item
        simp [hid, hfeed, h1]
      · right
        right
        intro user item
        simp [hid, hfeed, h1]
  · by_cases hpre : ¬ data.item.feed < 0 ∧ data.blk.curCount = 1 ∧ data.blk.preId = id ∧
        id.isNone = false
    · right
      right
      intro user item
      simp [hid, hpre.1, hpre.2.1, hpre.2.2]
    · left
      intro user item
      simp only [hid, false_and, and_false, if_false]
      by_cases hfeed : data.item.feed < 0
      · simp [hfeed]
      · have hpre' : ¬ (data.blk.curCount = 1 ∧ data.blk.preId = id ∧ id.isNone = false) :=
          fun h => hpre ⟨hfeed, h⟩
        simp only [if_neg hfeed, if_neg hpre', and_self]

/-! ## A whole log -/

theorem fold_owned (ho : owner ≠ 0) (item : Option FeedItem) (records : List FeedItemBlockInfo) :
    records.foldl (Slot.step id feed) ⟨true, owner, item⟩ =
      ⟨true, owner, records.foldl (itemStep id feed owner) item⟩ := by
  induction records generalizing item with
  | nil => rfl
  | cons r records ih =>
      rw [List.foldl_cons, step_owned ho, ih]
      rfl

/-- The user of every record that writes an item to the block. -/
def NamesUser (id : BlockId) (records : List FeedItemBlockInfo) : Prop :=
  ∀ r ∈ records, WritesTo id r → uint32 r.blk.userId ≠ 0

/-- A log on a block without an owner: there is a user, the one of the first item written,
as whose block it can be seen from the start. -/
theorem fold_ownerless (hnames : NamesUser id records) (feed : ℤ) :
    ∃ owner : UInt32, owner ≠ 0 ∧ ∀ p item, ∃ user, (user = 0 ∨ user = owner) ∧
      (records.take p).foldl (Slot.step id feed) ⟨true, 0, item⟩ =
        ⟨true, user, (records.take p).foldl (itemStep id feed owner) item⟩ := by
  induction records with
  | nil =>
      refine ⟨1, by decide, fun p item => ⟨0, Or.inl rfl, ?_⟩⟩
      rw [List.take_nil]
      rfl
  | cons r records ih =>
      by_cases hw : WritesTo id r
      · have ho := hnames r List.mem_cons_self hw
        refine ⟨uint32 r.blk.userId, ho, fun p item => ?_⟩
        cases p with
        | zero => exact ⟨0, Or.inl rfl, rfl⟩
        | succ p =>
            refine ⟨uint32 r.blk.userId, Or.inr rfl, ?_⟩
            rw [List.take_succ_cons, List.foldl_cons, step_ownerless, if_pos hw, fold_owned ho]
            rfl
      · obtain ⟨owner, ho, hfold⟩ := ih fun r' hr' => hnames r' (List.mem_cons_of_mem _ hr')
        refine ⟨owner, ho, fun p item => ?_⟩
        cases p with
        | zero => exact ⟨0, Or.inl rfl, rfl⟩
        | succ p =>
            obtain ⟨user, huser, he⟩ := hfold p (itemStep id feed owner item r)
            refine ⟨user, huser, ?_⟩
            rw [List.take_succ_cons, List.foldl_cons, step_ownerless, if_neg hw,
              itemStep_congr hw feed 0 owner, he]
            rfl

theorem unloaded_cases (id : BlockId) (feed : ℤ) (records : List FeedItemBlockInfo) :
    (∀ user item, records.foldl (Slot.step id feed) ⟨false, user, item⟩ = ⟨false, user, item⟩ ∧
      records.foldl (Slot.step id feed) ⟨true, user, item⟩ = ⟨true, user, item⟩) ∨
    (∀ user item, records.foldl (Slot.step id feed) ⟨false, user, item⟩ =
      records.foldl (Slot.step id feed) ⟨true, 0, none⟩) ∨
    ∀ user item, records.foldl (Slot.step id feed) ⟨false, user, item⟩ =
      records.foldl (Slot.step id feed) ⟨true, user, item⟩ := by
  induction records with
  | nil => exact Or.inl fun _ _ => ⟨rfl, rfl⟩
  | cons r records ih =>
      simp only [List.foldl_cons]
      rcases step_unloaded id feed r with h | h | h
      · simp only [fun user item => (h user item).1, fun user item => (h user item).2]
        exact ih
      · exact Or.inr (Or.inl fun user item => by rw [h])
      · exact Or.inr (Or.inr fun user item => by rw [h])

/-! ## Replaying over an image -/

/-- A log replayed over what a prefix of it left, in memory. -/
theorem replay_loaded (hnames : NamesUser id records) (feed : ℤ) (p : ℕ) (user : UInt32)
    (item : Option FeedItem) :
    (records.foldl (Slot.step id feed)
        ((records.take p).foldl (Slot.step id feed) ⟨true, user, item⟩)).item =
      (records.foldl (Slot.step id feed) ⟨true, user, item⟩).item := by
  -- the part of the log the image holds changes nothing the second time
  have hidem : ∀ owner item, records.foldl (itemStep id feed owner)
      ((records.take p).foldl (itemStep id feed owner) item) =
        records.foldl (itemStep id feed owner) item := by
    intro owner item
    have hfn := SlotFn.foldl (slotFn_itemStep id feed owner) (records.take p)
    conv_lhs => rw [← List.take_append_drop p records, List.foldl_append]
    rw [List.take_append_drop, hfn.idem, ← List.foldl_append, List.take_append_drop]
  by_cases hu : user = 0
  · subst hu
    obtain ⟨owner, ho, hfold⟩ := fold_ownerless hnames feed
    have hwhole : ∀ user item, user = 0 ∨ user = owner →
        (records.foldl (Slot.step id feed) ⟨true, user, item⟩).item =
          records.foldl (itemStep id feed owner) item := by
      rintro user item (rfl | rfl)
      · obtain ⟨user', -, he⟩ := hfold records.length item
        rw [List.take_length] at he
        rw [he]
      · rw [fold_owned ho]
    obtain ⟨user', huser', he⟩ := hfold p item
    rw [he, hwhole user' _ huser', hwhole 0 item (Or.inl rfl), hidem]
  · rw [fold_owned hu, fold_owned hu, fold_owned hu, hidem]

/-- A block in memory stays there. -/
theorem fold_loaded (id : BlockId) (feed : ℤ) (user : UInt32) (item : Option FeedItem)
    (records : List FeedItemBlockInfo) :
    (records.foldl (Slot.step id feed) ⟨true, user, item⟩).loaded = true := by
  induction records generalizing user item with
  | nil => rfl
  | cons r records ih =>
      have hstep : (Slot.step id feed ⟨true, user, item⟩ r).loaded = true := by
        by_cases hu : user = 0
        · subst hu
          rw [step_ownerless]
          split <;> rfl
        · rw [step_owned hu]
      rw [List.foldl_cons]
      generalize Slot.step id feed ⟨true, user, item⟩ r = s at hstep ⊢
      obtain ⟨loaded, user', item'⟩ := s
      obtain rfl : loaded = true := hstep
      exact ih user' item'

/-- A block without an owner has no item. -/
def Slot.OwnedOrEmpty (s : Slot) : Prop := s.user = 0 → s.item = none

/-- A record leaves its block owned. -/
theorem ownedOrEmpty_step (h : s.OwnedOrEmpty)
    (hnames : WritesTo id data → uint32 data.blk.userId ≠ 0) :
    (s.step id feed data).OwnedOrEmpty := by
  have hloaded : ∀ user item, (user = 0 → item = none) →
      (Slot.step id feed ⟨true, user, item⟩ data).OwnedOrEmpty := by
    intro user item hitem huser
    by_cases hu : user = 0
    · subst hu
      rw [step_ownerless] at huser ⊢
      by_cases hw : WritesTo id data
      · rw [if_pos hw] at huser
        exact absurd huser (hnames hw)
      · rw [if_neg hw, hitem rfl]
        unfold itemStep
        split
        · rfl
        split
        · split <;> rfl
        · rename_i hfeed
          have hno : ¬ (data.blk.id = id ∧
              uint32 data.blk.curCount ≤ UInt32.ofNat recordPerBlock ∧
              uint32 data.blk.userId = 0 ∧ data.item.feed = feed) :=
            fun hc => hw ⟨hc.1, by omega, hc.2.1⟩
          rw [if_neg hno]
    · rw [step_owned hu] at huser
      exact absurd huser hu
  obtain ⟨loaded, user, item⟩ := s
  cases loaded with
  | true => exact hloaded user item h
  | false =>
      rcases step_unloaded id feed data with hs | hs | hs
      · rw [(hs user item).1]
        exact h
      · rw [hs user item]
        exact hloaded 0 none fun _ => rfl
      · rw [hs user item]
        exact hloaded user item h

theorem ownedOrEmpty_fold (h : s.OwnedOrEmpty) (hnames : NamesUser id records) :
    (records.foldl (Slot.step id feed) s).OwnedOrEmpty := by
  induction records generalizing s with
  | nil => exact h
  | cons r records ih =>
      exact ih (ownedOrEmpty_step h (hnames r List.mem_cons_self))
        fun r' hr' => hnames r' (List.mem_cons_of_mem _ hr')

/-- A slot when the replay begins: blocks that are read in advance and have an owner are
in memory. -/
def Slot.start (preload : Bool) (user : UInt32) (item : Option FeedItem) : Slot :=
  ⟨preload && decide (user ≠ 0), user, item⟩

/-- **Replaying a log over what a prefix of it left, as the process finds it when it starts
again, ends with the items the log left the first time.** -/
theorem replay_slot (hnames : NamesUser id records) (feed : ℤ) (p : ℕ) (preload : Bool)
    (user : UInt32) (item : Option FeedItem) : let image := (records.take p).foldl (Slot.step id feed) (.start preload user item)
    (records.foldl (Slot.step id feed) (.start preload image.user image.item)).item =
      (records.foldl (Slot.step id feed) (.start preload user item)).item := by
  intro image
  have hsplit : ∀ s, records.foldl (Slot.step id feed) s =
      (records.drop p).foldl (Slot.step id feed)
        ((records.take p).foldl (Slot.step id feed) s) := by
    intro s
    rw [← List.foldl_append, List.take_append_drop]
  -- the image and the log as those of a block in memory
  have hmemory : ∀ user₁ item₁,
      image = (records.take p).foldl (Slot.step id feed) ⟨true, user₁, item₁⟩ →
      records.foldl (Slot.step id feed) (.start preload user item) =
        records.foldl (Slot.step id feed) ⟨true, user₁, item₁⟩ →
      (records.foldl (Slot.step id feed) image).item =
        (records.foldl (Slot.step id feed) (.start preload user item)).item := by
    intro user₁ item₁ himage hlog
    rw [himage, hlog]
    exact replay_loaded hnames feed p user₁ item₁
  have hfound : ∀ user₁ item₁,
      image = (records.take p).foldl (Slot.step id feed) ⟨true, user₁, item₁⟩ →
      image = ⟨true, image.user, image.item⟩ := by
    intro user₁ item₁ himage
    have hl : image.loaded = true := himage ▸ fold_loaded id feed user₁ item₁ _
    rw [← hl]
  by_cases hstart : (preload && decide (user ≠ 0)) = true
  · have hs : Slot.start preload user item = ⟨true, user, item⟩ := by
      rw [← hstart]
      rfl
    obtain ⟨hpre, hu⟩ : preload = true ∧ user ≠ 0 := by simpa using hstart
    have himage : image = ⟨true, user,
        (records.take p).foldl (itemStep id feed user) item⟩ := by
      simp only [image, hs, fold_owned hu]
    have hagain : Slot.start preload image.user image.item = image := by
      rw [himage]
      unfold Slot.start
      rw [hstart]
    rw [hagain]
    exact hmemory user item (by simp only [image, hs]) (by rw [hs])
  · have hs : Slot.start preload user item = ⟨false, user, item⟩ := by
      rw [Bool.not_eq_true] at hstart
      rw [← hstart]
      rfl
    have hagain : ∀ user₁ item₁,
        image = (records.take p).foldl (Slot.step id feed) ⟨true, user₁, item₁⟩ →
        records.foldl (Slot.step id feed) (.start preload user item) =
          records.foldl (Slot.step id feed) ⟨true, user₁, item₁⟩ →
        (records.foldl (Slot.step id feed) ⟨false, image.user, image.item⟩).item =
          (records.foldl (Slot.step id feed) (.start preload user item)).item →
        (records.foldl (Slot.step id feed) (.start preload image.user image.item)).item =
          (records.foldl (Slot.step id feed) (.start preload user item)).item := by
      intro user₁ item₁ himage hlog hunloaded
      rw [Slot.start]
      cases preload && decide (image.user ≠ 0) with
      | true =>
          rw [← hfound user₁ item₁ himage]
          exact hmemory user₁ item₁ himage hlog
      | false => exact hunloaded
    rcases unloaded_cases id feed (records.take p) with h | h | h
    · -- nothing in the prefix touches the block
      have himage : image = ⟨false, user, item⟩ := by
        simp only [image, hs, (h user item).1]
      rw [himage]
    · -- the prefix blanks it
      have himage : image = (records.take p).foldl (Slot.step id feed) ⟨true, 0, none⟩ := by
        simp only [image, hs, h user item]
      have hlog : records.foldl (Slot.step id feed) (.start preload user item) =
          records.foldl (Slot.step id feed) ⟨true, 0, none⟩ := by
        rw [hs, hsplit, h, ← hsplit]
      refine hagain 0 none himage hlog ?_
      rw [hlog, hsplit, h, ← hsplit]
    · -- the prefix reads it
      have himage : image = (records.take p).foldl (Slot.step id feed) ⟨true, user, item⟩ := by
        simp only [image, hs, h user item]
      have hlog : records.foldl (Slot.step id feed) (.start preload user item) =
          records.foldl (Slot.step id feed) ⟨true, user, item⟩ := by
        rw [hs, hsplit, h, ← hsplit]
      refine hagain user item himage hlog ?_
      rw [hsplit, h, ← hsplit, ← hfound user item himage]
      exact hmemory user item himage hlog

/-! ## The node when it starts -/

/-- The node before the replay: the blocks of `preload` are taken from the file read as a
whole. -/
def Node.preloaded (files : List ℤ) (disk : BlockId → Block)
    (log logOld : ℤ → List FeedItemBlockInfo) (preload : List BlockId) : Node :=
  preload.foldl locateFrom (.started files disk log logOld)

section Preloaded

variable (files : List ℤ) (disk : BlockId → Block) (log logOld : ℤ → List FeedItemBlockInfo)
  (preload : List BlockId)

/-- What a preload leaves in memory. -/
theorem preloaded_spec :
    (Node.preloaded files disk log logOld preload).files = files ∧
    (Node.preloaded files disk log logOld preload).disk = disk ∧
    ∀ id, (Node.preloaded files disk log logOld preload).cache id =
      if id ∈ preload ∧ (disk id).head.userId ≠ 0 then some (disk id) else none := by
  induction preload using List.reverseRecOn with
  | nil =>
      refine ⟨rfl, rfl, fun id => ?_⟩
      rw [if_neg fun h => absurd h.1 (by simp)]
      rfl
  | append_singleton l a ih =>
      have hfold : Node.preloaded files disk log logOld (l ++ [a]) =
          (Node.preloaded files disk log logOld l).locateFrom a := by
        rw [Node.preloaded, List.foldl_append]
        rfl
      rw [hfold]
      generalize Node.preloaded files disk log logOld l = n at ih ⊢
      obtain ⟨hfiles, hdisk, hcache⟩ := ih
      unfold locateFrom
      split
      · rename_i h
        refine ⟨hfiles, hdisk, fun id => ?_⟩
        rw [hcache]
        by_cases hid : id = a
        · subst hid
          rw [hcache, hdisk] at h
          by_cases hu : (disk id).head.userId = 0
          · simp [hu]
          · have hmem : id ∈ l := by
              rcases h with h | h
              · by_contra hmem
                simp [hmem] at h
              · exact absurd h hu
            simp [hmem]
        · simp [hid]
      · rename_i h
        refine ⟨hfiles, hdisk, fun id => ?_⟩
        push Not at h
        by_cases hid : id = a
        · subst hid
          rw [store_cache_self]
          rw [hdisk] at h ⊢
          rw [if_pos ⟨by simp, h.2⟩]
        · rw [store_cache_ne _ _ hid, hcache]
          simp [hid]

/-- The slots of the node before the replay. -/
theorem slot_preloaded (howned : (disk id).head.userId = 0 → (disk id).items = []) (feed : ℤ) :
    (Node.preloaded files disk log logOld preload).slot id feed =
      .start (decide (id ∈ preload)) (disk id).head.userId ((disk id).find feed) := by
  obtain ⟨-, hdisk, hcache⟩ := preloaded_spec files disk log logOld preload
  unfold Node.slot Node.view Slot.start
  rw [hcache, hdisk]
  by_cases hu : (disk id).head.userId = 0
  · have hitems := howned hu
    have hfind : (disk id).find feed = none := by
      rw [Block.find, hitems]
      rfl
    have hreload : (disk id).reload.head.userId = 0 ∧ (disk id).reload.find feed = none := by
      unfold Block.reload
      split
      · exact ⟨rfl, rfl⟩
      · exact ⟨hu, hfind⟩
    rw [if_neg fun h => h.2 hu]
    simp only [Option.getD_none, hreload.1, hreload.2, hu, hfind]
    simp
  · by_cases hmem : id ∈ preload
    · rw [if_pos ⟨hmem, hu⟩]
      simp [hmem, hu]
    · rw [if_neg fun h => hmem h.1]
      simp [hmem, Block.reload_of_userId hu]

end Preloaded

/-! ## Recovery -/

/-- The feeds of the block on disk and of the records that write to it. -/
def feedsOf (disk : BlockId → Block) (records : List FeedItemBlockInfo) (id : BlockId) : List ℤ :=
  (disk id).items.map FeedItem.feed ++
    (records.filter fun r => decide (WritesTo id r)).map fun r => r.item.feed

/-- The items of each block and the records that write to it fit the block. -/
def RoomFor (disk : BlockId → Block) (records : List FeedItemBlockInfo) : Prop :=
  ∀ id, (disk id).items.length +
    (records.filter fun r => decide (WritesTo id r)).length ≤ recordPerBlock

theorem roomFor_of_length {disk : BlockId → Block}
    (h : ∀ id, (disk id).items.length + records.length ≤ recordPerBlock) :
    RoomFor disk records := by
  intro id
  have hfilter := List.length_filter_le (fun r => decide (WritesTo id r)) records
  have hid := h id
  omega

/-- Replayed over any image in which each block was flushed at some prefix of the log, if
at all, the log gives every block the items it gives it on the initial image. -/
def ReplayRestores (files : List ℤ) (disk : BlockId → Block)
    (log logOld : ℤ → List FeedItemBlockInfo) (preload : List BlockId)
    (records : List FeedItemBlockInfo) : Prop :=
  ∀ image : BlockId → Block,
    (∀ id, image id = disk id ∨ ∃ p, image id =
      ((Node.preloaded files disk log logOld preload).restore (records.take p)).view id) →
    ∀ id : BlockId, id.fileId ∈ files → InFile id →
      (((Node.preloaded files image log logOld preload).restore records).view id).items =
        (((Node.preloaded files disk log logOld preload).restore records).view id).items

/-- **A log whose items all have a nonzero user, on an image whose blocks without an owner
are empty, can be replayed over any image it passed through.** -/
theorem replay_restores_contents {files : List ℤ} {disk : BlockId → Block}
    {log logOld : ℤ → List FeedItemBlockInfo} {preload : List BlockId}
    {records : List FeedItemBlockInfo} (hnames : ∀ id, NamesUser id records)
    (howned : ∀ id, (disk id).head.userId = 0 → (disk id).items = [])
    (hroom : RoomFor disk records) :
    ReplayRestores files disk log logOld preload records := by
  intro image himage id hfile hin
  have hlen : (feedsOf disk records id).length ≤ recordPerBlock := by
    have h := hroom id
    simpa [feedsOf] using h
  have hrec : ∀ r ∈ records, r.blk.id = id → IsInsert r → r.item.feed ∈ feedsOf disk records id := by
    intro r hr hid hins
    have hmem : r ∈ records.filter fun r => decide (WritesTo id r) :=
      List.mem_filter.mpr ⟨hr, decide_eq_true ⟨hid, hins⟩⟩
    exact List.mem_append_right _ (List.mem_map.mpr ⟨r, hmem, rfl⟩)
  have hstart := slot_preloaded files disk log logOld preload (howned id)
  have hkeys : (Node.preloaded files disk log logOld preload).KeysIn id
      (feedsOf disk records id) := by
    intro feed hne
    rw [hstart] at hne
    obtain ⟨x, hx⟩ := Option.ne_none_iff_exists'.mp hne
    obtain ⟨hmem, rfl⟩ := mem_of_lookup hx
    exact List.mem_append_left _ (List.mem_map_of_mem hmem)
  have hfile₀ : id.fileId ∈ (Node.preloaded files disk log logOld preload).files := by
    rwa [(preloaded_spec files disk log logOld preload).1]
  have hfile₁ : id.fileId ∈ (Node.preloaded files image log logOld preload).files := by
    rwa [(preloaded_spec files image log logOld preload).1]
  obtain ⟨hlive, -⟩ := slot_restore hfile₀ hin hlen hkeys hrec
  -- the image of the block is the slot of a prefix, the empty one if it was not flushed
  obtain ⟨p, himageSlot, himageKeys⟩ : ∃ p, (∀ feed, (image id).head.userId =
        ((records.take p).foldl (Slot.step id feed)
          ((Node.preloaded files disk log logOld preload).slot id feed)).user ∧
      (image id).find feed = ((records.take p).foldl (Slot.step id feed)
          ((Node.preloaded files disk log logOld preload).slot id feed)).item) ∧
      ∀ feed, (image id).find feed ≠ none → feed ∈ feedsOf disk records id := by
    rcases himage id with he | ⟨p, he⟩
    · refine ⟨0, fun feed => ?_, fun feed hne => hkeys feed ?_⟩
      · rw [he, List.take_zero, List.foldl_nil, hstart]
        exact ⟨rfl, rfl⟩
      · rw [he] at hne
        rw [hstart]
        exact hne
    · have hprefix : ∀ r ∈ records.take p, r.blk.id = id → IsInsert r →
          r.item.feed ∈ feedsOf disk records id := fun r hr => hrec r (List.mem_of_mem_take hr)
      obtain ⟨hslots, hkeysp⟩ := slot_restore hfile₀ hin hlen hkeys hprefix
      refine ⟨p, fun feed => ?_, fun feed hne => hkeysp feed ?_⟩
      · rw [← hslots, he]
        exact ⟨rfl, rfl⟩
      · rw [he] at hne
        exact hne
  have himageOwned : (image id).head.userId = 0 → (image id).items = [] := by
    intro hu
    have hempty : ∀ feed, (image id).find feed = Block.init.find feed := by
      intro feed
      obtain ⟨huser, hitem⟩ := himageSlot feed
      rw [hitem]
      refine ownedOrEmpty_fold (fun h0 => ?_) (fun r hr => hnames id r (List.mem_of_mem_take hr))
        (huser ▸ hu)
      rw [hstart] at h0 ⊢
      show (disk id).find feed = none
      rw [Block.find, howned id h0]
      rfl
    exact Block.items_eq_of_find hempty
  have hagain := slot_preloaded files image log logOld preload himageOwned
  obtain ⟨hreplay, -⟩ := slot_restore hfile₁ hin hlen
    (fun feed hne => himageKeys feed (by rwa [hagain] at hne)) hrec
  refine Block.items_eq_of_find fun feed => ?_
  have hreplayed := congrArg Slot.item (hreplay feed)
  have hlived := congrArg Slot.item (hlive feed)
  rw [hagain, (himageSlot feed).1, (himageSlot feed).2, hstart] at hreplayed
  rw [hstart] at hlived
  exact hreplayed.trans ((replay_slot (hnames id) feed p _ _ _).trans hlived.symm)

/-- Two records of a user and the removal of the first. -/
def putsAndRemoval : List FeedItemBlockInfo :=
  [⟨⟨5, 0, 0, 0, 0, 0⟩, ⟨0, 7, 1, 1, 1, 0, 0, -1, 0⟩⟩,
    ⟨⟨6, 0, 0, 0, 0, 0⟩, ⟨0, 7, 2, 2, 1, 0, 0, -1, 0⟩⟩,
    specialRecord (-5) 7 0 ⟨1, 0⟩ ⟨0, 0⟩]

theorem replay_restores_contents_putsAndRemoval :
    ReplayRestores [1] (fun _ => .zeroed) (fun _ => []) (fun _ => []) [⟨1, 0⟩] putsAndRemoval := by
  have husers : ∀ r ∈ putsAndRemoval, uint32 r.blk.userId ≠ 0 := by decide
  exact replay_restores_contents (fun _ r hr _ => husers r hr) (fun _ _ => rfl)
    (roomFor_of_length fun _ => by decide)

/-- User 0 writes a feed, takes it back and writes it again, and user 2 a second one. -/
def ownerlessRecords : List FeedItemBlockInfo :=
  [⟨⟨5, 0, 0, 0, 0, 0⟩, ⟨0, 0, 1, 2, 1, 0, 0, -1, 0⟩⟩,
    specialRecord (-5) 0 0 ⟨1, 0⟩ ⟨0, 0⟩,
    ⟨⟨5, 0, 0, 0, 0, 0⟩, ⟨0, 0, 2, 3, 1, 0, 0, -1, 0⟩⟩,
    ⟨⟨6, 0, 0, 0, 0, 0⟩, ⟨0, 2, 3, 4, 1, 0, 0, -1, 0⟩⟩]

/-- A block of no user with an item; its pointer to the block before it has index 0. -/
def ownerlessBlock : Block :=
  ⟨⟨0, 1, 1, 0, 0, -1⟩, [⟨5, 0, 0, 0, 0, 0⟩], List.pairwise_singleton _ _, by decide⟩

/-- The block that follows the one without an owner gets its first record. -/
def nextBlockRecord : List FeedItemBlockInfo :=
  [⟨⟨6, 0, 0, 0, 0, 0⟩, ⟨0, 2, 1, 1, 2, 0, 1, 3, 0⟩⟩]

/-- The owner is needed: with records of user 0, or a block on disk that has items and no
owner, items are lost although no block is full and every block was flushed after the
whole log. -/
theorem ownerless_items_lost :
    (RoomFor (fun _ => .zeroed) ownerlessRecords ∧
      ¬ ReplayRestores [1] (fun _ => .zeroed) (fun _ => []) (fun _ => []) [] ownerlessRecords) ∧
    (RoomFor (fun _ => ownerlessBlock) nextBlockRecord ∧
      ¬ ReplayRestores [1, 2] (fun _ => ownerlessBlock) (fun _ => []) (fun _ => []) []
        nextBlockRecord) := by
  refine ⟨⟨roomFor_of_length fun _ => by decide, fun h => ?_⟩,
    roomFor_of_length fun _ => by decide, fun h => ?_⟩
  · refine absurd (h _ (fun _ => Or.inr ⟨4, rfl⟩) ⟨1, 0⟩ (by decide) (by decide)) ?_
    decide
  · refine absurd (h _ (fun _ => Or.inr ⟨1, rfl⟩) ⟨1, 3⟩ (by decide) (by decide)) ?_
    decide

end Oce.FeedDB
