import Mathlib.Data.List.Nodup
import Oce.FeedNews.Analysis.RingSlots
import Oce.FeedNews.Model.Gather

/-!
# Merge groups

One round of `MergeFeed` leaves a feed out, puts it at the end of the group that has its key, or
opens a group with it; and in each of these the six vectors stay of one length. Over all rounds the
index has every group under the key of all its feeds, no slot is in two groups, and for each feed
that was left out the reason is known.
-/

set_option autoImplicit false

namespace Oce.FeedNews

open Function

variable {d slot g slot' : ℕ} {feeds : ℕ → LiveFeedItem} {l : List LiveFeedItem}

/-! ## Keys -/

theorem smallType_lt (f : Feed) : f.smallType < 65536 := by
  unfold Feed.smallType
  omega

theorem main2Comment_lt {stype : ℕ} (h : stype < 65536) : main2Comment stype < 65536 := by
  unfold main2Comment
  cases hfind : main2comment.find? fun p => p.1 = stype with
  | none => exact h
  | some p =>
      have hbound : ∀ q ∈ main2comment, q.2 < 65536 := by decide
      exact hbound p (List.mem_of_find?_eq_some hfind)

/-- The feeds of one group are of one merge id, one version and one type. -/
theorem mergeKey_inj {f f' : Feed} (h : f.mergeKey = f'.mergeKey) :
    f.merge = f'.merge ∧ f.ver = f'.ver ∧ main2Comment f.smallType = main2Comment f'.smallType := by
  have hlt := main2Comment_lt (smallType_lt f)
  have hlt' := main2Comment_lt (smallType_lt f')
  have hcode : f.ver <<< 16 ||| main2Comment f.smallType = f'.ver <<< 16 ||| main2Comment f'.smallType :=
    congrArg Prod.fst h
  rw [← Nat.shiftLeft_add_eq_or_of_lt hlt, ← Nat.shiftLeft_add_eq_or_of_lt hlt', Nat.shiftLeft_eq,
    Nat.shiftLeft_eq] at hcode
  exact ⟨congrArg Prod.snd h, by omega, by omega⟩

namespace LiveFeedRing

theorem newest_inj (r : LiveFeedRing) {c : ℕ} (hc : c < maxCount) (hd : d < maxCount)
    (h : r.newest c = r.newest d) : c = d := by
  unfold newest maxCount at *
  omega

theorem isRandomed_clearRandomed (x : LiveFeedItem) : x.clearRandomed.isRandomed = false := by
  have hmask : 0xFFFFFFFB#32 &&& 0x04#32 = 0#32 := by decide
  unfold LiveFeedItem.clearRandomed LiveFeedItem.isRandomed
  rw [BitVec.and_assoc, hmask, BitVec.and_zero]
  rfl

/-- The key of the feed in a slot. -/
def keyAt (r : LiveFeedRing) (slot : ℕ) : Option (ℕ × ℤ) :=
  (r.feeds slot).feed.map fun f => f.mergeKey

/-! ## One round -/

/-- The six vectors are of one length. -/
structure Merging.Aligned (s : Merging) : Prop where
  weights : s.weights.length = s.mergeFeeds.length
  viewedCount : s.viewedCount.length = s.mergeFeeds.length
  updateTimes : s.updateTimes.length = s.mergeFeeds.length
  updateBool : s.updateBool.length = s.mergeFeeds.length
  commentBool : s.commentBool.length = s.mergeFeeds.length

/-- The slots keep their feeds, and only `slot` may have another time or weight. -/
structure Retimed (slot : ℕ) (feeds feeds' : ℕ → LiveFeedItem) : Prop where
  feed : ∀ i, (feeds' i).feed = (feeds i).feed
  other : ∀ i, i ≠ slot → feeds' i = feeds i

theorem retimed_update {x : LiveFeedItem} (h : x.feed = (feeds slot).feed) :
    Retimed slot feeds (update feeds slot x) where
  feed i := by
    by_cases hi : i = slot
    · subst hi
      rw [update_self]
      exact h
    · rw [update_of_ne hi]
  other i hi := update_of_ne hi _ _

theorem Retimed.trans {feeds' feeds'' : ℕ → LiveFeedItem} (h : Retimed slot feeds feeds')
    (h' : Retimed slot feeds' feeds'') : Retimed slot feeds feeds'' where
  feed i := (h'.feed i).trans (h.feed i)
  other i hi := (h'.other i hi).trans (h.other i hi)

/-- What becomes of a feed with this key. -/
inductive MergeStep (a : MergeArgs) (c slot : ℕ) (key : ℕ × ℤ) (s s' : Merging) : Prop
  | random (hfirst : a.first ≠ 0) (hrandom : (s.feeds slot).isRandomed = true)
      (hfeeds : s'.mergeFeeds = s.mergeFeeds) (hindex : s'.mergeIndex = s.mergeIndex)
      (hedm : s'.getEdm = s.getEdm)
  | second (hnone : s.mergeIndex key = none) (hat : isEdm (s.feeds slot) (a.now c))
      (hhas : s.getEdm = true) (hfeeds : s'.mergeFeeds = s.mergeFeeds)
      (hindex : s'.mergeIndex = s.mergeIndex) (hedm : s'.getEdm = s.getEdm)
  | join (g : ℕ) (group : List ℕ) (hsome : s.mergeIndex key = some g)
      (hgroup : s.mergeFeeds[g]? = some group)
      (hfeeds : s'.mergeFeeds = s.mergeFeeds.set g (group ++ [slot]))
      (hindex : s'.mergeIndex = s.mergeIndex) (hedm : s'.getEdm = s.getEdm)
  | opens (hnone : s.mergeIndex key = none) (hfeeds : s'.mergeFeeds = s.mergeFeeds ++ [[slot]])
      (hindex : s'.mergeIndex = update s.mergeIndex key (some s.mergeFeeds.length))
      (hedm : s'.getEdm = true → s.getEdm = true ∨ isEdm (s.feeds slot) (a.now c))

section Round

variable {a : MergeArgs} {c slot : ℕ} {s : Merging} {x : LiveFeedItem}

theorem length_ite_set {α : Type} (p : Prop) [Decidable p] (l : List α) (i : ℕ) (y : α) :
    (if p then l.set i y else l).length = l.length := by
  split
  · exact List.length_set
  · rfl

/-- A feed goes to the end of its group. -/
theorem joinGroup_spec (h : s.Aligned) {group : List ℕ} (hgroup : s.mergeFeeds[g]? = some group)
    (hx : x.feed = (s.feeds slot).feed) (stype : ℕ) :
    ∃ s', joinGroup a c slot g x stype s = some s' ∧ s'.Aligned ∧ Retimed slot s.feeds s'.feeds ∧
      s'.mergeFeeds = s.mergeFeeds.set g (group ++ [slot]) ∧ s'.mergeIndex = s.mergeIndex ∧
      s'.getEdm = s.getEdm := by
  obtain ⟨hg, -⟩ := List.getElem?_eq_some_iff.mp hgroup
  unfold joinGroup
  rw [hgroup, List.getElem?_eq_getElem (h.updateBool ▸ hg), List.getElem?_eq_getElem (h.commentBool ▸ hg),
    List.getElem?_eq_getElem (h.viewedCount ▸ hg), List.getElem?_eq_getElem (h.updateTimes ▸ hg),
    List.getElem?_eq_getElem (h.weights ▸ hg)]
  have hlen : (s.mergeFeeds.set g (group ++ [slot])).length = s.mergeFeeds.length := List.length_set
  refine ⟨_, rfl, ⟨?_, ?_, ?_, ?_, ?_⟩, retimed_update ?_, rfl, rfl, rfl⟩
  · exact (length_ite_set _ _ _ _).trans (h.weights.trans hlen.symm)
  · exact (length_ite_set _ _ _ _).trans (h.viewedCount.trans hlen.symm)
  · exact (length_ite_set _ _ _ _).trans (h.updateTimes.trans hlen.symm)
  · exact h.updateBool.trans hlen.symm
  · exact (length_ite_set _ _ _ _).trans (h.commentBool.trans hlen.symm)
  · rw [← hx]
    split
    · rfl
    · rfl

theorem openGroup_aligned (h : s.Aligned) (key : ℕ × ℤ) (stype : ℕ) (w : ℤ) :
    (openGroup slot x key stype w s).Aligned := by
  unfold openGroup
  refine ⟨?_, ?_, ?_, ?_, ?_⟩
  · simp [h.weights]
  · simp [h.viewedCount]
  · simp [h.updateTimes]
  · simp [h.updateBool]
  · simp [h.commentBool]

theorem setSlot_aligned (h : s.Aligned) : (s.setSlot slot x).Aligned :=
  ⟨h.weights, h.viewedCount, h.updateTimes, h.updateBool, h.commentBool⟩

/-- A feed whose key has no group opens one, unless it is advertising and there is an advertising
group. -/
theorem newGroup_spec (h : s.Aligned) (hx : x = s.feeds slot) (key : ℕ × ℤ) (stype : ℕ)
    (hnone : s.mergeIndex key = none) :
    (newGroup a c slot x key stype s).Aligned ∧
      Retimed slot s.feeds (newGroup a c slot x key stype s).feeds ∧
      MergeStep a c slot key s (newGroup a c slot x key stype s) := by
  unfold newGroup
  by_cases hat : isEdm x (a.now c)
  · rw [if_pos hat]
    extract_lets x' s₁
    have hretimed : Retimed slot s.feeds s₁.feeds := by
      refine retimed_update ?_
      rw [← hx]
      show (if x.time < 0 then _ else x).feed = x.feed
      split_ifs <;> rfl
    by_cases hhas : s₁.getEdm = true
    · rw [if_pos hhas]
      exact ⟨setSlot_aligned h, hretimed, .second hnone (hx ▸ hat) hhas rfl rfl rfl⟩
    · rw [if_neg hhas]
      have halign := @openGroup_aligned slot s₁ x' (setSlot_aligned h) key stype 0x0FFFFFFF
      refine ⟨⟨halign.weights, halign.viewedCount, halign.updateTimes, halign.updateBool,
        halign.commentBool⟩, hretimed, ?_⟩
      exact .opens hnone rfl rfl fun _ => .inr (hx ▸ hat)
  · rw [if_neg hat]
    exact ⟨openGroup_aligned h key stype _, ⟨fun _ => rfl, fun _ _ => rfl⟩, .opens hnone rfl rfl .inl⟩

/-- **What one round does.** -/
theorem mergeAt_spec (hcomment : a.getcomment = true) (h : s.Aligned)
    (hindex : ∀ key g, s.mergeIndex key = some g → ∃ group, s.mergeFeeds[g]? = some group)
    {feed : PoolFeed} (hfeed : (s.feeds slot).feed = some feed) :
    ∃ s', mergeAt a s c slot = some s' ∧ s'.Aligned ∧ Retimed slot s.feeds s'.feeds ∧
      MergeStep a c slot feed.mergeKey s s' := by
  unfold mergeAt
  extract_lets x s₁
  have hx : x.feed = (s.feeds slot).feed := by
    show (if a.first = 0 then _ else _ : LiveFeedItem).feed = _
    split_ifs <;> rfl
  have htime : x.time = (s.feeds slot).time := by
    show (if a.first = 0 then _ else _ : LiveFeedItem).time = _
    split_ifs <;> rfl
  have hself : s₁.feeds slot = x := update_self _ _ _
  have hretimed : Retimed slot s.feeds s₁.feeds := retimed_update hx
  have halign : s₁.Aligned := setSlot_aligned h
  by_cases hrandom : x.isRandomed = true
  · rw [if_pos hrandom]
    refine ⟨s₁, rfl, halign, hretimed, ?_⟩
    by_cases hfirst : a.first = 0
    · -- the mark has been cleared
      have hclear : x = (s.feeds slot).clearRandomed := if_pos hfirst
      rw [hclear, isRandomed_clearRandomed] at hrandom
      cases hrandom
    · have hsame : x = s.feeds slot := if_neg hfirst
      exact .random hfirst (hsame ▸ hrandom) rfl rfl rfl
  · rw [if_neg hrandom, hx, hfeed, Option.bind_some, hcomment]
    have hopen : (!true && isComment feed.smallType) = false := rfl
    dsimp only
    rw [hopen, if_neg Bool.false_ne_true]
    cases hkey : s₁.mergeIndex feed.mergeKey with
    | some g =>
        obtain ⟨group, hgroup⟩ := hindex _ _ hkey
        obtain ⟨s', hs', halign', hretimed', hfeeds, hindex', hedm⟩ :=
          joinGroup_spec (a := a) (c := c) halign hgroup (congrArg _ hself.symm) feed.smallType
        exact ⟨s', hs', halign', hretimed.trans hretimed', .join g group hkey hgroup hfeeds hindex' hedm⟩
    | none =>
        obtain ⟨halign', hretimed', hstep⟩ :=
          newGroup_spec (a := a) (c := c) halign hself.symm feed.mergeKey feed.smallType hkey
        refine ⟨_, rfl, halign', hretimed.trans hretimed', ?_⟩
        have hat : isEdm (s₁.feeds slot) (a.now c) → isEdm (s.feeds slot) (a.now c) := by
          unfold isEdm
          rw [hself, htime]
          exact id
        cases hstep with
        | random hfirst hrandom' => exact absurd (hself ▸ hrandom') hrandom
        | second hnone hat' hhas hfeeds hindex' hedm => exact .second hnone (hat hat') hhas hfeeds hindex' hedm
        | join g group hsome hgroup hfeeds hindex' hedm => exact .join g group hsome hgroup hfeeds hindex' hedm
        | opens hnone hfeeds hindex' hedm => exact .opens hnone hfeeds hindex' fun hget => (hedm hget).imp id hat

end Round

/-! ## All rounds -/

/-- The feed of the slot heads one of the groups. -/
def Heads (groups : List (List ℕ)) (slot : ℕ) : Prop := ∃ group ∈ groups, group.head? = some slot

/-- The `d`-th feed is advertising as it is read. -/
def EdmAt (r : LiveFeedRing) (a : MergeArgs) (d : ℕ) : Prop := isEdm (r.feeds (r.newest d)) (a.now d)

/-- The `d`-th feed is advertising, no newer feed in a group has its key, and an advertising feed
before it has a group. -/
structure SecondEdm (r : LiveFeedRing) (a : MergeArgs) (groups : List (List ℕ)) (d : ℕ) : Prop where
  edm : EdmAt r a d
  opens : ∀ d', d' < d → r.newest d' ∈ groups.flatten → keyAt r (r.newest d') ≠ keyAt r (r.newest d)
  first : ∃ d', d' < d ∧ EdmAt r a d' ∧ Heads groups (r.newest d')

/-- The reasons for a feed to be in no group. -/
def LeftOut (r : LiveFeedRing) (a : MergeArgs) (groups : List (List ℕ)) (d : ℕ) : Prop :=
  (a.first ≠ 0 ∧ (r.feeds (r.newest d)).isRandomed = true) ∨ SecondEdm r a groups d

/-- After `c` rounds. -/
structure Grouped (r : LiveFeedRing) (a : MergeArgs) (c : ℕ) (s : Merging) : Prop where
  aligned : s.Aligned
  feed : ∀ i, (s.feeds i).feed = (r.feeds i).feed
  unread : ∀ d, c ≤ d → d < maxCount → s.feeds (r.newest d) = r.feeds (r.newest d)
  indexed : ∀ key g, s.mergeIndex key = some g →
    ∃ group, s.mergeFeeds[g]? = some group ∧ group ≠ [] ∧ ∀ slot ∈ group, keyAt r slot = some key
  keyed : ∀ g, g < s.mergeFeeds.length → ∃ key, s.mergeIndex key = some g
  nodup : s.mergeFeeds.flatten.Nodup
  read : ∀ slot ∈ s.mergeFeeds.flatten, ∃ d, d < c ∧ slot = r.newest d
  edm : s.getEdm = true → ∃ d, d < c ∧ EdmAt r a d ∧ Heads s.mergeFeeds (r.newest d)
  left : ∀ d, d < c → r.newest d ∉ s.mergeFeeds.flatten → LeftOut r a s.mergeFeeds d

theorem flatten_set_append {α : Type} {l : List (List α)} {group : List α}
    (h : l[g]? = some group) (x : α) : (l.set g (group ++ [x])).flatten.Perm (x :: l.flatten) := by
  induction l generalizing g with
  | nil => cases h
  | cons head l ih =>
      cases g with
      | zero =>
          cases h
          rw [List.set_cons_zero, List.flatten_cons, List.flatten_cons, List.append_assoc]
          exact List.perm_middle
      | succ g =>
          rw [List.set_cons_succ, List.flatten_cons, List.flatten_cons]
          exact ((ih h).append_left head).trans List.perm_middle

section Rounds

variable {r : LiveFeedRing} {a : MergeArgs} {c : ℕ} {s s' : Merging} {key : ℕ × ℤ}

/-- A feed with no group's key is newer than none of the same key in a group. -/
theorem Grouped.key_ne (h : Grouped r a c s) (hnone : s.mergeIndex key = none)
    (hslot : slot ∈ s.mergeFeeds.flatten) : keyAt r slot ≠ some key := by
  intro hkey
  obtain ⟨group, hmem, hin⟩ := List.mem_flatten.mp hslot
  obtain ⟨g, hg, rfl⟩ := List.getElem_of_mem hmem
  obtain ⟨key', hkey'⟩ := h.keyed g hg
  obtain ⟨group', hgroup', -, hall⟩ := h.indexed key' g hkey'
  rw [List.getElem?_eq_getElem hg] at hgroup'
  cases hgroup'
  have heq : key' = key := Option.some_inj.mp ((hall slot hin).symm.trans hkey)
  rw [heq, hnone] at hkey'
  cases hkey'

/-- The groups after a round have what they had, and the feed at their end or not. -/
theorem MergeStep.flatten (h : MergeStep a c slot key s s') :
    s'.mergeFeeds = s.mergeFeeds ∨ s'.mergeFeeds.flatten.Perm (slot :: s.mergeFeeds.flatten) := by
  cases h with
  | random _ _ hfeeds => exact .inl hfeeds
  | second _ _ _ hfeeds => exact .inl hfeeds
  | join g group _ hgroup hfeeds =>
      right
      rw [hfeeds]
      exact flatten_set_append hgroup slot
  | opens _ hfeeds =>
      right
      rw [hfeeds, List.flatten_append]
      exact List.perm_append_singleton slot _

/-- The heads of the groups stay. -/
theorem MergeStep.heads (hstep : MergeStep a c slot key s s') (hhead : Heads s.mergeFeeds slot') :
    Heads s'.mergeFeeds slot' := by
  obtain ⟨group', hmem, hhead⟩ := hhead
  cases hstep with
  | random _ _ hfeeds => exact ⟨group', hfeeds ▸ hmem, hhead⟩
  | second _ _ _ hfeeds => exact ⟨group', hfeeds ▸ hmem, hhead⟩
  | opens _ hfeeds => exact ⟨group', hfeeds ▸ List.mem_append_left _ hmem, hhead⟩
  | join g group _ hgroup hfeeds =>
      obtain ⟨g', hg', rfl⟩ := List.getElem_of_mem hmem
      by_cases hsame : g = g'
      · subst hsame
        rw [List.getElem?_eq_getElem hg'] at hgroup
        cases hgroup
        refine ⟨s.mergeFeeds[g] ++ [slot], ?_, ?_⟩
        · rw [hfeeds]
          exact List.mem_set hg' _
        · rw [List.head?_append, hhead]
          rfl
      · refine ⟨s.mergeFeeds[g'], ?_, hhead⟩
        rw [hfeeds]
        refine List.mem_iff_getElem?.mpr ⟨g', ?_⟩
        rw [List.getElem?_set_ne hsame, List.getElem?_eq_getElem hg']

theorem MergeStep.mem_or (hstep : MergeStep a c slot key s s')
    (hin : slot' ∈ s'.mergeFeeds.flatten) : slot' = slot ∨ slot' ∈ s.mergeFeeds.flatten := by
  rcases hstep.flatten with hsame | hperm
  · exact .inr (hsame ▸ hin)
  · exact List.mem_cons.mp (hperm.mem_iff.mp hin)

theorem MergeStep.mem (hstep : MergeStep a c slot key s s') (hin : slot' ∈ s.mergeFeeds.flatten) :
    slot' ∈ s'.mergeFeeds.flatten := by
  rcases hstep.flatten with hsame | hperm
  · exact hsame ▸ hin
  · exact hperm.mem_iff.mpr (List.mem_cons_of_mem _ hin)

/-- The index goes with the groups. -/
theorem Grouped.indexed_step (h : Grouped r a c s) (hslot : keyAt r slot = some key)
    (hstep : MergeStep a c slot key s s') (key' : ℕ × ℤ) (g' : ℕ)
    (hat : s'.mergeIndex key' = some g') :
    ∃ group, s'.mergeFeeds[g']? = some group ∧ group ≠ [] ∧ ∀ i ∈ group, keyAt r i = some key' := by
  cases hstep with
  | random _ _ hfeeds hindex =>
      rw [hfeeds]
      exact h.indexed key' g' (hindex ▸ hat)
  | second _ _ _ hfeeds hindex =>
      rw [hfeeds]
      exact h.indexed key' g' (hindex ▸ hat)
  | join g group hsome hgroup hfeeds hindex =>
      rw [hindex] at hat
      rw [hfeeds]
      obtain ⟨group', hgroup', hne, hall⟩ := h.indexed key' g' hat
      by_cases hsame : g = g'
      · subst hsame
        rw [hgroup] at hgroup'
        cases hgroup'
        obtain ⟨_, hgroup₂, -, hall₂⟩ := h.indexed key g hsome
        rw [hgroup] at hgroup₂
        cases hgroup₂
        -- the group is not empty, so it has one key
        have hkey : key = key' := by
          obtain ⟨i, hi⟩ := List.exists_mem_of_ne_nil group hne
          exact Option.some_inj.mp ((hall₂ i hi).symm.trans (hall i hi))
        obtain ⟨hg, -⟩ := List.getElem?_eq_some_iff.mp hgroup
        refine ⟨group ++ [slot], List.getElem?_set_self hg, ?_, fun i hi => ?_⟩
        · exact List.append_ne_nil_of_left_ne_nil hne _
        · rcases List.mem_append.mp hi with hi | hi
          · exact hall i hi
          · rw [List.mem_singleton.mp hi, hslot, hkey]
      · rw [List.getElem?_set_ne hsame]
        exact ⟨group', hgroup', hne, hall⟩
  | opens hnone hfeeds hindex =>
      rw [hindex] at hat
      rw [hfeeds]
      by_cases hkey : key' = key
      · subst hkey
        rw [update_self] at hat
        cases hat
        refine ⟨[slot], List.getElem?_concat_length, List.cons_ne_nil _ _, fun i hi => ?_⟩
        rw [List.mem_singleton.mp hi, hslot]
      · rw [update_of_ne hkey] at hat
        obtain ⟨group', hgroup', hne, hall⟩ := h.indexed key' g' hat
        obtain ⟨hg, -⟩ := List.getElem?_eq_some_iff.mp hgroup'
        refine ⟨group', ?_, hne, hall⟩
        rw [List.getElem?_append_left hg, hgroup']

theorem Grouped.keyed_step (h : Grouped r a c s) (hstep : MergeStep a c slot key s s') (g' : ℕ)
    (hg' : g' < s'.mergeFeeds.length) : ∃ key', s'.mergeIndex key' = some g' := by
  cases hstep with
  | random _ _ hfeeds hindex =>
      rw [hindex]
      exact h.keyed g' (hfeeds ▸ hg')
  | second _ _ _ hfeeds hindex =>
      rw [hindex]
      exact h.keyed g' (hfeeds ▸ hg')
  | join g group _ _ hfeeds hindex =>
      rw [hfeeds, List.length_set] at hg'
      rw [hindex]
      exact h.keyed g' hg'
  | opens hnone hfeeds hindex =>
      rw [hfeeds, List.length_append, List.length_singleton] at hg'
      rw [hindex]
      rcases Nat.lt_succ_iff_lt_or_eq.mp hg' with hlt | rfl
      · obtain ⟨key', hkey'⟩ := h.keyed g' hlt
        refine ⟨key', ?_⟩
        rw [update_of_ne, hkey']
        rintro rfl
        rw [hnone] at hkey'
        cases hkey'
      · exact ⟨key, update_self _ _ _⟩

theorem Grouped.not_mem (h : Grouped r a c s) (hc : c < maxCount) :
    r.newest c ∉ s.mergeFeeds.flatten := by
  intro hin
  obtain ⟨d, hd, heq⟩ := h.read _ hin
  have := r.newest_inj hc (Nat.lt_trans hd hc) heq
  omega

theorem Grouped.edm_step (h : Grouped r a c s) (hc : c < maxCount)
    (hstep : MergeStep a c (r.newest c) key s s') (hget : s'.getEdm = true) :
    ∃ d, d < c + 1 ∧ EdmAt r a d ∧ Heads s'.mergeFeeds (r.newest d) := by
  have hold : s.getEdm = true → ∃ d, d < c + 1 ∧ EdmAt r a d ∧ Heads s'.mergeFeeds (r.newest d) := by
    intro hget
    obtain ⟨d, hd, hat, hhead⟩ := h.edm hget
    exact ⟨d, Nat.lt_succ_of_lt hd, hat, hstep.heads hhead⟩
  cases hstep with
  | random _ _ _ _ hedm => exact hold (hedm ▸ hget)
  | second _ _ _ _ _ hedm => exact hold (hedm ▸ hget)
  | join _ _ _ _ _ _ hedm => exact hold (hedm ▸ hget)
  | opens _ hfeeds _ hedm =>
      rcases hedm hget with hget | hat
      · exact hold hget
      · refine ⟨c, Nat.lt_succ_self c, ?_, [r.newest c], ?_, rfl⟩
        · unfold EdmAt
          rw [← h.unread c (Nat.le_refl c) hc]
          exact hat
        · rw [hfeeds]
          exact List.mem_append_right _ List.mem_cons_self

/-- The reasons stay. -/
theorem MergeStep.leftOut (hstep : MergeStep a c (r.newest c) key s s') (hc : c < maxCount)
    (hd : d < c) (hleft : LeftOut r a s.mergeFeeds d) : LeftOut r a s'.mergeFeeds d := by
  rcases hleft with hrandom | hsecond
  · exact .inl hrandom
  · obtain ⟨d₀, hlt, hat, hhead⟩ := hsecond.first
    refine .inr ⟨hsecond.edm, fun d' hd' hin => hsecond.opens d' hd' ?_, d₀, hlt, hat, hstep.heads hhead⟩
    rcases hstep.mem_or hin with heq | hin
    · have := r.newest_inj (by omega) hc heq
      omega
    · exact hin

/-- A feed that one turn leaves out stays out. -/
theorem Grouped.left_step (h : Grouped r a c s) (hc : c < maxCount)
    (hslot : keyAt r (r.newest c) = some key) (hstep : MergeStep a c (r.newest c) key s s') (d : ℕ)
    (hd : d < c + 1) (hout : r.newest d ∉ s'.mergeFeeds.flatten) : LeftOut r a s'.mergeFeeds d := by
  rcases Nat.lt_succ_iff_lt_or_eq.mp hd with hlt | rfl
  · exact hstep.leftOut hc hlt (h.left d hlt fun hin => hout (hstep.mem hin))
  · have hunread := h.unread d (Nat.le_refl d) hc
    have hout' := fun hperm : s'.mergeFeeds.flatten.Perm (r.newest d :: s.mergeFeeds.flatten) =>
      hout (hperm.mem_iff.mpr List.mem_cons_self)
    cases hstep with
    | random hfirst hrandom => exact .inl ⟨hfirst, hunread ▸ hrandom⟩
    | second hnone hat hhas hfeeds _ _ =>
        obtain ⟨d₀, hd₀, hat₀, hhead⟩ := h.edm hhas
        right
        rw [hfeeds]
        refine ⟨?_, fun d' _ hin => ?_, d₀, hd₀, hat₀, hhead⟩
        · unfold EdmAt
          rw [← hunread]
          exact hat
        · rw [hslot]
          exact h.key_ne hnone hin
    | join g group hsome hgroup hfeeds hindex hedm =>
        exact absurd (hfeeds ▸ flatten_set_append hgroup _) hout'
    | opens _ hfeeds =>
        refine absurd ?_ hout'
        rw [hfeeds, List.flatten_append]
        exact List.perm_append_singleton _ _

/-- **A round keeps the groups in order.** -/
theorem Grouped.step (h : Grouped r a c s) (hc : c < maxCount) (hslot : keyAt r (r.newest c) = some key)
    (halign : s'.Aligned) (hretimed : Retimed (r.newest c) s.feeds s'.feeds)
    (hstep : MergeStep a c (r.newest c) key s s') : Grouped r a (c + 1) s' where
  aligned := halign
  feed i := (hretimed.feed i).trans (h.feed i)
  unread d hd hdm := by
    have hne : r.newest d ≠ r.newest c := fun heq => by
      have := r.newest_inj hdm hc heq
      omega
    exact (hretimed.other _ hne).trans (h.unread d (Nat.le_of_succ_le hd) hdm)
  indexed := h.indexed_step hslot hstep
  keyed := h.keyed_step hstep
  nodup := by
    rcases hstep.flatten with hsame | hperm
    · rw [hsame]
      exact h.nodup
    · exact hperm.nodup_iff.mpr (List.nodup_cons.mpr ⟨h.not_mem hc, h.nodup⟩)
  read slot hin := by
    rcases hstep.mem_or hin with rfl | hin
    · exact ⟨c, Nat.lt_succ_self c, rfl⟩
    · obtain ⟨d, hd, heq⟩ := h.read slot hin
      exact ⟨d, Nat.lt_succ_of_lt hd, heq⟩
  edm := h.edm_step hc hstep
  left := h.left_step hc hslot hstep

/-- The rounds that are left. -/
theorem Grouped.loop (hcomment : a.getcomment = true) (n : ℕ) (hn : c + n ≤ maxCount)
    (hfilled : ∀ d, d < c + n → (r.feeds (r.newest d)).feed.isSome = true) (h : Grouped r a c s) :
    ∃ s', mergeLoop r a n c s = some s' ∧ Grouped r a (c + n) s' := by
  induction n generalizing c s with
  | zero => exact ⟨s, rfl, h⟩
  | succ n ih =>
      obtain ⟨feed, hfeed⟩ := Option.isSome_iff_exists.mp (hfilled c (by omega))
      have hkey : keyAt r (r.newest c) = some feed.mergeKey := by
        unfold keyAt
        rw [hfeed]
        rfl
      obtain ⟨s₁, hs₁, halign, hretimed, hstep⟩ := mergeAt_spec (c := c) hcomment h.aligned
        (fun key g hat => (h.indexed key g hat).imp fun _ hgroup => hgroup.1) ((h.feed _).trans hfeed)
      have hnext : c + (n + 1) = c + 1 + n := by omega
      rw [hnext] at hn hfilled ⊢
      obtain ⟨s', hs', h'⟩ := ih hn hfilled (h.step (by omega) hkey halign hretimed hstep)
      refine ⟨s', ?_, h'⟩
      unfold mergeLoop
      rw [hs₁]
      exact hs'

theorem grouped_zero (r : LiveFeedRing) (a : MergeArgs) (edmCount : ℤ) :
    Grouped r a 0 ⟨r.feeds, [], [], [], [], [], [], fun _ => none, false, edmCount⟩ where
  aligned := ⟨rfl, rfl, rfl, rfl, rfl⟩
  feed _ := rfl
  unread _ _ _ := rfl
  indexed _ _ h := nomatch h
  keyed _ h := absurd h (Nat.not_lt_zero _)
  nodup := List.nodup_nil
  read _ h := nomatch h
  edm h := nomatch h
  left _ h := absurd h (Nat.not_lt_zero _)

/-- The feeds from the newest down are those of the list from its end. -/
theorem Keeps.newest_place (h : Keeps r l) (hd : d < l.length) :
    r.newest d = place r.endPos l.length (l.length - 1 - d) := by
  have hle := h.le
  unfold newest place maxCount at *
  omega

theorem Keeps.filled_newest (h : Keeps r l) (hd : d < l.length) :
    (r.feeds (r.newest d)).feed.isSome = true := by
  have hlt : l.length - 1 - d < l.length := by omega
  rw [h.newest_place hd, h.slots _ _ (List.getElem?_eq_getElem hlt)]
  exact h.filled _ (List.getElem_mem hlt)

/-- **`MergeFeed` puts the feeds into groups.** -/
theorem Keeps.mergeFeed (h : Keeps r l) (hcomment : a.getcomment = true) (edmCount : ℤ) :
    ∃ m, r.mergeFeed a edmCount = some m ∧ Grouped r a l.length m := by
  have hsize : r.size.toNat = l.length := by
    rw [h.size]
    rfl
  have hle := h.le
  rw [← Nat.zero_add l.length] at hle ⊢
  unfold LiveFeedRing.mergeFeed
  rw [hsize]
  exact Grouped.loop hcomment l.length hle (fun d hd => h.filled_newest (Nat.zero_add l.length ▸ hd))
    (grouped_zero r a edmCount)

end Rounds

end LiveFeedRing

end Oce.FeedNews
