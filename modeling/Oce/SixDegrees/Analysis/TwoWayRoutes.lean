import Mathlib.Data.List.Nodup
import Oce.Base.AscSeq
import Oce.SixDegrees.Analysis.Pairs

/-!
# The two-way search against the plain one

In two vectors that are strictly ascending the loop never leaves its two ranges and comes to an end,
and the pairs it finds are those of the plain search for every element of the one side in the
other: what it leaps over on either side meets nothing on the other.
-/

set_option autoImplicit false

namespace Oce.SixDegrees

open Base

variable {α : Type} {key : α → ℤ} {l as bs low high : List α} {a b e : α} {x : ℤ}
  {first last n ia ib iaEnd ibEnd fuel : ℕ} {found : List (α × α)}

/-! ## Ranges -/

/-- Strictly ascending by the numbers of the elements. -/
def StrictBy (key : α → ℤ) (l : List α) : Prop := l.Pairwise fun x y => key x < key y

instance (key : α → ℤ) (l : List α) : Decidable (StrictBy key l) :=
  inferInstanceAs (Decidable (l.Pairwise fun x y => key x < key y))

theorem StrictBy.sortedBy (h : StrictBy key l) : SortedBy key l :=
  h.imp fun hlt => Int.le_of_lt hlt

theorem StrictBy.range (h : StrictBy key l) (first last : ℕ) : StrictBy key (range l first last) :=
  List.Pairwise.sublist ((List.drop_sublist _ _).trans (List.take_sublist _ _)) h

/-! ## The plain search -/

/-- For each element of the one side the first of the other with its number. -/
def meet (key : α → ℤ) (as bs : List α) : List (α × α) :=
  as.filterMap fun a => (bs.find? fun b => key b = key a).map fun b => (a, b)

theorem meet_append (low as bs : List α) : meet key (low ++ as) bs = meet key low bs ++ meet key as bs :=
  List.filterMap_append

theorem meet_eq_nil (h : ∀ a ∈ as, ∀ b ∈ bs, key b ≠ key a) : meet key as bs = [] := by
  unfold meet
  rw [List.filterMap_eq_nil_iff]
  intro a ha
  have hnone : (bs.find? fun b => key b = key a) = none := by
    rw [List.find?_eq_none]
    intro b hb
    simpa using h a ha b hb
  rw [hnone]
  rfl

theorem meet_nil_left (bs : List α) : meet key [] bs = [] := rfl

theorem meet_nil_right (as : List α) : meet key as [] = [] :=
  meet_eq_nil fun _ _ _ hb => absurd hb List.not_mem_nil

/-- What meets nothing of the other side can be left out on the one side. -/
theorem meet_left (h : ∀ a ∈ low, ∀ b ∈ bs, key b ≠ key a) (as : List α) :
    meet key (low ++ as) bs = meet key as bs := by
  rw [meet_append, meet_eq_nil h, List.nil_append]

theorem find?_eq_none_of_ne (h : ∀ b ∈ bs, key b ≠ key a) : (bs.find? fun b => key b = key a) = none := by
  rw [List.find?_eq_none]
  intro b hb
  simpa using h b hb

theorem meet_right_low (h : ∀ a ∈ as, ∀ b ∈ low, key b ≠ key a) (bs : List α) :
    meet key as (low ++ bs) = meet key as bs := by
  unfold meet
  apply List.filterMap_congr
  intro a ha
  rw [List.find?_append, find?_eq_none_of_ne (h a ha), Option.none_or]

theorem meet_right_high (h : ∀ a ∈ as, ∀ b ∈ high, key b ≠ key a) (bs : List α) :
    meet key as (bs ++ high) = meet key as bs := by
  unfold meet
  apply List.filterMap_congr
  intro a ha
  rw [List.find?_append, find?_eq_none_of_ne (h a ha), Option.or_none]

/-- Two first elements of one number meet, and nothing else meets them. -/
theorem meet_cons (heq : key b = key a) (h : StrictBy key (a :: as)) (bs : List α) :
    meet key (a :: as) (b :: bs) = (a, b) :: meet key as bs := by
  have hrest : meet key as ([b] ++ bs) = meet key as bs := by
    apply meet_right_low
    intro a' ha' b' hb'
    have hlt := List.rel_of_pairwise_cons h ha'
    rw [List.mem_singleton.mp hb']
    omega
  have hfirst : meet key [a] (b :: bs) = [(a, b)] := by
    unfold meet
    simp [heq]
  calc meet key (a :: as) (b :: bs) = meet key [a] (b :: bs) ++ meet key as ([b] ++ bs) :=
        meet_append [a] as (b :: bs)
    _ = (a, b) :: meet key as bs := by rw [hfirst, hrest]; rfl

/-! ## The loop -/

/-- **The loop finds what the plain search does**, in its ranges and in as many rounds as the one
side has elements. -/
theorem twoWayLoop_eq (has : StrictBy key as) (hbs : StrictBy key bs) (hia : ia ≤ iaEnd)
    (hiaEnd : iaEnd ≤ as.length) (hib : ib ≤ ibEnd) (hibEnd : ibEnd ≤ bs.length)
    (hfuel : iaEnd - ia ≤ fuel) (found : List (α × α)) :
    twoWayLoop key as bs iaEnd ibEnd fuel ia ib found =
      some (found ++ meet key (range as ia iaEnd) (range bs ib ibEnd)) := by
  induction fuel generalizing ia ib found with
  | zero =>
      obtain rfl : ia = iaEnd := by omega
      rw [twoWayLoop, if_pos rfl, range_self, meet_nil_left, List.append_nil]
  | succ fuel ih =>
      unfold twoWayLoop
      by_cases hend : ia = iaEnd
      · subst hend
        rw [if_pos rfl, range_self, meet_nil_left, List.append_nil]
      rw [if_neg hend]
      have hlt : ia < iaEnd := by omega
      obtain ⟨a, hgeta, hrangea⟩ := range_cons hlt hiaEnd
      have hstricta := has.range ia iaEnd
      rw [hrangea] at hstricta
      have hfirst : ∀ e ∈ range as ia iaEnd, key a ≤ key e := by
        rw [hrangea]
        intro e he
        cases he with
        | head => exact Int.le_refl _
        | tail _ he => exact Int.le_of_lt (List.rel_of_pairwise_cons hstricta he)
      obtain ⟨ib', hbound, hib', hib'End, hlow, hhigh⟩ := boundIn_spec hbs.sortedBy hib hibEnd (key a)
      -- what the search leaps over is below all that is left of the one side
      have hleap : meet key (range as ia iaEnd) (range bs ib ibEnd) =
          meet key (range as ia iaEnd) (range bs ib' ibEnd) := by
        rw [← range_append hib' hib'End hibEnd]
        apply meet_right_low
        intro e he b hb
        have hbelow := hlow b hb
        have habove := hfirst e he
        omega
      rw [hleap, hgeta]
      simp only [Option.bind_eq_bind, Option.bind_some, hbound]
      by_cases hendb : ib' = ibEnd
      · subst hendb
        rw [if_pos rfl, range_self, meet_nil_right, List.append_nil]
      rw [if_neg hendb]
      have hltb : ib' < ibEnd := by omega
      obtain ⟨b, hgetb, hrangeb⟩ := range_cons hltb hibEnd
      have hstrictb := hbs.range ib' ibEnd
      rw [hrangeb] at hstrictb hhigh
      have hable : key a ≤ key b := hhigh b List.mem_cons_self
      rw [hgetb]
      simp only [Option.bind_some]
      by_cases heq : key b = key a
      · rw [if_pos heq, ih (by omega) (by omega) (by omega), hrangea, hrangeb,
          meet_cons heq hstricta, List.append_assoc]
        rfl
      rw [if_neg heq]
      obtain ⟨ia', hbound', hia', hia'End, hlow', hhigh'⟩ := boundIn_spec has.sortedBy hia hiaEnd (key b)
      -- and the other way round
      have hleap' : meet key (range as ia iaEnd) (range bs ib' ibEnd) =
          meet key (range as ia' iaEnd) (range bs ib' ibEnd) := by
        rw [← range_append hia' hia'End hiaEnd, hrangeb]
        apply meet_left
        intro e he e' he'
        have hbelow := hlow' e he
        cases he' with
        | head => omega
        | tail _ he' =>
            have habove := List.rel_of_pairwise_cons hstrictb he'
            omega
      have hpassed : ia < ia' := by
        by_contra hstay
        obtain rfl : ia' = ia := by omega
        have habove := hhigh' a (hrangea ▸ List.mem_cons_self)
        omega
      rw [hleap', hbound']
      simp only [Option.bind_some]
      by_cases hend' : ia' = iaEnd
      · rw [if_pos hend', ih hia'End hib'End (by omega)]
      rw [if_neg hend']
      have hlt' : ia' < iaEnd := by omega
      obtain ⟨a', hgeta', hrangea'⟩ := range_cons hlt' hiaEnd
      have hstricta' := has.range ia' iaEnd
      rw [hrangea'] at hstricta'
      rw [hgeta']
      simp only [Option.bind_some]
      by_cases heq' : key a' = key b
      · rw [if_pos heq', ih (by omega) (by omega) (by omega), hrangea', hrangeb,
          meet_cons heq'.symm hstricta', List.append_assoc]
        rfl
      · rw [if_neg heq', ih hia'End hib'End (by omega)]

/-! ## The last elements -/

theorem StrictBy.le_last (h : StrictBy key l) (hlast : l.getLast? = some e) : ∀ a ∈ l, key a ≤ key e := by
  obtain ⟨front, rfl⟩ := List.getLast?_eq_some_iff.mp hlast
  intro a ha
  obtain ha | ha := List.mem_append.mp ha
  · exact Int.le_of_lt ((List.pairwise_append.mp h).2.2 a ha e List.mem_cons_self)
  · rw [List.mem_singleton.mp ha]

/-- In a strictly ascending side an element is found by its number. -/
theorem StrictBy.find?_eq (h : StrictBy key bs) (hb : b ∈ bs) (heq : key b = key a) :
    (bs.find? fun b => key b = key a) = some b := by
  induction bs with
  | nil => cases hb
  | cons c bs ih =>
      cases hb with
      | head => exact List.find?_cons_of_pos (by simpa using heq)
      | tail _ hb =>
          have hlt := List.rel_of_pairwise_cons h hb
          rw [List.find?_cons_of_neg (by simp; omega)]
          exact ih h.of_cons hb

theorem meet_singleton (h : StrictBy key bs) (hb : b ∈ bs) (heq : key b = key a) :
    meet key [a] bs = [(a, b)] := by
  unfold meet
  rw [List.filterMap_cons, h.find?_eq hb heq]
  rfl

/-- What the last element of the one side meets is looked at apart. -/
theorem meet_last_left (has : StrictBy key as) (hbs : StrictBy key bs) (hn : n ≤ as.length)
    (hlast : bs.getLast? = some b) (hhigh : ∀ e ∈ range as n as.length, key b ≤ key e) :
    lastPair key as n (key b) (fun a => (a, b)) = some (meet key (range as n as.length) bs) := by
  have hle := hbs.le_last hlast
  unfold lastPair
  by_cases hend : n = as.length
  · subst hend
    rw [if_pos rfl, range_self, meet_nil_left]
  · obtain ⟨a, hget, hrange⟩ := range_cons (by omega : n < as.length) (Nat.le_refl _)
    have hstrict := has.range n as.length
    rw [hrange] at hstrict hhigh
    have hba := hhigh a List.mem_cons_self
    rw [if_neg hend, hget, Option.map_some, hrange]
    have hrest : meet key (range as (n + 1) as.length) bs = [] := by
      apply meet_eq_nil
      intro e he b' hb'
      have hlt := List.rel_of_pairwise_cons hstrict he
      have hle' := hle b' hb'
      omega
    by_cases heq : key a = key b
    · have hone := meet_singleton hbs (List.mem_of_getLast? hlast) heq.symm
      rw [if_pos heq, show a :: range as (n + 1) as.length = [a] ++ range as (n + 1) as.length from rfl,
        meet_append, hone, hrest, List.append_nil]
    · rw [if_neg heq, meet_eq_nil]
      intro e he b' hb'
      have hle' := hle b' hb'
      cases he with
      | head => omega
      | tail _ he =>
          have hlt := List.rel_of_pairwise_cons hstrict he
          omega

theorem meet_last_right (hbs : StrictBy key bs) (hn : n ≤ bs.length)
    (hhigh : ∀ e ∈ range bs n bs.length, key a ≤ key e) :
    lastPair key bs n (key a) (fun b => (a, b)) = some (meet key [a] (range bs n bs.length)) := by
  unfold lastPair
  by_cases hend : n = bs.length
  · subst hend
    rw [if_pos rfl, range_self, meet_nil_right]
  · obtain ⟨b, hget, hrange⟩ := range_cons (by omega : n < bs.length) (Nat.le_refl _)
    have hstrict := hbs.range n bs.length
    rw [hrange] at hstrict hhigh
    have hab := hhigh b List.mem_cons_self
    rw [if_neg hend, hget, Option.map_some, hrange]
    by_cases heq : key b = key a
    · rw [if_pos heq, meet_singleton hstrict List.mem_cons_self heq]
    · rw [if_neg heq, meet_eq_nil]
      intro e he b' hb'
      rw [List.mem_singleton.mp he]
      cases hb' with
      | head => exact heq
      | tail _ hb' =>
          have hlt := List.rel_of_pairwise_cons hstrict hb'
          omega

/-- **The two-way search comes to its end within its ranges and finds what the plain one does.** -/
theorem twoWay_perm (has : StrictBy key as) (hbs : StrictBy key bs) (ha : as ≠ []) (hb : bs ≠ [])
    (hfuel : as.length ≤ fuel) :
    ∃ found, twoWay key fuel as bs = some found ∧ found.Perm (meet key as bs) := by
  obtain ⟨backA, hbackA⟩ : ∃ e, as.getLast? = some e := ⟨_, List.getLast?_eq_some_getLast ha⟩
  obtain ⟨backB, hbackB⟩ : ∃ e, bs.getLast? = some e := ⟨_, List.getLast?_eq_some_getLast hb⟩
  unfold twoWay
  rw [hbackA, hbackB]
  simp only [Option.bind_eq_bind, Option.bind_some]
  by_cases hlt : key backB < key backA
  · obtain ⟨iaEnd, hbound, -, hle, -, hhigh⟩ := boundIn_spec has.sortedBy (Nat.zero_le _) (Nat.le_refl _) (key backB)
    rw [if_pos hlt, hbound]
    simp only [Option.bind_some]
    rw [meet_last_left has hbs hle hbackB hhigh]
    simp only [Option.bind_some]
    rw [twoWayLoop_eq has hbs (Nat.zero_le _) hle (Nat.zero_le _) (Nat.le_refl _) (by omega), range_full]
    refine ⟨_, rfl, List.perm_append_comm.trans (.of_eq ?_)⟩
    rw [← meet_append, range_append (Nat.zero_le _) hle (Nat.le_refl _), range_full]
  · obtain ⟨ibEnd, hbound, -, hle, hlow, hhigh⟩ :=
      boundIn_spec hbs.sortedBy (Nat.zero_le _) (Nat.le_refl _) (key backA)
    rw [if_neg hlt, hbound]
    simp only [Option.bind_some]
    rw [meet_last_right hbs hle hhigh]
    simp only [Option.bind_some]
    rw [twoWayLoop_eq has hbs (Nat.zero_le _) (Nat.le_refl _) (Nat.zero_le _) hle (by omega), range_full]
    refine ⟨_, rfl, List.perm_append_comm.trans (.of_eq ?_)⟩
    obtain ⟨front, rfl⟩ := List.getLast?_eq_some_iff.mp hbackA
    have hfront : ∀ a ∈ front, key a < key backA := fun a ha =>
      (List.pairwise_append.mp has).2.2 a ha backA List.mem_cons_self
    have hsplit := range_append (l := bs) (Nat.zero_le ibEnd) hle (Nat.le_refl _)
    rw [range_full] at hsplit
    have hnone : meet key [backA] (range bs 0 ibEnd) = [] := by
      apply meet_eq_nil
      intro a ha b hb
      have hbelow := hlow b hb
      rw [List.mem_singleton.mp ha]
      omega
    calc meet key (front ++ [backA]) (range bs 0 ibEnd) ++ meet key [backA] (range bs ibEnd bs.length)
        = meet key front (range bs 0 ibEnd) ++ meet key [backA] (range bs ibEnd bs.length) := by
          rw [meet_append, hnone, List.append_nil]
      _ = meet key front (range bs 0 ibEnd ++ range bs ibEnd bs.length) ++
            meet key [backA] (range bs 0 ibEnd ++ range bs ibEnd bs.length) := by
          rw [meet_right_high, meet_right_low]
          · intro a ha b hb
            have hbelow := hlow b hb
            rw [List.mem_singleton.mp ha]
            omega
          · intro a ha b hb
            have hbelow := hfront a ha
            have habove := hhigh b hb
            omega
      _ = meet key (front ++ [backA]) bs := by rw [hsplit, meet_append]

/-! ## Routes and pairs -/

theorem meet_map_fst (key : α → ℤ) (as bs : List α) :
    (meet key as bs).map Prod.fst = as.filter fun a => bs.any fun b => key b = key a := by
  induction as with
  | nil => rfl
  | cons a as ih =>
      rw [← List.singleton_append, meet_append, List.map_append, ih, List.filter_append]
      congr 1
      unfold meet
      cases hfind : bs.find? fun b => key b = key a with
      | none =>
          have hnone : (bs.any fun b => key b = key a) = false := by
            rw [List.any_eq_false]
            exact List.find?_eq_none.mp hfind
          simp [hfind, hnone]
      | some b =>
          have heq := List.find?_some hfind
          have hsome : (bs.any fun b => key b = key a) = true :=
            List.any_eq_true.mpr ⟨b, List.mem_of_find?_eq_some hfind, heq⟩
          simp [hfind, hsome]

theorem mem_meet {p : α × α} (h : p ∈ meet key as bs) : p.1 ∈ as ∧ p.2 ∈ bs ∧ key p.1 = key p.2 := by
  unfold meet at h
  obtain ⟨a, ha, hp⟩ := List.mem_filterMap.mp h
  rw [Option.map_eq_some_iff] at hp
  obtain ⟨b, hfind, rfl⟩ := hp
  have heq := List.find?_some hfind
  rw [decide_eq_true_eq] at heq
  exact ⟨ha, List.mem_of_find?_eq_some hfind, heq.symm⟩

theorem hasFriend_iff {friends : List ℤ} (h : friends.Pairwise (· < ·)) {f : ℤ} :
    hasFriend friends f = true ↔ f ∈ friends := by
  unfold hasFriend
  rw [decide_eq_true_eq, ← List.head?_drop, drop_bisect (Base.parted_lt h f)]
  exact AscSeq.head?_lowerBound h

/-- The plain routes are those over the plain search. -/
theorem hasCommonFriend_eq {A B : List ℤ} (hA : A ≠ []) (hB : B ≠ []) (hb : B.Pairwise (· < ·))
    (id1 id2 : ℤ) : hasCommonFriend id1 id2 A B = (meet id A B).map fun p => [id1, p.1, id2] := by
  have hmap : (meet id A B).map (fun p => [id1, p.1, id2]) =
      ((meet id A B).map Prod.fst).map fun f => [id1, f, id2] := by
    rw [List.map_map]
    rfl
  unfold hasCommonFriend
  rw [if_neg (by simp [hA, hB]), hmap, meet_map_fst]
  congr 1
  apply List.filter_congr
  intro a _
  rw [Bool.eq_iff_iff, hasFriend_iff hb]
  simp

/-! ## Agreement -/

/-- A call of the fast search with the friends `A` and `B` gives the routes of the plain one, each
once and none else. -/
structure SameRoutes (A B : List ℤ) : Prop where
  same : ∀ routList id1 id2 fuel, A.length ≤ fuel → ∃ new,
    FriendsCompare.hasCommonFriendNew fuel routList id1 id2 A B = some (routList ++ new) ∧ new.Nodup ∧
      (routList ++ new).Perm (FriendsCompare.hasCommonFriend routList id1 id2 A B)

/-- The pairs of the entries `A` and `B` that are tried: those of each common node, once. -/
structure EachNodeOnce (A B : List IndexInfo) : Prop where
  once : ∀ fuel, A.length ≤ fuel → ∃ tried,
    FriendsCompareSixDegreesNew.comparePrivate fuel A B = some tried ∧
      (tried.map fun p => p.1.id).Nodup ∧ (∀ p ∈ tried, p.1 ∈ A ∧ p.2 ∈ B ∧ p.1.id = p.2.id) ∧
      ∀ i, (∃ p ∈ tried, p.1.id = i) ↔ HasId A i ∧ HasId B i

theorem sameRoutes {A B : List ℤ} (hA : A ≠ []) (hB : B ≠ []) (ha : A.Pairwise (· < ·))
    (hb : B.Pairwise (· < ·)) : SameRoutes A B := by
  constructor
  intro routList id1 id2 fuel hfuel
  have ha' : StrictBy id A := ha
  have hb' : StrictBy id B := hb
  obtain ⟨found, hfound, hperm⟩ := twoWay_perm ha' hb' hA hB hfuel
  have hroutes : (found.map fun p => [id1, p.1, id2]).Perm (hasCommonFriend id1 id2 A B) := by
    rw [hasCommonFriend_eq hA hB hb]
    exact hperm.map _
  refine ⟨found.map fun p => [id1, p.1, id2], ?_, ?_, hroutes.append_left routList⟩
  · unfold FriendsCompare.hasCommonFriendNew
    rw [hfound]
    rfl
  · rw [hroutes.nodup_iff]
    unfold hasCommonFriend
    rw [if_neg (by simp [hA, hB])]
    refine List.Nodup.map (fun f g h => ?_) ((ha.imp fun hlt => ne_of_lt hlt).filter _)
    simpa using h

/-- Two strict lists meet each node once. -/
theorem eachNodeOnce {A B : List IndexInfo} (hA : A ≠ []) (hB : B ≠ []) (ha : StrictBy IndexInfo.id A)
    (hb : StrictBy IndexInfo.id B) : EachNodeOnce A B := by
  constructor
  intro fuel hfuel
  obtain ⟨tried, htried, hperm⟩ := twoWay_perm ha hb hA hB hfuel
  have hkeys : ((meet IndexInfo.id A B).map fun p => p.1.id).Nodup := by
    have hmap : ((meet IndexInfo.id A B).map fun p => p.1.id) =
        ((meet IndexInfo.id A B).map Prod.fst).map IndexInfo.id := by
      rw [List.map_map]
      rfl
    rw [hmap, meet_map_fst]
    exact List.pairwise_map.mpr ((ha.sublist List.filter_sublist).imp fun hlt => ne_of_lt hlt)
  refine ⟨tried, htried, (hperm.map _).nodup_iff.mpr hkeys, fun p hp => mem_meet (hperm.mem_iff.mp hp),
    fun i => ?_⟩
  constructor
  · rintro ⟨p, hp, rfl⟩
    obtain ⟨h1, h2, heq⟩ := mem_meet (hperm.mem_iff.mp hp)
    exact ⟨⟨p.1, h1, rfl⟩, p.2, h2, heq.symm⟩
  · rintro ⟨⟨a, hmema, rfl⟩, b, hmemb, heq⟩
    have hmem : a ∈ (meet IndexInfo.id A B).map Prod.fst := by
      rw [meet_map_fst, List.mem_filter]
      exact ⟨hmema, List.any_eq_true.mpr ⟨b, hmemb, decide_eq_true heq⟩⟩
    obtain ⟨p, hp, rfl⟩ := List.mem_map.mp hmem
    exact ⟨p, hperm.mem_iff.mpr hp, rfl⟩

/-- **The fast two-way search and the plain one agree.** -/
theorem twoWay_agrees :
    (∀ A B : List ℤ, A ≠ [] → B ≠ [] → A.Pairwise (· < ·) → B.Pairwise (· < ·) → SameRoutes A B) ∧
      ∀ A B : List IndexInfo, A ≠ [] → B ≠ [] → StrictBy IndexInfo.id A → StrictBy IndexInfo.id B →
        EachNodeOnce A B :=
  ⟨fun _ _ => sameRoutes, fun _ _ => eachNodeOnce⟩

theorem twoWay_agrees_two_friends : SameRoutes [1, 4] [2, 4] ∧
    EachNodeOnce [⟨7, 2, [2]⟩] [⟨7, 1, []⟩, ⟨9, 2, [3]⟩] :=
  ⟨twoWay_agrees.1 [1, 4] [2, 4] (by decide) (by decide) (by decide) (by decide),
    twoWay_agrees.2 [⟨7, 2, [2]⟩] [⟨7, 1, []⟩, ⟨9, 2, [3]⟩] (by simp) (by simp) (by decide) (by decide)⟩

end Oce.SixDegrees
