import Mathlib.Data.List.Pairwise
import Mathlib.Tactic.ByCases
import Mathlib.Tactic.SplitIfs
import Oce.Buddy.Model.MutualFriends

/-!
# The pages and what they leave out

The loop stops at the end of the fans. For the friends who are fans nothing is lost by that, for the
others everything behind the last fan is. So the two kinds of friends make up the friends exactly
when no friend comes behind the last fan.
-/

set_option autoImplicit false

namespace Oce.Buddy

open Oce.Base

variable {both : Bool} {fids uids : List ℤ} {f u uid first stop limit count : ℤ}

/-! ## The loop -/

/-- The friends that the loop comes to count, `fids` being the fans that are left. -/
def counted (both : Bool) (fids : List ℤ) (u : ℤ) : Bool :=
  if both then u ∈ fids else u ∉ fids ∧ ∃ f ∈ fids, u < f

/-- A page of what is counted, one friend on. -/
theorem page_cons (h : count < stop) (u : ℤ) (l : List ℤ) :
    (if first ≤ count then [u] else []) ++
        (l.take (stop - (count + 1)).toNat).drop (first - (count + 1)).toNat =
      ((u :: l).take (stop - count).toNat).drop (first - count).toNat := by
  have hstop : (stop - count).toNat = (stop - (count + 1)).toNat + 1 := by omega
  rw [hstop, List.take_succ_cons]
  by_cases hfirst : first ≤ count
  · have hzero : (first - count).toNat = 0 := by omega
    have hzero' : (first - (count + 1)).toNat = 0 := by omega
    rw [if_pos hfirst, hzero, hzero']
    rfl
  · have hsucc : (first - count).toNat = (first - (count + 1)).toNat + 1 := by omega
    rw [if_neg hfirst, hsucc, List.drop_succ_cons]
    rfl

/-- A fan below all friends counts for nothing. -/
theorem filter_counted_tail (h : ∀ u ∈ uids, f < u) :
    uids.filter (counted both (f :: fids)) = uids.filter (counted both fids) := by
  apply List.filter_congr
  intro u hu
  have hlt := h u hu
  have hne : u ≠ f := by omega
  have hnot : ¬u < f := by omega
  unfold counted
  cases both <;> simp [hne, hnot]

theorem counted_of_lt (hf : (f :: fids).Pairwise (· < ·)) (h : u < f) :
    counted both (f :: fids) u = !both := by
  have hnot : u ∉ f :: fids := by
    intro hmem
    cases hmem with
    | head => omega
    | tail _ hmem =>
        have hlt := List.rel_of_pairwise_cons hf hmem
        omega
  unfold counted
  cases both <;> simp [hnot, h]

theorem counted_self (f : ℤ) (fids : List ℤ) : counted both (f :: fids) f = both := by
  unfold counted
  cases both <;> simp

/-- **What the loop returns**: of the friends it counts, those from `first` on and before `stop`. -/
theorem pageLoop_eq (hf : fids.Pairwise (· < ·)) (hu : uids.Pairwise (· < ·)) (count : ℤ) :
    pageLoop both first stop fids uids count =
      ((uids.filter (counted both fids)).take (stop - count).toNat).drop (first - count).toNat := by
  induction fids, uids, count using pageLoop.induct both stop with
  | case1 f fids u uids count hcount hfu ih =>
      have hall : ∀ x ∈ u :: uids, f < x := by
        intro x hx
        cases hx with
        | head => exact hfu
        | tail _ hx => exact Int.lt_trans hfu (List.rel_of_pairwise_cons hu hx)
      rw [pageLoop, if_pos hcount, if_pos hfu, ih hf.of_cons hu, filter_counted_tail hall]
  | case2 f fids u uids count hcount hfu huf hboth ih =>
      rw [pageLoop, if_pos hcount, if_neg hfu, if_pos huf, if_pos hboth, ih hf hu.of_cons,
        List.filter_cons_of_neg (by rw [counted_of_lt hf huf]; simp [hboth])]
  | case3 f fids u uids count hcount hfu huf hboth ih =>
      rw [pageLoop, if_pos hcount, if_neg hfu, if_pos huf, if_neg hboth, ih hf hu.of_cons,
        List.filter_cons_of_pos (by rw [counted_of_lt hf huf]; simpa using hboth), page_cons hcount]
  | case4 f fids u uids count hcount hfu huf hboth ih =>
      obtain rfl : f = u := by omega
      have hall : ∀ x ∈ uids, f < x := fun x hx => List.rel_of_pairwise_cons hu hx
      rw [pageLoop, if_pos hcount, if_neg hfu, if_neg huf, if_pos hboth, ih hf.of_cons hu.of_cons,
        List.filter_cons_of_pos (by rw [counted_self]; exact hboth), page_cons hcount,
        filter_counted_tail hall]
  | case5 f fids u uids count hcount hfu huf hboth ih =>
      obtain rfl : f = u := by omega
      have hall : ∀ x ∈ uids, f < x := fun x hx => List.rel_of_pairwise_cons hu hx
      rw [pageLoop, if_pos hcount, if_neg hfu, if_neg huf, if_neg hboth, ih hf.of_cons hu.of_cons,
        List.filter_cons_of_neg (by rw [counted_self]; exact hboth), filter_counted_tail hall]
  | case6 f fids u uids count hcount =>
      have hzero : (stop - count).toNat = 0 := by omega
      rw [pageLoop, if_neg hcount, hzero, List.take_zero, List.drop_nil]
  | case7 fids uids count hnot =>
      have hnone : uids.filter (counted both fids) = [] := by
        cases fids with
        | nil =>
            rw [List.filter_eq_nil_iff]
            intro u _
            unfold counted
            cases both <;> simp
        | cons f fids =>
            cases uids with
            | nil => rfl
            | cons u uids => exact absurd rfl (hnot f fids u uids rfl)
      rw [pageLoop, hnone, List.take_nil, List.drop_nil]
      intro f fids' u uids' hfids huids
      exact hnot f fids' u uids' hfids huids

/-! ## The requests -/

/-- The items from `first` on, at most `limit` of them, or all for `-1`. -/
def page (first limit : ℤ) (l : List ℤ) : List ℤ :=
  if limit = -1 then l.drop first.toNat else (l.drop first.toNat).take limit.toNat

theorem page_nil (first limit : ℤ) : page first limit [] = [] := by
  unfold page
  split_ifs <;> simp

/-- The bound that a request comes down to. -/
def countLimit (uids : List ℤ) (limit : ℤ) : ℤ := if limit = -1 then uids.length else limit

/-- The page is a slice of the counted friends. -/
theorem pageOf_eq (hf : fids.Pairwise (· < ·)) (hu : uids.Pairwise (· < ·)) (hfids : fids ≠ [])
    (huids : uids ≠ []) (huid : 0 ≤ uid) (hfirst : 0 ≤ first) (hlimit : -1 ≤ limit)
    (hlen : uids.length < 2 ^ 31) (hsum : countLimit uids limit + first < 2 ^ 31) :
    pageOf both fids uids uid first limit = some (page first limit (uids.filter (counted both fids))) := by
  have hcast : asInt uids.length = uids.length := asInt_of_isInt ⟨by omega, by omega⟩
  have hguard : ¬(limit < -1 ∨ first < 0 ∨ uid < 0) := by omega
  have hsome : ¬(fids = [] ∨ uids = []) := by simp [hfids, huids]
  have hnonneg : 0 ≤ countLimit uids limit := by
    unfold countLimit
    split_ifs <;> omega
  have hint : IsInt (countLimit uids limit + first) := ⟨by omega, hsum⟩
  unfold pageOf
  rw [if_neg hguard, hcast, if_neg hsome]
  change (if IsInt (countLimit uids limit + first) then some _ else none) = _
  rw [if_pos hint]
  change some (pageLoop both first (countLimit uids limit + first) fids uids 0) = _
  rw [pageLoop_eq hf hu, List.drop_take]
  have hkept : (uids.filter (counted both fids)).length ≤ uids.length := List.length_filter_le _ _
  unfold page countLimit
  by_cases hall : limit = -1
  · rw [if_pos hall, if_pos hall, Int.sub_zero, Int.sub_zero, List.take_of_length_le]
    rw [List.length_drop]
    omega
  · have hlast : (limit + first - 0).toNat - (first - 0).toNat = limit.toNat := by omega
    rw [if_neg hall, if_neg hall, hlast, Int.sub_zero]

/-- What is written from two ascending sequences, one of them empty. -/
theorem pageOf_of_nil (h : fids = [] ∨ uids = []) : pageOf both fids uids uid first limit = some [] := by
  unfold pageOf
  by_cases hguard : limit < -1 ∨ first < 0 ∨ uid < 0
  · rw [if_pos hguard]
  · rw [if_neg hguard]
    exact if_pos h

theorem pageOf_of_le (hfids : fids ≠ []) (huids : uids ≠ []) (huid : 0 ≤ uid) (hfirst : 0 ≤ first)
    (hlimit : -1 ≤ limit) (hlen : uids.length < 2 ^ 31)
    (hsum : 2 ^ 31 ≤ countLimit uids limit + first) : pageOf both fids uids uid first limit = none := by
  have hcast : asInt uids.length = uids.length := asInt_of_isInt ⟨by omega, by omega⟩
  have hguard : ¬(limit < -1 ∨ first < 0 ∨ uid < 0) := by omega
  have hsome : ¬(fids = [] ∨ uids = []) := by simp [hfids, huids]
  unfold pageOf
  rw [if_neg hguard, hcast, if_neg hsome]
  apply if_neg
  rintro ⟨-, hlt⟩
  exact absurd hlt (Int.not_lt.mpr hsum)

/-! ## The whole -/

/-- Both requests return their page of the fans among the friends and of the others, the counts are
the numbers of these, and all of them are the friends. -/
structure Splits (fids uids : List ℤ) (uid first limit : ℤ) : Prop where
  isMutual : getMutualFriends fids uids uid first limit = some (page first limit (uids.filter (· ∈ fids)))
  isUnMutual :
    getUnMutualFriends fids uids uid first limit = some (page first limit (uids.filter (· ∉ fids)))
  mutualCount : getMutualFriendsCount fids uids uid = some ((uids.filter (· ∈ fids)).length : ℤ)
  unmutualCount : getUnMutualFriendsCount fids uids uid = some ((uids.filter (· ∉ fids)).length : ℤ)
  whole : ∃ m u, getMutualFriends fids uids uid 0 (-1) = some m ∧
    getUnMutualFriends fids uids uid 0 (-1) = some u ∧ (m ++ u).Perm uids

/-- No friend comes behind the last fan. -/
def WithinFans (fids uids : List ℤ) : Prop := ∀ u ∈ uids, ∃ f ∈ fids, u ≤ f

instance (fids uids : List ℤ) : Decidable (WithinFans fids uids) :=
  inferInstanceAs (Decidable (∀ u ∈ uids, ∃ f ∈ fids, u ≤ f))

/-- There are no friends, or no friend comes behind the last fan and the bounds stay in an `int`. -/
def Counts (fids uids : List ℤ) (first limit : ℤ) : Prop :=
  uids = [] ∨ WithinFans fids uids ∧ uids.length < 2 ^ 31 ∧ countLimit uids limit + first < 2 ^ 31

theorem filter_counted_true : uids.filter (counted true fids) = uids.filter (· ∈ fids) := rfl

theorem filter_counted_false (h : WithinFans fids uids) :
    uids.filter (counted false fids) = uids.filter (· ∉ fids) := by
  apply List.filter_congr
  intro u hu
  unfold counted
  by_cases hmem : u ∈ fids
  · simp [hmem]
  · obtain ⟨f, hf, hle⟩ := h u hu
    have hne : u ≠ f := fun heq => hmem (heq ▸ hf)
    have hex : ∃ f ∈ fids, u < f := ⟨f, hf, by omega⟩
    simp [hmem, hex]

/-- Where all requests are for everything, they are for what the loop counts. -/
theorem pageOf_all (hf : fids.Pairwise (· < ·)) (hu : uids.Pairwise (· < ·)) (hfids : fids ≠ [])
    (huids : uids ≠ []) (huid : 0 ≤ uid) (hlen : uids.length < 2 ^ 31) :
    pageOf both fids uids uid 0 (-1) = some (uids.filter (counted both fids)) := by
  refine pageOf_eq hf hu hfids huids huid (Int.le_refl 0) (Int.le_refl _) hlen ?_
  unfold countLimit
  rw [if_pos rfl]
  omega

theorem splits_of_nil (fids : List ℤ) (uid first limit : ℤ) : Splits fids [] uid first limit := by
  have hnil : ∀ both first limit, pageOf both fids [] uid first limit = some [] :=
    fun _ _ _ => pageOf_of_nil (.inr rfl)
  constructor
  · rw [getMutualFriends, hnil, List.filter_nil, page_nil]
  · rw [getUnMutualFriends, hnil, List.filter_nil, page_nil]
  · rw [getMutualFriendsCount, getMutualFriends, hnil]
    rfl
  · rw [getUnMutualFriendsCount, getUnMutualFriends, hnil]
    rfl
  · exact ⟨[], [], hnil _ _ _, hnil _ _ _, .refl _⟩

/-- The requests where nothing goes wrong. -/
theorem splits_of_within (hf : fids.Pairwise (· < ·)) (hu : uids.Pairwise (· < ·)) (huids : uids ≠ [])
    (huid : 0 ≤ uid) (hfirst : 0 ≤ first) (hlimit : -1 ≤ limit) (hwithin : WithinFans fids uids)
    (hlen : uids.length < 2 ^ 31) (hsum : countLimit uids limit + first < 2 ^ 31) :
    Splits fids uids uid first limit := by
  have hfids : fids ≠ [] := by
    rintro rfl
    obtain ⟨u, hmem⟩ := List.exists_mem_of_ne_nil uids huids
    obtain ⟨f, hnot, -⟩ := hwithin u hmem
    cases hnot
  have hall := fun both => @pageOf_all both fids uids uid hf hu hfids huids huid hlen
  have hpage := fun both =>
    @pageOf_eq both fids uids uid first limit hf hu hfids huids huid hfirst hlimit hlen hsum
  have hlength : ∀ p : ℤ → Bool, asInt (uids.filter p).length = (uids.filter p).length := by
    intro p
    have hle := List.length_filter_le p uids
    exact asInt_of_isInt ⟨by omega, by omega⟩
  constructor
  · exact hpage true
  · rw [← filter_counted_false hwithin]
    exact hpage false
  · rw [getMutualFriendsCount, getMutualFriends, hall, Option.map_some, hlength, filter_counted_true]
  · rw [getUnMutualFriendsCount, getUnMutualFriends, hall, Option.map_some, hlength,
      filter_counted_false hwithin]
  · refine ⟨_, _, hall true, hall false, ?_⟩
    rw [filter_counted_true, filter_counted_false hwithin]
    have hperm := List.filter_append_perm (fun u => decide (u ∈ fids)) uids
    simpa using hperm

/-- There are no more ascending `int`s than there are `int`s. -/
theorem length_le_of_ascending {lo hi : ℤ} (hu : uids.Pairwise (· < ·)) (h : ∀ u ∈ uids, lo ≤ u ∧ u < hi)
    (hle : lo ≤ hi) : uids.length ≤ hi - lo := by
  induction uids generalizing lo with
  | nil => simpa using hle
  | cons u uids ih =>
      obtain ⟨hlo, hhi⟩ := h u List.mem_cons_self
      have hrest : uids.length ≤ hi - (u + 1) := by
        refine ih hu.of_cons (fun x hx => ?_) (by omega)
        have hlt := List.rel_of_pairwise_cons hu hx
        exact ⟨by omega, (h x (List.mem_cons_of_mem _ hx)).2⟩
      rw [List.length_cons]
      omega

/-- A number of friends that does not fit an `int` is no bound. -/
theorem pageOf_of_long (hf : fids.Pairwise (· < ·)) (hu : uids.Pairwise (· < ·))
    (hints : ∀ u ∈ uids, IsInt u) (hlen : 2 ^ 31 ≤ uids.length) (huid : 0 ≤ uid) :
    pageOf both fids uids uid 0 (-1) = some [] := by
  have hle : uids.length ≤ (2 : ℤ) ^ 31 - -2 ^ 31 := length_le_of_ascending hu hints (by decide)
  have hcast : asInt uids.length = uids.length - 2 ^ 32 := by
    have hbmod : asInt uids.length = ((uids.length : ℤ) - 2 ^ 32).bmod (2 ^ 32) := by
      unfold asInt
      exact (Int.sub_bmod_right _ _).symm
    rw [hbmod]
    exact Int.bmod_eq_of_le (by omega) (by omega)
  by_cases hempty : fids = [] ∨ uids = []
  · exact pageOf_of_nil hempty
  · unfold pageOf
    rw [if_neg (by omega), if_pos rfl, if_neg hempty, hcast, if_pos ⟨by omega, by omega⟩,
      pageLoop_eq hf hu]
    have hzero : ((uids.length : ℤ) - 2 ^ 32 + 0 - 0).toNat = 0 := by omega
    rw [hzero, List.take_zero, List.drop_nil]

/-- **The two requests split the friends exactly when no friend comes behind the last fan**, and
their bounds stay in an `int`. -/
theorem splits_iff (hf : fids.Pairwise (· < ·)) (hu : uids.Pairwise (· < ·))
    (hints : ∀ u ∈ uids, IsInt u) (huid : 0 ≤ uid) (hfirst : 0 ≤ first) (hlimit : -1 ≤ limit) :
    Splits fids uids uid first limit ↔ Counts fids uids first limit := by
  constructor
  · rintro ⟨hmutual, -, -, -, m, u, hm, hnot, hperm⟩
    unfold Counts
    by_cases huids : uids = []
    · exact .inl huids
    have hboth : ¬(m = [] ∧ u = []) := by
      rintro ⟨rfl, rfl⟩
      exact huids hperm.symm.eq_nil
    have hfids : fids ≠ [] := by
      intro hnil
      rw [getMutualFriends, pageOf_of_nil (.inl hnil)] at hm
      rw [getUnMutualFriends, pageOf_of_nil (.inl hnil)] at hnot
      exact hboth ⟨(Option.some.inj hm).symm, (Option.some.inj hnot).symm⟩
    have hlen : uids.length < 2 ^ 31 := by
      by_contra hlong
      rw [getMutualFriends, pageOf_of_long hf hu hints (by omega) huid] at hm
      rw [getUnMutualFriends, pageOf_of_long hf hu hints (by omega) huid] at hnot
      exact hboth ⟨(Option.some.inj hm).symm, (Option.some.inj hnot).symm⟩
    refine .inr ⟨fun x hx => ?_, hlen, ?_⟩
    · rw [getMutualFriends, pageOf_all hf hu hfids huids huid hlen] at hm
      rw [getUnMutualFriends, pageOf_all hf hu hfids huids huid hlen] at hnot
      rw [← Option.some.inj hm, ← Option.some.inj hnot] at hperm
      have hmem := hperm.mem_iff.mpr hx
      rw [List.mem_append, List.mem_filter, List.mem_filter] at hmem
      obtain ⟨-, hc⟩ | ⟨-, hc⟩ := hmem
      · exact ⟨x, of_decide_eq_true hc, Int.le_refl x⟩
      · obtain ⟨-, f, hmemf, hlt⟩ := of_decide_eq_true hc
        exact ⟨f, hmemf, Int.le_of_lt hlt⟩
    · by_contra hsum
      rw [getMutualFriends, pageOf_of_le hfids huids huid hfirst hlimit hlen (by omega)] at hmutual
      cases hmutual
  · rintro (rfl | ⟨hwithin, hlen, hsum⟩)
    · exact splits_of_nil fids uid first limit
    · by_cases huids : uids = []
      · subst huids
        exact splits_of_nil fids uid first limit
      · exact splits_of_within hf hu huids huid hfirst hlimit hwithin hlen hsum

theorem splits_iff_two_fans : Splits [2, 4] [2, 3] 9 0 5 ↔ Counts [2, 4] [2, 3] 0 5 :=
  splits_iff (by decide) (by decide) (by decide) (by decide) (by decide) (by decide)

/-- Without a fan there is no friend who is none. -/
theorem no_fans_no_friends : ¬∀ fids uids uid first limit, fids.Pairwise (· < ·) →
    uids.Pairwise (· < ·) → 0 ≤ uid → 0 ≤ first → -1 ≤ limit → Splits fids uids uid first limit := by
  intro h
  obtain ⟨-, -, -, hcount, -⟩ := h [] [7] 9 0 (-1) .nil (List.pairwise_singleton _ _) (by decide)
    (by decide) (by decide)
  rw [getUnMutualFriendsCount, getUnMutualFriends, pageOf_of_nil (.inl rfl)] at hcount
  cases hcount

end Oce.Buddy
