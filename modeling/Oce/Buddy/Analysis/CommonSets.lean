import Mathlib.Data.Finset.Basic
import Mathlib.Tactic.ByCases
import Oce.Buddy.Analysis.MutualPages
import Oce.Buddy.Model.CommonFriend
import Oce.Buddy.Model.Relation
import Oce.Buddy.Model.EntryList

/-!
# True sets of members

Nothing sorts the rows of a page. Where they happen to be ascending every update keeps them so, a
search is right and the intersection with the friends is one of sets. Where they are not, a search
that looks for each of them misses one, or one stands twice.
-/

set_option autoImplicit false

namespace Oce.Buddy

open Oce.Base

variable {d : RelationData} {l m rows : List ℤ} {x y u first limit : ℤ} {s : Finset ℤ}

/-! ## Ascending members -/

/-- The members stand by ascending ids. -/
def RelationData.Asc (d : RelationData) : Prop := d.ids.Pairwise (· < ·)

theorem RelationData.find_eq (h : d.Asc) (id : ℤ) : d.find id = true ↔ id ∈ d.ids := by
  unfold RelationData.find RelationData.place
  rw [drop_bisect (parted_lt h id), decide_eq_true_eq]
  exact AscSeq.head?_lowerBound h

theorem RelationData.ids_add (h : d.Asc) (id : ℤ) :
    (d.add id).ids = if id ∈ d.ids then d.ids else before id d.ids ++ id :: lowerBound id d.ids := by
  unfold RelationData.add
  by_cases hmem : id ∈ d.ids
  · rw [if_pos ((d.find_eq h id).mpr hmem), if_pos hmem]
  · rw [if_neg fun hfind => hmem ((d.find_eq h id).mp hfind), if_neg hmem]
    unfold RelationData.place
    rw [drop_bisect (parted_lt h id), take_bisect (parted_lt h id)]
    rfl

theorem RelationData.asc_add (h : d.Asc) (id : ℤ) : (d.add id).Asc := by
  unfold RelationData.Asc
  rw [d.ids_add h]
  by_cases hmem : id ∈ d.ids
  · rwa [if_pos hmem]
  · rw [if_neg hmem]
    exact AscSeq.sorted_insert h hmem

theorem RelationData.mem_add (h : d.Asc) (id : ℤ) : x ∈ (d.add id).ids ↔ x = id ∨ x ∈ d.ids := by
  rw [d.ids_add h]
  by_cases hmem : id ∈ d.ids
  · rw [if_pos hmem]
    constructor
    · exact .inr
    · rintro (rfl | hx)
      · exact hmem
      · exact hx
  · rw [if_neg hmem, List.mem_append, List.mem_cons, or_left_comm, ← List.mem_append,
      before_append_lowerBound]

/-- A removal on ascending data takes out one id. -/
theorem RelationData.ids_remove (h : d.Asc) (id : ℤ) : (d.remove id).ids = d.ids.erase id := by
  unfold RelationData.remove
  by_cases hmem : id ∈ d.ids
  · have hfind := (d.find_eq h id).mpr hmem
    rw [if_pos hfind]
    unfold RelationData.find RelationData.place at hfind
    unfold RelationData.place
    rw [drop_bisect (parted_lt h id), decide_eq_true_eq] at hfind
    rw [drop_bisect (parted_lt h id), take_bisect (parted_lt h id)]
    have hnot : id ∉ d.ids.takeWhile fun y => decide (y < id) := by
      intro hbefore
      exact lt_irrefl id ((mem_before h).mp hbefore).2
    cases hdrop : d.ids.dropWhile fun y => decide (y < id) with
    | nil =>
        rw [hdrop] at hfind
        cases hfind
    | cons z rest =>
        rw [hdrop] at hfind
        cases hfind
        conv_rhs => rw [← List.takeWhile_append_dropWhile (p := fun y => decide (y < id)) (l := d.ids), hdrop]
        rw [List.erase_append_right _ hnot, List.erase_cons_head]
        rfl
  · rw [if_neg fun hfind => hmem ((d.find_eq h id).mp hfind), List.erase_of_not_mem hmem]

theorem RelationData.asc_remove (h : d.Asc) (id : ℤ) : (d.remove id).Asc := by
  unfold RelationData.Asc
  rw [d.ids_remove h]
  exact h.sublist List.erase_sublist

theorem RelationData.mem_remove (h : d.Asc) (id : ℤ) : x ∈ (d.remove id).ids ↔ x ≠ id ∧ x ∈ d.ids := by
  have hnodup : d.ids.Nodup := h.imp fun hlt => ne_of_lt hlt
  rw [d.ids_remove h, hnodup.mem_erase_iff]

/-! ## The intersection -/

theorem setIntersection_eq (hl : l.Pairwise (· < ·)) (hm : m.Pairwise (· < ·)) :
    setIntersection l m = l.filter (· ∈ m) := by
  induction l, m using setIntersection.induct with
  | case1 x l y m hlt ih =>
      have hnot : x ∉ y :: m := by
        intro hmem
        cases hmem with
        | head => exact lt_irrefl _ hlt
        | tail _ hmem => exact lt_asymm hlt (List.rel_of_pairwise_cons hm hmem)
      rw [setIntersection, if_pos hlt, ih hl.of_cons hm, List.filter_cons_of_neg (by simpa using hnot)]
  | case2 x l y m hle hlt ih =>
      rw [setIntersection, if_neg hle, if_pos hlt, ih hl hm.of_cons]
      apply List.filter_congr
      intro z hz
      have hlow : y < z := by
        cases hz with
        | head => exact hlt
        | tail _ hz => exact hlt.trans (List.rel_of_pairwise_cons hl hz)
      simp [ne_of_gt hlow]
  | case3 x l y m hle hge ih =>
      obtain rfl : x = y := le_antisymm (not_lt.mp hge) (not_lt.mp hle)
      rw [setIntersection, if_neg hle, if_neg hge, ih hl.of_cons hm.of_cons,
        List.filter_cons_of_pos (by simp)]
      congr 1
      apply List.filter_congr
      intro z hz
      simp [ne_of_gt (List.rel_of_pairwise_cons hl hz)]
  | case4 l m hnot =>
      have hnone : l = [] ∨ m = [] := by
        cases l with
        | nil => exact .inl rfl
        | cons x l =>
            cases m with
            | nil => exact .inr rfl
            | cons y m => exact absurd rfl (hnot x l y m rfl)
      rw [setIntersection]
      · obtain rfl | rfl := hnone
        · rfl
        · simp
      · exact hnot

/-! ## What was asked for -/

/-- More behind the list does not change a page exactly when the page is of the list. -/
theorem page_append_eq {l m fetched : List ℤ} (hl : ∀ x ∈ l, x ∈ fetched) (hm : ∀ x ∈ m, x ∉ fetched) :
    page first limit (l ++ m) = page first limit l ↔ ∀ x ∈ page first limit (l ++ m), x ∈ fetched := by
  have hsub : ∀ x ∈ page first limit l, x ∈ l := by
    intro x hx
    unfold page at hx
    split_ifs at hx
    · exact List.mem_of_mem_drop hx
    · exact List.mem_of_mem_drop (List.mem_of_mem_take hx)
  obtain ⟨rest, hrest, hsplit⟩ : ∃ rest, (∀ x ∈ rest, x ∈ m) ∧
      page first limit (l ++ m) = page first limit l ++ rest := by
    unfold page
    by_cases hall : limit = -1
    · refine ⟨m.drop (first.toNat - l.length), fun x hx => List.mem_of_mem_drop hx, ?_⟩
      rw [if_pos hall, if_pos hall, List.drop_append]
    · refine ⟨(m.drop (first.toNat - l.length)).take (limit.toNat - (l.drop first.toNat).length),
        fun x hx => List.mem_of_mem_drop (List.mem_of_mem_take hx), ?_⟩
      rw [if_neg hall, if_neg hall, List.drop_append, List.take_append]
  constructor
  · intro heq x hx
    rw [heq] at hx
    exact hl x (hsub x hx)
  · intro hfetched
    rw [hsplit] at hfetched ⊢
    have hnil : rest = [] := by
      rw [List.eq_nil_iff_forall_not_mem]
      intro x hx
      exact hm x (hrest x hx) (hfetched x (List.mem_append_right _ hx))
    rw [hnil, List.append_nil]

theorem sliceOf_eq (hfirst : 0 ≤ first) (hlimit : -1 ≤ limit) (h : limit = -1 ∨ IsInt (first + limit)) :
    sliceOf l first limit = some (page first limit l) := by
  unfold sliceOf page
  by_cases hall : limit = -1
  · rw [if_pos hall, if_pos hall]
  · obtain hbad | hint := h
    · exact absurd hbad hall
    · have hlast : (first + limit).toNat - first.toNat = limit.toNat := by omega
      rw [if_neg hall, if_neg hall, if_pos hint, List.drop_take, hlast]

/-! ## Requests -/

/-- A request of `GetCommon`, with what it meets beside the members. -/
structure Request where
  commons : Option (List Item)
  friends : AscSeq ℤ
  answered : Bool
  globalId : ℤ
  now : ℤ
  first : ℤ
  limit : ℤ

namespace Request

/-- Nothing of the page is in the string of the user. -/
def Uncached (q : Request) : Prop := ∀ item ∈ q.commons.getD [], q.globalId ≠ item.gid

instance (q : Request) : Decidable q.Uncached :=
  inferInstanceAs (Decidable (∀ item ∈ _, _))

/-- The bounds that a request can have. -/
def Valid (q : Request) : Prop := 0 ≤ q.first ∧ IsInt q.first ∧ -1 ≤ q.limit ∧ IsInt q.limit

instance (q : Request) : Decidable q.Valid := inferInstanceAs (Decidable (_ ∧ _ ∧ _ ∧ _))

/-- The slice that the request is for. -/
def slice (q : Request) (s : Finset ℤ) : List ℤ :=
  page q.first q.limit (q.friends.vals.filter (· ∈ s))

/-- The answer to the request. -/
def answer (q : Request) (d : RelationData) : Option (List ℤ) :=
  (getCommon ⟨some d, q.commons⟩ q.friends q.answered q.globalId q.now q.first q.limit).1

/-- The friends that the request works with. -/
def fetched (q : Request) : List ℤ := getFriendListAsc q.friends q.answered

/-- Members read more than two hours ago answer nothing; else all of the slice is among the friends
that were fetched, and its end is an `int` wherever it is built. -/
def Fits (q : Request) (s : Finset ℤ) (timestamp : ℤ) : Prop :=
  if 7200 < q.now - timestamp then q.slice s = []
  else (∀ x ∈ q.slice s, x ∈ q.fetched) ∧
    (q.limit = -1 ∨ (∀ x ∈ q.fetched, x ∉ s) ∨ q.first + q.limit < 2 ^ 31)

end Request

theorem fetched_prefix (q : Request) : ∃ rest, q.friends.vals = q.fetched ++ rest := by
  unfold Request.fetched getFriendListAsc
  cases q.answered with
  | false => exact ⟨q.friends.vals, rfl⟩
  | true => exact ⟨q.friends.vals.drop 2000, (List.take_append_drop 2000 q.friends.vals).symm⟩

theorem slice_eq_iff (q : Request) (s : Finset ℤ) :
    q.slice s = page q.first q.limit (q.fetched.filter (· ∈ s)) ↔ ∀ x ∈ q.slice s, x ∈ q.fetched := by
  obtain ⟨rest, hrest⟩ := fetched_prefix q
  have hnodup : (q.fetched ++ rest).Nodup := by
    rw [← hrest]
    exact q.friends.sorted.imp fun hlt => ne_of_lt hlt
  have hdisj : ∀ x ∈ rest, x ∉ q.fetched := by
    intro x hx hmem
    exact (List.nodup_append.mp hnodup).2.2 x hmem x hx rfl
  unfold Request.slice
  rw [hrest, List.filter_append]
  exact page_append_eq (fun x hx => List.mem_of_mem_filter hx) fun x hx =>
    hdisj x (List.mem_of_mem_filter hx)

theorem fetched_sorted (q : Request) : q.fetched.Pairwise (· < ·) := by
  obtain ⟨rest, hrest⟩ := fetched_prefix q
  have hsorted := q.friends.sorted
  rw [hrest] at hsorted
  exact (List.pairwise_append.mp hsorted).1

/-- The answer of a request that the string of the user knows nothing of. -/
theorem answer_eq (q : Request) (hcache : q.Uncached) (hd : d.Asc) (hs : ∀ x, x ∈ d.ids ↔ x ∈ s) :
    q.answer d =
      if checkParam q.first q.limit then
        if 7200 < q.now - d.timestamp then some []
        else if q.fetched.filter (· ∈ s) = [] then some []
        else sliceOf (q.fetched.filter (· ∈ s)) q.first q.limit
      else some [] := by
  have hcommon : setIntersection q.fetched d.ids = q.fetched.filter (· ∈ s) := by
    rw [setIntersection_eq (fetched_sorted q) hd]
    exact List.filter_congr fun x _ => by simp [hs]
  have hnone : (q.commons.getD []).find? (fun item => q.globalId = item.gid) = none := by
    rw [List.find?_eq_none]
    intro item hitem
    simpa using hcache item hitem
  have hhit : (q.commons.getD []).any (fun item => q.globalId = item.gid) = false := by
    rw [List.any_eq_false]
    intro item hitem
    simpa using hcache item hitem
  unfold Request.answer getCommon
  by_cases hparam : checkParam q.first q.limit = true
  · rw [if_pos hparam, if_pos hparam]
    dsimp only
    by_cases hold : 7200 < q.now - d.timestamp
    · rw [if_pos hold, if_pos hold]
    · have hfetch : getFriendListAsc q.friends q.answered = q.fetched := rfl
      rw [if_neg hold, if_neg hold, hhit, hfetch]
      unfold computeMessage
      rw [hcommon]
      by_cases hempty : q.fetched.filter (· ∈ s) = []
      · simp [hempty, hnone]
      · simp [hempty, hnone]
  · rw [if_neg hparam, if_neg hparam]

/-- **A request is answered with its slice exactly when it fits.** -/
theorem answer_eq_slice_iff (q : Request) (hcache : q.Uncached) (hvalid : q.Valid) (hd : d.Asc)
    (hs : ∀ x, x ∈ d.ids ↔ x ∈ s) : q.answer d = some (q.slice s) ↔ q.Fits s d.timestamp := by
  obtain ⟨hfirst, hint, hlimit, hlimit'⟩ := hvalid
  unfold Request.Fits
  rw [answer_eq q hcache hd hs]
  by_cases hparam : checkParam q.first q.limit = true
  · rw [if_pos hparam]
    by_cases hold : 7200 < q.now - d.timestamp
    · rw [if_pos hold, if_pos hold, Option.some_inj]
      exact eq_comm
    · rw [if_neg hold, if_neg hold, ← slice_eq_iff]
      by_cases hempty : q.fetched.filter (· ∈ s) = []
      · have hnone : ∀ x ∈ q.fetched, x ∉ s := by simpa using List.filter_eq_nil_iff.mp hempty
        rw [if_pos hempty, Option.some_inj, hempty, page_nil]
        exact ⟨fun h => ⟨h.symm, .inr (.inl hnone)⟩, fun h => h.1.symm⟩
      · have hsome : ¬∀ x ∈ q.fetched, x ∉ s := by
          intro hnone
          exact hempty (List.filter_eq_nil_iff.mpr fun x hx => by simpa using hnone x hx)
        rw [if_neg hempty]
        by_cases hend : q.limit = -1 ∨ q.first + q.limit < 2 ^ 31
        · have hsum : q.limit = -1 ∨ IsInt (q.first + q.limit) := by
            refine hend.imp id fun hlt => ⟨?_, hlt⟩
            omega
          rw [sliceOf_eq hfirst hlimit hsum, Option.some_inj]
          exact ⟨fun h => ⟨h.symm, hend.imp id .inr⟩, fun h => h.1.symm⟩
        · have hnone : sliceOf (q.fetched.filter (· ∈ s)) q.first q.limit = none := by
            unfold sliceOf
            rw [if_neg fun hall => hend (.inl hall), if_neg fun hsum => hend (.inr hsum.2)]
          rw [hnone]
          constructor
          · intro h
            cases h
          · rintro ⟨-, hall | hno | hlt⟩
            · exact absurd (.inl hall) hend
            · exact absurd hno hsome
            · exact absurd (.inr hlt) hend
  · have hzero : q.limit = 0 := by
      unfold checkParam at hparam
      rw [decide_eq_true_eq, not_not] at hparam
      omega
    have hslice : q.slice s = [] := by
      unfold Request.slice page
      rw [hzero, if_neg (by decide)]
      exact List.take_zero
    rw [if_neg hparam, hslice]
    obtain ⟨-, hlt⟩ := hint
    split_ifs with hold
    · exact ⟨fun _ => rfl, fun _ => rfl⟩
    · exact ⟨fun _ => ⟨fun x hx => absurd hx List.not_mem_nil, .inr (.inr (by omega))⟩, fun _ => rfl⟩

/-! ## Runs -/

/-- The members behind an update. -/
def MemberUpdate.on (s : Finset ℤ) : MemberUpdate → Finset ℤ
  | .add id => insert id s
  | .remove id => s.erase id

/-- The vector is searched as the set that it is to be, and holds nothing twice. -/
structure TrueSet (d : RelationData) (s : Finset ℤ) : Prop where
  find : ∀ u, d.find u = true ↔ u ∈ s
  nodup : d.ids.Nodup

/-- The vector is the set at every point of a run. -/
def Followed (d : RelationData) (s : Finset ℤ) : List MemberUpdate → Prop
  | [] => TrueSet d s
  | c :: cs => TrueSet d s ∧ Followed (d.update c) (c.on s) cs

/-- The vector is ascending and has the elements of the set. -/
structure Holds (d : RelationData) (s : Finset ℤ) : Prop where
  asc : d.Asc
  mem : ∀ x, x ∈ d.ids ↔ x ∈ s

theorem Holds.trueSet (h : Holds d s) : TrueSet d s :=
  ⟨fun u => (d.find_eq h.asc u).trans (h.mem u), h.asc.imp fun hlt => ne_of_lt hlt⟩

theorem Holds.update (h : Holds d s) (c : MemberUpdate) : Holds (d.update c) (c.on s) := by
  cases c with
  | add id =>
      refine ⟨d.asc_add h.asc id, fun x => ?_⟩
      unfold RelationData.update MemberUpdate.on
      rw [d.mem_add h.asc, h.mem, Finset.mem_insert]
  | remove id =>
      refine ⟨d.asc_remove h.asc id, fun x => ?_⟩
      unfold RelationData.update MemberUpdate.on
      rw [d.mem_remove h.asc, h.mem, Finset.mem_erase]

theorem timestamp_update (d : RelationData) (c : MemberUpdate) : (d.update c).timestamp = d.timestamp := by
  cases c with
  | add id =>
      change (d.add id).timestamp = _
      unfold RelationData.add
      split_ifs <;> rfl
  | remove id =>
      change (d.remove id).timestamp = _
      unfold RelationData.remove
      split_ifs <;> rfl

theorem Holds.run (h : Holds d s) (cs : List MemberUpdate) :
    Followed d s cs ∧ Holds (cs.foldl RelationData.update d) (cs.foldl MemberUpdate.on s) ∧
      (cs.foldl RelationData.update d).timestamp = d.timestamp := by
  induction cs generalizing d s with
  | nil => exact ⟨h.trueSet, h, rfl⟩
  | cons c cs ih =>
      obtain ⟨hfollowed, hholds, htime⟩ := ih (h.update c)
      exact ⟨⟨h.trueSet, hfollowed⟩, hholds, htime.trans (timestamp_update d c)⟩

theorem Followed.trueSet {cs : List MemberUpdate} (h : Followed d s cs) : TrueSet d s := by
  cases cs with
  | nil => exact h
  | cons c cs => exact h.1

/-- Rows that are a true set are ascending. -/
theorem ascending_of_trueSet {loaded : ℤ} (h : TrueSet (createRelation rows loaded) rows.toFinset) :
    rows.Pairwise (· < ·) := by
  refine ascending_of_found h.nodup fun x hx => ?_
  have hfind := (h.find x).mpr (List.mem_toFinset.mpr hx)
  unfold RelationData.find at hfind
  exact of_decide_eq_true hfind

/-- The vector is the set of the members through the whole run, and a request behind it is answered
with its slice. -/
def OnTrueSets (rows : List ℤ) (loaded : ℤ) (cs : List MemberUpdate) (q : Request) : Prop :=
  Followed (createRelation rows loaded) rows.toFinset cs ∧
    q.answer (cs.foldl RelationData.update (createRelation rows loaded)) =
      some (q.slice (cs.foldl MemberUpdate.on rows.toFinset))

/-- **The members are a true set exactly when the rows come ascending.** -/
theorem onTrueSets_iff (rows : List ℤ) (loaded : ℤ) (cs : List MemberUpdate) (q : Request)
    (hcache : q.Uncached) (hvalid : q.Valid) :
    OnTrueSets rows loaded cs q ↔
      rows.Pairwise (· < ·) ∧ q.Fits (cs.foldl MemberUpdate.on rows.toFinset) loaded := by
  have hloaded : rows.Pairwise (· < ·) → Holds (createRelation rows loaded) rows.toFinset :=
    fun h => ⟨h, fun x => List.mem_toFinset.symm⟩
  constructor
  · rintro ⟨hfollowed, hanswer⟩
    have hasc := ascending_of_trueSet hfollowed.trueSet
    obtain ⟨-, hholds, htime⟩ := (hloaded hasc).run cs
    rw [answer_eq_slice_iff q hcache hvalid hholds.asc hholds.mem, htime] at hanswer
    exact ⟨hasc, hanswer⟩
  · rintro ⟨hasc, hfits⟩
    obtain ⟨hfollowed, hholds, htime⟩ := (hloaded hasc).run cs
    refine ⟨hfollowed, ?_⟩
    rw [answer_eq_slice_iff q hcache hvalid hholds.asc hholds.mem, htime]
    exact hfits

/-- A request for the first ten common friends of a user who is a friend of 1 and 2. -/
def firstTen : Request := ⟨none, ⟨[1, 2], by decide⟩, true, 60, 100, 0, 10⟩

theorem onTrueSets_iff_firstTen : OnTrueSets [2, 3] 90 [.add 1] firstTen ↔
    [(2 : ℤ), 3].Pairwise (· < ·) ∧
      firstTen.Fits ([MemberUpdate.add 1].foldl MemberUpdate.on [2, 3].toFinset) 90 :=
  onTrueSets_iff [2, 3] 90 [.add 1] firstTen (by decide) (by decide)

/-- Two rows in the other order lose a member. -/
theorem swapped_rows : ¬∀ rows loaded cs (q : Request), q.Uncached → q.Valid →
    OnTrueSets rows loaded cs q := by
  intro h
  obtain ⟨hset, -⟩ := h [2, 1] 90 [] firstTen (by decide) (by decide)
  have hfind := (hset.find 1).mpr (by decide)
  revert hfind
  decide

end Oce.Buddy
