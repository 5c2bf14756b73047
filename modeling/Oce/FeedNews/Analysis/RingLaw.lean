import Oce.FeedNews.Analysis.RingSlots

/-!
# The calls of a list of live feeds

What each call makes of the list in the ring, from the lemmas about the loops, and from that what
holds after any calls. A list of 250 feeds always has one that may go: the five important kinds
have at most 30 feeds each where none of them may lose one.
-/

set_option autoImplicit false

namespace Oce.FeedNews

variable {r : LiveFeedRing} {l : List LiveFeedItem}

namespace LiveFeedRing

section Add

variable {r : LiveFeedRing} {l : List LiveFeedItem} {x : LiveFeedItem} {feed : PoolFeed}

/-- A feed in the slot of `end_`. -/
theorem Keeps.push (h : Keeps r l) (hlt : l.length < maxCount) (hx : x.feed = some feed) :
    Keeps { (r.setFeed r.endPos x).incPartSize feed 1 with
      size := r.size + 1
      endPos := mod ((r.endPos : ℤ) + 1) } (l ++ [x]) := by
  have hend := h.lt
  have hself : place r.endPos l.length l.length = r.endPos := by
    unfold place maxCount at *
    omega
  have hplace : ∀ u, u ≤ l.length →
      place (mod ((r.endPos : ℤ) + 1)) (l ++ [x]).length u = place r.endPos l.length u := by
    intro u hu
    rw [List.length_append, List.length_singleton]
    unfold place mod maxCount at *
    omega
  refine ⟨fun u y hy => ?_, ?_, ?_, ?_, fun y hy => ?_, fun k => ?_⟩
  · have hul : u < (l ++ [x]).length := (List.getElem?_eq_some_iff.mp hy).1
    rw [List.length_append, List.length_singleton] at hul
    dsimp only
    rw [hplace u (Nat.le_of_lt_succ hul)]
    by_cases hu : u < l.length
    · rw [List.getElem?_append_left hu] at hy
      refine (Function.update_of_ne (fun he => ?_) _ _).trans (h.slots u y hy)
      unfold place maxCount at *
      omega
    · have hul' : u = l.length := by omega
      subst hul'
      rw [List.getElem?_concat_length] at hy
      cases hy
      rw [hself]
      exact Function.update_self _ _ _
  · rw [List.length_append, List.length_singleton]
    dsimp only
    rw [h.size]
    rfl
  · rw [List.length_append, List.length_singleton]
    exact hlt
  · show mod ((r.endPos : ℤ) + 1) < maxCount
    unfold mod maxCount
    omega
  · rcases List.mem_append.mp hy with hy | hy
    · exact h.filled y hy
    · rw [List.mem_singleton.mp hy, hx]
      rfl
  · have hindex : hasIndex k x = decide (feed.index = k) := by
      unfold hasIndex
      rw [hx]
      rfl
    rw [List.countP_append, List.countP_singleton, hindex]
    show Function.update r.partSize feed.index (r.partSize feed.index + 1) k = _
    by_cases hk : feed.index = k
    · rw [if_pos (decide_eq_true hk), ← hk, Function.update_self, h.sizes]
      rfl
    · rw [if_neg (by simpa using hk), Function.update_of_ne (Ne.symm hk), h.sizes, Nat.add_zero]

/-- The feeds that stay when there is to be room for another. -/
def room (l : List LiveFeedItem) : List LiveFeedItem :=
  if maxCount ≤ l.length then l.eraseIdx (outgoing l) else l

/-- `Add2` puts the feed behind what has room. -/
theorem Keeps.add2 (h : Keeps r l) (hx : x.feed = some feed) :
    ∃ r', r.add2 feed x = some r' ∧ Keeps r' (room l ++ [x]) := by
  have hle := h.le
  unfold LiveFeedRing.add2 room
  rw [h.size]
  by_cases hfull : maxCount ≤ l.length
  · rw [if_pos (by exact_mod_cast hfull), if_pos hfull]
    have hpos : 0 < l.length := Nat.lt_of_lt_of_le (by decide) hfull
    obtain ⟨r₁, hr₁, h₁, -⟩ := h.removeOldest hpos
    rw [hr₁, Option.map_some]
    refine ⟨_, rfl, h₁.push ?_ hx⟩
    have hout : outgoing l < l.length := by
      unfold outgoing
      cases hfind : l.findIdx? (mayGo l) with
      | none => exact hpos
      | some i => exact (List.findIdx?_eq_some_iff_getElem.mp hfind).1
    rw [List.length_eraseIdx_of_lt hout]
    omega
  · rw [if_neg (by exact_mod_cast hfull), if_neg hfull, Option.map_some]
    exact ⟨_, rfl, h.push (Nat.lt_of_not_le hfull) hx⟩

theorem feed_incViewedCount (n : ℕ) (x : LiveFeedItem) :
    (Nat.iterate LiveFeedItem.incViewedCount n x).feed = x.feed := by
  induction n generalizing x with
  | zero => rfl
  | succ n ih => exact ih x.incViewedCount

theorem feed_entered (x : LiveFeedItem) (updatetime checkenter : Bool) :
    (entered x updatetime checkenter).feed = x.feed := by
  unfold entered
  cases checkenter with
  | true => rfl
  | false => exact feed_incViewedCount _ _

end Add

/-! ## What the ring shows -/

/-- The slots before `end_`, the oldest first. -/
def contents (r : LiveFeedRing) : List LiveFeedItem :=
  (List.range r.size.toNat).map fun (t : ℕ) => r.feeds (mod ((r.endPos : ℤ) - r.size + t))

theorem Keeps.contents (h : Keeps r l) : r.contents = l := by
  have hsize : r.size.toNat = l.length := by
    rw [h.size]
    rfl
  refine List.ext_getElem ?_ fun t _ ht => ?_
  · unfold LiveFeedRing.contents
    rw [List.length_map, List.length_range, hsize]
  · simp only [LiveFeedRing.contents, List.getElem_map, List.getElem_range]
    rw [mod_place h]
    exact h.slots t _ (List.getElem?_eq_getElem ht)

/-- The size is that of the list, every slot of it has a feed, and the sizes of the kinds are right. -/
structure Sound (r : LiveFeedRing) : Prop where
  size : 0 ≤ r.size ∧ r.size ≤ maxCount
  filled : ∀ x ∈ r.contents, x.feed.isSome = true
  sizes : ∀ k, r.partSize k = r.contents.countP (hasIndex k)

theorem Keeps.sound (h : Keeps r l) : Sound r := by
  have hle := h.le
  refine ⟨?_, ?_, ?_⟩
  · rw [h.size]
    omega
  · rw [h.contents]
    exact h.filled
  · rw [h.contents]
    exact h.sizes

end LiveFeedRing

namespace RingOp

open LiveFeedRing

/-- The feeds that a removal chooses. -/
def chooses : RingOp → PoolFeed → Bool
  | add _ _ _ _ => fun _ => false
  | remove stype merge => chosen stype merge
  | removeFeed known => fun f => known.any fun feed => chosen feed.smallType feed.merge f
  | removeExactly fids => fun feed => decide (feed.id ∈ fids)
  | removeAll => fun _ => true

/-- What a call makes of the list. -/
def effect (l : List LiveFeedItem) (op : RingOp) : List LiveFeedItem :=
  match op with
  | add known item updatetime checkenter =>
    room l ++ [entered (.new (PoolFeed.add known item) item.weight item.time) updatetime checkenter]
  | op => l.filter fun x => !x.feed.any op.chooses

/-- The ids that a call returns: of the feeds it removes, the newest first. -/
def returns (l : List LiveFeedItem) : RingOp → List ℤ
  | remove stype merge => gone (chosen stype merge) l 0
  | removeFeed known => gone (chooses (removeFeed known)) l 0
  | _ => []

/-- **A call does to the ring what it should do to the list.** -/
theorem step_keeps (h : Keeps r l) (op : RingOp) :
    ∃ r', op.step r = some (op.returns l, r') ∧ Keeps r' (op.effect l) := by
  cases op with
  | add known item updatetime checkenter =>
      have hfeed : (entered (.new (PoolFeed.add known item) item.weight item.time) updatetime
          checkenter).feed = some (PoolFeed.add known item) := feed_entered _ _ _
      obtain ⟨r', hr', h'⟩ := h.add2 hfeed
      refine ⟨r', ?_, h'⟩
      show (r.add2 _ _).map ([], ·) = _
      rw [hr']
      rfl
  | remove stype merge => exact h.compact (chosen stype merge)
  | removeFeed known =>
      cases known with
      | none =>
          refine ⟨r, ?_, ?_⟩
          · have hnone : returns l (removeFeed none) = [] := by
              show gone (fun _ => false) l 0 = []
              unfold gone
              rw [List.filter_eq_nil_iff.mpr]
              · rfl
              · intro x _
                cases x.feed with
                | none => exact Bool.false_ne_true
                | some f => exact Bool.false_ne_true
            rw [hnone]
            rfl
          · have hall : effect l (removeFeed none) = l := by
              refine List.filter_eq_self.mpr fun x _ => ?_
              cases x.feed with
              | none => rfl
              | some f => rfl
            rw [hall]
            exact h
      | some feed => exact h.compact (chosen feed.smallType feed.merge)
  | removeExactly fids =>
      obtain ⟨r', hr', h'⟩ := h.compact fun feed => decide (feed.id ∈ fids)
      refine ⟨r', ?_, h'⟩
      show (r.removeExactly fids).map ([], ·) = _
      unfold LiveFeedRing.removeExactly
      rw [hr']
      rfl
  | removeAll =>
      refine ⟨r.removeAll, rfl, ?_⟩
      have hnil : effect l removeAll = [] := by
        refine List.filter_eq_nil_iff.mpr fun x hx => ?_
        obtain ⟨feed, hfeed⟩ := Option.isSome_iff_exists.mp (h.filled x hx)
        rw [hfeed]
        exact Bool.false_ne_true
      rw [hnil]
      exact ⟨fun _ _ hx => (nomatch hx), rfl, Nat.zero_le _, (show 0 < maxCount by decide), fun _ hx => (nomatch hx), fun _ => rfl⟩

theorem run_keeps (h : Keeps r l) (ops : List RingOp) :
    ∃ r', run r ops = some r' ∧ Keeps r' (ops.foldl effect l) := by
  induction ops generalizing r l with
  | nil => exact ⟨r, rfl, h⟩
  | cons op ops ih =>
      obtain ⟨r₁, hstep, h₁⟩ := step_keeps h op
      obtain ⟨r', hrun, h'⟩ := ih h₁
      refine ⟨r', ?_, h'⟩
      unfold run
      rw [hstep]
      exact hrun

/-- **Whatever is called on a new list: no slot without a feed is looked at; the ring is sound; and the
next call, whichever it is, adds its feed as the newest or takes exactly the feeds out that it
chooses, while the others stay in their order.** -/
theorem ring_law (ops : List RingOp) :
    ∃ r, run new ops = some r ∧ Sound r ∧
      ∀ op : RingOp, ∃ r', op.step r = some (op.returns r.contents, r') ∧
        r'.contents = op.effect r.contents := by
  obtain ⟨r, hrun, h⟩ := run_keeps keeps_new ops
  refine ⟨r, hrun, h.sound, fun op => ?_⟩
  obtain ⟨r', hstep, h'⟩ := step_keeps h op
  rw [h.contents]
  exact ⟨r', hstep, h'.contents⟩

end RingOp

/-!
## Which feed goes

The six kinds make up the list, and where no feed may go there is none of the ordinary kind and at
most 30 of each important one: 150 feeds. So in a list of 250 the scan of `RemoveOldest` finds
one, and the branch behind it is never taken.
-/

namespace LiveFeedRing

variable {l : List LiveFeedItem}

theorem index_le (f : Feed) : f.index ≤ 5 := by
  unfold Feed.index typeIndex
  split
  all_goals decide

/-- The kinds make up the list. -/
theorem length_eq_kinds (h : ∀ x ∈ l, x.feed.isSome = true) :
    l.length = l.countP (hasIndex 0) + l.countP (hasIndex 1) + l.countP (hasIndex 2) +
      l.countP (hasIndex 3) + l.countP (hasIndex 4) + l.countP (hasIndex 5) := by
  induction l with
  | nil => rfl
  | cons x l ih =>
      have hrest := ih fun y hy => h y (List.mem_cons_of_mem _ hy)
      obtain ⟨feed, hfeed⟩ := Option.isSome_iff_exists.mp (h x List.mem_cons_self)
      have hindex : ∀ k, hasIndex k x = decide (feed.index = k) := by
        intro k
        unfold hasIndex
        rw [hfeed]
        rfl
      have hle := index_le feed.toFeed
      simp only [List.length_cons, List.countP_cons, hindex, decide_eq_true_eq]
      split_ifs <;> omega

/-- Where no feed may go there is no ordinary one, and at most 30 of an important kind. -/
theorem countP_le_of_not_mayGo (h : ∀ x ∈ l, mayGo l x = false) (k : ℕ) :
    l.countP (hasIndex k) ≤ keyCount ∧ (k = 0 → l.countP (hasIndex k) = 0) := by
  by_cases hpos : 0 < l.countP (hasIndex k)
  · obtain ⟨x, hx, hk⟩ := List.countP_pos_iff.mp hpos
    have hnot := h x hx
    unfold hasIndex at hk
    unfold mayGo at hnot
    cases hfeed : x.feed with
    | none =>
        rw [hfeed] at hk
        cases hk
    | some feed =>
        rw [hfeed, Option.any_some] at hk hnot
        have hindex : feed.index = k := of_decide_eq_true hk
        rw [hindex] at hnot
        have hstays := of_decide_eq_false hnot
        exact ⟨Nat.le_of_not_lt fun hmany => hstays (.inr hmany), fun hzero => absurd (.inl hzero) hstays⟩
  · have hzero := Nat.eq_zero_of_not_pos hpos
    rw [hzero]
    exact ⟨Nat.zero_le _, fun _ => rfl⟩

/-- **A list of 250 feeds has one that may go.** -/
theorem exists_mayGo (h : ∀ x ∈ l, x.feed.isSome = true) (hfull : l.length = maxCount) :
    ∃ i x, l.findIdx? (mayGo l) = some i ∧ l[i]? = some x ∧ mayGo l x = true ∧
      ∀ j y, j < i → l[j]? = some y → mayGo l y = false := by
  cases hfind : l.findIdx? (mayGo l) with
  | some i =>
      obtain ⟨hlt, hgo, hbefore⟩ := List.findIdx?_eq_some_iff_getElem.mp hfind
      refine ⟨i, l[i], rfl, List.getElem?_eq_getElem hlt, hgo, fun j y hj hy => ?_⟩
      obtain ⟨hjl, rfl⟩ := List.getElem?_eq_some_iff.mp hy
      exact Bool.eq_false_of_not_eq_true (hbefore j hj)
  | none =>
      have hnone : ∀ x ∈ l, mayGo l x = false := List.findIdx?_eq_none_iff.mp hfind
      have hkinds := length_eq_kinds h
      have h0 := (countP_le_of_not_mayGo hnone 0).2 rfl
      have h1 := (countP_le_of_not_mayGo hnone 1).1
      have h2 := (countP_le_of_not_mayGo hnone 2).1
      have h3 := (countP_le_of_not_mayGo hnone 3).1
      have h4 := (countP_le_of_not_mayGo hnone 4).1
      have h5 := (countP_le_of_not_mayGo hnone 5).1
      unfold keyCount maxCount at *
      omega

/-- A kind that loses a feed is the ordinary one, or has more than 30. -/
theorem countP_eraseIdx_mayGo {i : ℕ} {x : LiveFeedItem} (hi : l[i]? = some x)
    (hgo : mayGo l x = true) {k : ℕ} (hk : k ≠ 0) (hle : l.countP (hasIndex k) ≤ keyCount) :
    (l.eraseIdx i).countP (hasIndex k) = l.countP (hasIndex k) := by
  have hnot : hasIndex k x = false := by
    unfold mayGo at hgo
    unfold hasIndex
    cases hfeed : x.feed with
    | none => rfl
    | some feed =>
        rw [hfeed, Option.any_some] at hgo
        rw [Option.any_some]
        refine decide_eq_false fun hindex => ?_
        have hgo := of_decide_eq_true hgo
        rw [hindex] at hgo
        rcases hgo with hzero | hmany
        · exact hk hzero
        · omega
  obtain ⟨hlt, rfl⟩ := List.getElem?_eq_some_iff.mp hi
  rw [List.eraseIdx_eq_take_drop_succ, List.countP_append]
  conv_rhs => rw [← List.take_append_drop i l, List.drop_eq_getElem_cons hlt]
  rw [List.countP_append, List.countP_cons, hnot]
  rfl

/-- **After any calls the list is the one that the calls make up, and where it is full: the scan finds a feed, the oldest that is of the ordinary kind
or of an important one with more than 30; `RemoveOldest`, and so an add of any feed, takes
just that one out; and an important kind with at most 30 feeds loses none.** -/
theorem eviction_law (ops : List RingOp) :
    ∃ r, RingOp.run new ops = some r ∧ r.contents = ops.foldl RingOp.effect [] ∧
      (r.size = maxCount → ∃ i x, r.contents[i]? = some x ∧ mayGo r.contents x = true ∧
        (∀ j y, j < i → r.contents[j]? = some y → mayGo r.contents y = false) ∧
        (∃ found, r.scan r.size.toNat (mod ((r.endPos : ℤ) - r.size)) 0 = some (some found)) ∧
        (∃ r', r.removeOldest = some r' ∧ r'.contents = r.contents.eraseIdx i) ∧
        (∀ known item updatetime checkenter, ∃ r', r.add known item updatetime checkenter = some r' ∧
          r'.contents = r.contents.eraseIdx i ++
            [entered (.new (PoolFeed.add known item) item.weight item.time) updatetime checkenter]) ∧
        ∀ k, k ≠ 0 → r.contents.countP (hasIndex k) ≤ keyCount →
          (r.contents.eraseIdx i).countP (hasIndex k) = r.contents.countP (hasIndex k)) := by
  obtain ⟨r, hrun, h⟩ := RingOp.run_keeps keeps_new ops
  refine ⟨r, hrun, h.contents, fun hsize => ?_⟩
  rw [h.contents]
  set l := ops.foldl RingOp.effect [] with hl
  have hfull : l.length = maxCount := by
    rw [h.size] at hsize
    exact_mod_cast hsize
  have hpos : 0 < l.length := by
    rw [hfull]
    decide
  obtain ⟨i, x, hfind, hget, hgo, hbefore⟩ := exists_mayGo h.filled hfull
  have hout : outgoing l = i := by
    unfold outgoing
    rw [hfind]
    rfl
  refine ⟨i, x, hget, hgo, hbefore, ?_, ?_, ?_, fun k hk hle => countP_eraseIdx_mayGo hget hgo hk hle⟩
  · have hscan := h.scan l.length 0 (Nat.add_zero _)
    have hfirst := mod_place h 0
    rw [Int.ofNat_zero, Int.add_zero] at hfirst
    have hnat : r.size.toNat = l.length := by
      rw [h.size]
      rfl
    obtain ⟨feed, hfeed⟩ := Option.isSome_iff_exists.mp (h.filled x (List.mem_of_getElem? hget))
    rw [hnat, hfirst, hscan, List.drop_zero, hfind, Option.bind_some, Nat.zero_add, hget,
      Option.bind_some, hfeed]
    exact ⟨_, rfl⟩
  · obtain ⟨r', hr', h', -⟩ := h.removeOldest hpos
    refine ⟨r', hr', ?_⟩
    rw [h'.contents, hout]
  · intro known item updatetime checkenter
    have hfeed : (entered (.new (PoolFeed.add known item) item.weight item.time) updatetime
        checkenter).feed = some (PoolFeed.add known item) := feed_entered _ _ _
    obtain ⟨r', hr', h'⟩ := h.add2 hfeed
    refine ⟨r', hr', ?_⟩
    rw [h'.contents]
    unfold room
    rw [if_pos (Nat.le_of_eq hfull.symm), hout]

/-- Thirty feeds of an important kind and 220 of the ordinary one. -/
def crowd : List RingOp :=
  (List.range maxCount).map fun n =>
    .add none ⟨⟨n, n, if n < keyCount then 502 else 8001, n⟩, 0, 7⟩ true true

/-- They fill the list up, and one more add takes the oldest ordinary feed out, behind the thirty. -/
theorem eviction_law_crowd : ∃ r, RingOp.run new crowd = some r ∧ r.size = maxCount ∧
    ∃ r', r.add none ⟨⟨250, 250, 502, 250⟩, 0, 7⟩ true true = some r' ∧
      r'.contents.map (fun x => x.feed.map fun f => f.id) =
        ((List.range 251).eraseIdx keyCount).map fun n => some (Int.ofNat n) := by
  obtain ⟨r, hrun, hcontents, hfull⟩ := eviction_law crowd
  have hlen : r.contents.length = maxCount := by
    rw [hcontents]
    decide +kernel
  have hsize : r.size = maxCount := by
    unfold contents at hlen
    rw [List.length_map, List.length_range] at hlen
    unfold maxCount at hlen ⊢
    omega
  refine ⟨r, hrun, hsize, ?_⟩
  obtain ⟨i, x, hget, hgo, hbefore, -, -, hadd, -⟩ := hfull hsize
  obtain ⟨r', hr', h'⟩ := hadd none ⟨⟨250, 250, 502, 250⟩, 0, 7⟩ true true
  refine ⟨r', hr', ?_⟩
  rw [hcontents] at hget hgo hbefore h'
  have hfind : (crowd.foldl RingOp.effect []).findIdx? (mayGo (crowd.foldl RingOp.effect [])) =
      some keyCount := by
    decide +kernel
  have hout : i = keyCount := by
    obtain ⟨hlt, hfirst, hnone⟩ := List.findIdx?_eq_some_iff_getElem.mp hfind
    obtain ⟨hi, rfl⟩ := List.getElem?_eq_some_iff.mp hget
    rcases Nat.lt_trichotomy i keyCount with hless | heq | hmore
    · exact absurd hgo (hnone i hless)
    · exact heq
    · exact absurd hfirst (Bool.eq_false_iff.mp (hbefore keyCount _ hmore (List.getElem?_eq_getElem hlt)))
  rw [h', hout]
  decide +kernel

end LiveFeedRing

end Oce.FeedNews
