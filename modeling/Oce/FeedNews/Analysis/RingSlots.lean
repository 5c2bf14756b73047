import Mathlib.Data.List.Basic
import Oce.FeedNews.Model.Ring

/-!
# What is in the ring

`Keeps r l` says that the slots before `end_` hold the list `l`, oldest first, that each has a feed,
and that the sizes are those of the list. A place of the list is a slot of the ring counted back
from `end_`, and no two places are the same slot; with that each round of a loop is one
update of one slot, and the loops carry the list along.
-/

set_option autoImplicit false

namespace Oce.FeedNews.LiveFeedRing

open Function

variable {e n t : ℕ} {feed : PoolFeed} {x : LiveFeedItem}

/-- The slot of the place `t` in a list of `n` feeds that ends before `e`. -/
def place (e n t : ℕ) : ℕ := (e + (maxCount - n) + t) % maxCount

theorem place_inj {n' t' : ℕ} (ht : maxCount - n + t < maxCount)
    (ht' : maxCount - n' + t' < maxCount) :
    place e n t = place e n' t' ↔ maxCount - n + t = maxCount - n' + t' := by
  unfold place maxCount at *
  omega

/-- Whether a slot has a feed of the kind `k`. -/
def hasIndex (k : ℕ) (x : LiveFeedItem) : Bool := x.feed.any fun f => f.index = k

structure Keeps (r : LiveFeedRing) (l : List LiveFeedItem) : Prop where
  slots : ∀ t x, l[t]? = some x → r.feeds (place r.endPos l.length t) = x
  size : r.size = l.length
  le : l.length ≤ maxCount
  lt : r.endPos < maxCount
  filled : ∀ x ∈ l, x.feed.isSome = true
  sizes : ∀ k, r.partSize k = l.countP (hasIndex k)

theorem keeps_new : Keeps new [] where
  slots _ _ h := nomatch h
  size := rfl
  le := Nat.zero_le _
  lt := by decide
  filled _ h := nomatch h
  sizes _ := rfl

/-- A kind has one feed less when one of its feeds goes. -/
theorem update_size {f : ℕ → ℤ} (hx : x.feed = some feed) (k : ℕ)
    (hn : f k = n + (if hasIndex k x then 1 else 0)) :
    update f feed.index (f feed.index + -1) k = n := by
  unfold hasIndex at hn
  rw [hx] at hn
  by_cases hk : k = feed.index
  · subst hk
    rw [update_self, hn]
    simp
  · have hk' : ¬feed.index = k := fun h => hk h.symm
    rw [update_of_ne hk, hn]
    simp [hk']

/-! ## Removals -/

/-- What stays of the places from `t` on. -/
def kept (p : PoolFeed → Bool) (l : List LiveFeedItem) (t : ℕ) : List LiveFeedItem :=
  (l.drop t).filter fun x => !x.feed.any p

/-- The ids of what goes, the newest first. -/
def gone (p : PoolFeed → Bool) (l : List LiveFeedItem) (t : ℕ) : List ℤ :=
  (((l.drop t).filter fun x => x.feed.any p).reverse).filterMap fun x => x.feed.map fun f => f.id

/-- A removal has gone down to the place `t`: what stays of the rest is at the end, without a gap. -/
structure Compacting (p : PoolFeed → Bool) (e : ℕ) (l : List LiveFeedItem) (t : ℕ) (s : Compaction) :
    Prop where
  left : ∀ u x, u < t → l[u]? = some x → s.ring.feeds (place e l.length u) = x
  right : ∀ u x, (kept p l t)[u]? = some x → s.ring.feeds (place e (kept p l t).length u) = x
  first : (kept p l t).length + t = l.length ∧ s.first = -1 ∨
    (kept p l t).length + t < l.length ∧ s.first = e + maxCount - 1 - (kept p l t).length
  size : s.ring.size = (kept p l t).length + t
  endPos : s.ring.endPos = e
  sizes : ∀ k, s.ring.partSize k = (l.take t ++ kept p l t).countP (hasIndex k)
  ids : s.feedids = gone p l t

section Compacting

variable {p : PoolFeed → Bool} {e t : ℕ} {l : List LiveFeedItem} {x : LiveFeedItem}

theorem kept_succ (ht : l[t]? = some x) :
    kept p l t = if x.feed.any p then kept p l (t + 1) else x :: kept p l (t + 1) := by
  obtain ⟨hlt, rfl⟩ := List.getElem?_eq_some_iff.mp ht
  unfold kept
  rw [List.drop_eq_getElem_cons hlt]
  by_cases hp : l[t].feed.any p = true
  · rw [if_pos hp, List.filter_cons_of_neg (by simp [hp])]
  · rw [if_neg hp, List.filter_cons_of_pos (by simpa using hp)]

theorem gone_succ (ht : l[t]? = some x) (hx : x.feed = some feed) :
    gone p l t = if p feed then gone p l (t + 1) ++ [feed.id] else gone p l (t + 1) := by
  obtain ⟨hlt, rfl⟩ := List.getElem?_eq_some_iff.mp ht
  unfold gone
  rw [List.drop_eq_getElem_cons hlt]
  by_cases hp : p feed = true
  · rw [if_pos hp, List.filter_cons_of_pos (by rw [hx]; exact hp), List.reverse_cons,
      List.filterMap_append]
    refine congrArg _ ?_
    rw [List.filterMap_cons, hx]
    rfl
  · rw [if_neg hp, List.filter_cons_of_neg (by rw [hx]; exact hp)]

theorem length_kept_le (p : PoolFeed → Bool) (l : List LiveFeedItem) (t : ℕ) :
    (kept p l t).length ≤ l.length - t := by
  unfold kept
  rw [← List.length_drop]
  exact List.length_filter_le _ _

section Round

variable {s : Compaction} {feed : PoolFeed}

theorem Compacting.slot (h : Compacting p e l (t + 1) s) (ht : l[t]? = some x) :
    s.ring.feeds ((e + (maxCount - l.length + t)) % maxCount) = x := by
  have hat := h.left t x (Nat.lt_succ_self t) ht
  unfold place at hat
  rw [Nat.add_assoc] at hat
  exact hat

/-- The sizes without the next feed. -/
theorem Compacting.sizes_rest (h : Compacting p e l (t + 1) s) (ht : l[t]? = some x) (k : ℕ) :
    s.ring.partSize k =
      ((l.take t ++ kept p l (t + 1)).countP (hasIndex k) : ℕ) + (if hasIndex k x then 1 else 0) := by
  have htake : l.take (t + 1) = l.take t ++ [x] := by
    rw [List.take_add_one, ht]
    rfl
  rw [h.sizes k, htake, List.countP_append, List.countP_append, List.countP_append,
    List.countP_singleton]
  by_cases hk : hasIndex k x = true
  · rw [if_pos hk, if_pos hk]
    push_cast
    omega
  · rw [if_neg hk, if_neg hk]
    push_cast
    omega

/-- The first feed that goes leaves its slot as it is. -/
theorem Compacting.drop_first (h : Compacting p e l (t + 1) s) (hle : l.length ≤ maxCount)
    (ht : l[t]? = some x) (hfeed : x.feed = some feed) (hp : p feed = true)
    (hall : (kept p l (t + 1)).length + (t + 1) = l.length) :
    Compacting p e l t
      { ring := { s.ring.incPartSize feed (-1) with size := s.ring.size - 1 }
        first := (e + (maxCount - l.length + t) : ℕ)
        feedids := s.feedids ++ [feed.id] } := by
  have hkept : kept p l t = kept p l (t + 1) := by
    rw [kept_succ ht, hfeed]
    exact if_pos hp
  have hsize := h.size
  refine ⟨fun u y hu hy => h.left u y (Nat.lt_succ_of_lt hu) hy, ?_, ?_, ?_, h.endPos, ?_, ?_⟩
  · rw [hkept]
    exact h.right
  · right
    rw [hkept]
    dsimp only
    omega
  · rw [hkept]
    dsimp only
    omega
  · intro k
    rw [hkept]
    exact update_size hfeed k (h.sizes_rest ht k)
  · rw [gone_succ ht hfeed, if_pos hp]
    exact congrArg (· ++ [feed.id]) h.ids

/-- A further feed that goes leaves its slot empty. -/
theorem Compacting.drop_next (h : Compacting p e l (t + 1) s) (hle : l.length ≤ maxCount)
    (ht : l[t]? = some x) (hfeed : x.feed = some feed) (hp : p feed = true)
    (hless : (kept p l (t + 1)).length + (t + 1) < l.length)
    (hfirst : s.first = e + maxCount - 1 - (kept p l (t + 1)).length) :
    Compacting p e l t
      { s with
        ring :=
          { (s.ring.clearFeed ((e + (maxCount - l.length + t)) % maxCount)).incPartSize feed (-1) with
            size := s.ring.size - 1 }
        feedids := s.feedids ++ [feed.id] } := by
  have hlt := (List.getElem?_eq_some_iff.mp ht).1
  have hkept : kept p l t = kept p l (t + 1) := by
    rw [kept_succ ht, hfeed]
    exact if_pos hp
  have hsize := h.size
  have hother : ∀ n u, maxCount - n + u < maxCount → maxCount - n + u ≠ maxCount - l.length + t →
      (s.ring.clearFeed ((e + (maxCount - l.length + t)) % maxCount)).feeds (place e n u) =
        s.ring.feeds (place e n u) := by
    intro n u hlt' hne
    refine update_of_ne (fun he => hne ?_) _ _
    rw [← Nat.add_assoc] at he
    exact (place_inj hlt' (by omega)).mp he
  refine ⟨fun u y hu hy => ?_, fun u y hy => ?_, ?_, ?_, h.endPos, ?_, ?_⟩
  · have hul := (List.getElem?_eq_some_iff.mp hy).1
    exact (hother _ _ (by omega) (by omega)).trans (h.left u y (Nat.lt_succ_of_lt hu) hy)
  · rw [hkept] at hy ⊢
    have hul := (List.getElem?_eq_some_iff.mp hy).1
    exact (hother _ _ (by omega) (by omega)).trans (h.right u y hy)
  · right
    rw [hkept]
    dsimp only
    omega
  · rw [hkept]
    dsimp only
    omega
  · intro k
    rw [hkept]
    exact update_size hfeed k (h.sizes_rest ht k)
  · rw [gone_succ ht hfeed, if_pos hp]
    exact congrArg (· ++ [feed.id]) h.ids

theorem Compacting.sizes_cons (h : Compacting p e l (t + 1) s) (ht : l[t]? = some x) (k : ℕ) :
    s.ring.partSize k = (l.take t ++ x :: kept p l (t + 1)).countP (hasIndex k) := by
  rw [h.sizes_rest ht k, List.countP_append, List.countP_append, List.countP_cons]
  by_cases hk : hasIndex k x = true
  · rw [if_pos hk, if_pos hk]
    push_cast
    omega
  · rw [if_neg hk, if_neg hk]
    push_cast
    omega

/-- As long as nothing has gone, what stays is where it was. -/
theorem Compacting.stay (h : Compacting p e l (t + 1) s) (hle : l.length ≤ maxCount)
    (ht : l[t]? = some x) (hfeed : x.feed = some feed) (hp : ¬p feed = true)
    (hall : (kept p l (t + 1)).length + (t + 1) = l.length) (hfirst : s.first = -1) :
    Compacting p e l t s := by
  have hkept : kept p l t = x :: kept p l (t + 1) := by
    rw [kept_succ ht, hfeed]
    exact if_neg hp
  have hsize := h.size
  refine ⟨fun u y hu hy => h.left u y (Nat.lt_succ_of_lt hu) hy, fun u y hy => ?_, ?_, ?_, h.endPos,
    ?_, ?_⟩
  · rw [hkept] at hy ⊢
    rw [List.length_cons]
    cases u with
    | zero =>
        cases hy
        have hplace : place e ((kept p l (t + 1)).length + 1) 0 = place e l.length t :=
          (place_inj (by omega) (by omega)).mpr (by omega)
        rw [hplace]
        exact h.left t x (Nat.lt_succ_self t) ht
    | succ u =>
        have hul := (List.getElem?_eq_some_iff.mp hy).1
        rw [List.length_cons] at hul
        have hplace : place e ((kept p l (t + 1)).length + 1) (u + 1) =
            place e (kept p l (t + 1)).length u := (place_inj (by omega) (by omega)).mpr (by omega)
        rw [hplace]
        exact h.right u y hy
  · left
    rw [hkept, List.length_cons]
    omega
  · rw [hkept, List.length_cons]
    push_cast
    omega
  · intro k
    rw [hkept]
    exact h.sizes_cons ht k
  · rw [gone_succ ht hfeed, if_neg hp]
    exact h.ids

/-- What stays moves up to what is at the end. -/
theorem Compacting.move (h : Compacting p e l (t + 1) s) (hle : l.length ≤ maxCount)
    (ht : l[t]? = some x) (hfeed : x.feed = some feed) (hp : ¬p feed = true)
    (hless : (kept p l (t + 1)).length + (t + 1) < l.length)
    (hfirst : s.first = e + maxCount - 1 - (kept p l (t + 1)).length) :
    Compacting p e l t
      { s with
        ring := (s.ring.setFeed (s.first.toNat % maxCount) x).clearFeed
          ((e + (maxCount - l.length + t)) % maxCount)
        first := s.first - 1 } := by
  have hlt := (List.getElem?_eq_some_iff.mp ht).1
  have hkept : kept p l t = x :: kept p l (t + 1) := by
    rw [kept_succ ht, hfeed]
    exact if_neg hp
  have hsize := h.size
  set m := (kept p l (t + 1)).length with hm
  have hfree : s.first.toNat % maxCount = place e (m + 1) 0 := by
    have hnat : s.first.toNat = e + (maxCount - (m + 1)) + 0 := by omega
    rw [hnat]
    rfl
  have hslot : (e + (maxCount - l.length + t)) % maxCount = place e l.length t := by
    unfold place
    rw [Nat.add_assoc]
  rw [hfree, hslot]
  have hold : ∀ n u, maxCount - n + u < maxCount → maxCount - n + u ≠ maxCount - l.length + t →
      maxCount - n + u ≠ maxCount - (m + 1) + 0 →
      ((s.ring.setFeed (place e (m + 1) 0) x).clearFeed (place e l.length t)).feeds (place e n u) =
        s.ring.feeds (place e n u) := by
    intro n u hlt' hne hne'
    refine (update_of_ne (fun he => hne ?_) _ _).trans
      (update_of_ne (fun he => hne' ?_) _ _)
    · exact (place_inj hlt' (by omega)).mp he
    · exact (place_inj hlt' (by omega)).mp he
  refine ⟨fun u y hu hy => ?_, fun u y hy => ?_, ?_, ?_, h.endPos, ?_, ?_⟩
  · have hul := (List.getElem?_eq_some_iff.mp hy).1
    exact (hold _ _ (by omega) (by omega) (by omega)).trans (h.left u y (Nat.lt_succ_of_lt hu) hy)
  · rw [hkept] at hy ⊢
    rw [List.length_cons, ← hm]
    cases u with
    | zero =>
        cases hy
        refine (update_of_ne (fun he => ?_) _ _).trans (update_self _ _ _)
        have := (place_inj (by omega) (by omega)).mp he
        omega
    | succ u =>
        have hul := (List.getElem?_eq_some_iff.mp hy).1
        rw [List.length_cons] at hul
        have hplace : place e (m + 1) (u + 1) = place e m u :=
          (place_inj (by omega) (by omega)).mpr (by omega)
        rw [hplace]
        exact (hold _ _ (by omega) (by omega) (by omega)).trans (h.right u y hy)
  · right
    rw [hkept, List.length_cons]
    dsimp only
    omega
  · rw [hkept, List.length_cons]
    push_cast
    exact hsize.trans (by omega)
  · intro k
    rw [hkept]
    exact h.sizes_cons ht k
  · rw [gone_succ ht hfeed, if_neg hp]
    exact h.ids

/-- **One round of a removal.** -/
theorem Compacting.step (h : Compacting p e l (t + 1) s) (hle : l.length ≤ maxCount)
    (ht : l[t]? = some x) (hx : x.feed.isSome = true) :
    ∃ s', compactAt p s (e + (maxCount - l.length + t)) = some s' ∧ Compacting p e l t s' := by
  obtain ⟨feed, hfeed⟩ := Option.isSome_iff_exists.mp hx
  unfold compactAt
  rw [h.slot ht, hfeed, Option.map_some]
  refine ⟨_, rfl, ?_⟩
  rcases h.first with ⟨hall, hfirst⟩ | ⟨hless, hfirst⟩
  · rw [if_neg (by omega)]
    by_cases hp : p feed = true
    · rw [if_pos hp]
      exact h.drop_first hle ht hfeed hp hall
    · rw [if_neg hp]
      exact h.stay hle ht hfeed hp hall hfirst
  · rw [if_pos (by omega)]
    by_cases hp : p feed = true
    · rw [if_pos hp]
      exact h.drop_next hle ht hfeed hp hless hfirst
    · rw [if_neg hp]
      exact h.move hle ht hfeed hp hless hfirst

/-- The loop goes down to the oldest feed. -/
theorem Compacting.loop (hle : l.length ≤ maxCount) (hfilled : ∀ x ∈ l, x.feed.isSome = true)
    (ht : t ≤ l.length) (h : Compacting p e l t s) :
    ∃ s', compactLoop p e l.length (maxCount - l.length + t) s = some s' ∧ Compacting p e l 0 s' := by
  induction t generalizing s with
  | zero =>
      refine ⟨s, ?_, h⟩
      rw [Nat.add_zero]
      cases hn : maxCount - l.length with
      | zero => rfl
      | succ n =>
          unfold compactLoop
          rw [if_neg (by omega)]
  | succ t ih =>
      have hget : l[t]? = some l[t] := List.getElem?_eq_getElem ht
      obtain ⟨s₁, hs₁, h₁⟩ := h.step hle hget (hfilled _ (List.getElem_mem ht))
      obtain ⟨s', hs', h'⟩ := ih (Nat.le_of_succ_le ht) h₁
      refine ⟨s', ?_, h'⟩
      rw [← Nat.add_assoc]
      unfold compactLoop
      rw [if_pos (by push_cast; omega), hs₁]
      exact hs'

end Round

end Compacting

/-- **A removal takes the feeds that `p` chooses out of the list.** -/
theorem Keeps.compact {r : LiveFeedRing} {l : List LiveFeedItem} (h : Keeps r l) (p : PoolFeed → Bool) :
    ∃ r', r.compact p = some (gone p l 0, r') ∧ Keeps r' (l.filter fun x => !x.feed.any p) := by
  have hnil : kept p l l.length = [] := by
    unfold kept
    rw [List.drop_length]
    rfl
  have hstart : Compacting p r.endPos l l.length ⟨r, -1, []⟩ := by
    refine ⟨fun u x _ hx => h.slots u x hx, ?_, ?_, ?_, rfl, ?_, ?_⟩
    · rw [hnil]
      exact fun _ _ hx => nomatch hx
    · rw [hnil]
      exact .inl ⟨Nat.zero_add _, rfl⟩
    · rw [hnil]
      exact h.size.trans (Int.zero_add _).symm
    · intro k
      rw [hnil, List.take_length, List.append_nil]
      exact h.sizes k
    · unfold gone
      rw [List.drop_length]
      rfl
  obtain ⟨s, hs, hend⟩ := Compacting.loop h.le h.filled (Nat.le_refl _) hstart
  have hall : kept p l 0 = l.filter fun x => !x.feed.any p := by
    unfold kept
    rw [List.drop_zero]
  refine ⟨s.ring, ?_, ?_⟩
  · have hle := h.le
    unfold LiveFeedRing.compact
    rw [h.size]
    rw [Nat.sub_add_cancel hle] at hs
    rw [hs, Option.map_some, hend.ids]
  · rw [← hall]
    refine ⟨fun t x hx => ?_, ?_, ?_, ?_, fun x hx => ?_, fun k => ?_⟩
    · rw [hend.endPos]
      exact hend.right t x hx
    · exact hend.size
    · exact Nat.le_trans (length_kept_le p l 0) h.le
    · rw [hend.endPos]
      exact h.lt
    · exact h.filled x (List.mem_of_mem_filter (hall ▸ hx))
    · exact hend.sizes k

/-! ## Room for one more -/

section Room

variable {r : LiveFeedRing} {l : List LiveFeedItem}

theorem mod_place (h : Keeps r l) (t : ℕ) :
    mod ((r.endPos : ℤ) - r.size + t) = place r.endPos l.length t := by
  have hle := h.le
  unfold mod place
  rw [h.size]
  unfold maxCount at *
  omega

/-- The kind of a feed may lose one. -/
def mayGo (l : List LiveFeedItem) (x : LiveFeedItem) : Bool :=
  x.feed.any fun f => f.index = 0 ∨ keyCount < l.countP (hasIndex f.index)

theorem removable_eq (h : Keeps r l) (hx : x.feed = some feed) : r.removable feed = mayGo l x := by
  unfold removable mayGo
  rw [hx, h.sizes]
  simp

/-- What the scan from the place `t` on finds. -/
theorem Keeps.scan (h : Keeps r l) (n t : ℕ) (hn : n + t = l.length) :
    r.scan n (place r.endPos l.length t) t = some (((l.drop t).findIdx? (mayGo l)).bind fun i =>
      (l[t + i]?).bind fun x => x.feed.map fun feed => (feed, place r.endPos l.length (t + i), t + i)) := by
  induction n generalizing t with
  | zero =>
      rw [List.drop_eq_nil_of_le (by omega)]
      rfl
  | succ n ih =>
      have hlt : t < l.length := by omega
      have hget : l[t]? = some l[t] := List.getElem?_eq_getElem hlt
      obtain ⟨feed, hfeed⟩ := Option.isSome_iff_exists.mp (h.filled _ (List.getElem_mem hlt))
      have hnext : mod ((place r.endPos l.length t : ℤ) + 1) = place r.endPos l.length (t + 1) := by
        unfold mod place maxCount
        omega
      unfold LiveFeedRing.scan
      rw [h.slots t _ hget, hfeed, Option.bind_some, removable_eq h hfeed,
        List.drop_eq_getElem_cons hlt, List.findIdx?_cons]
      by_cases hgo : mayGo l l[t] = true
      · rw [if_pos hgo, if_pos hgo, Option.bind_some, Nat.add_zero, hget, Option.bind_some, hfeed]
        rfl
      · rw [if_neg hgo, if_neg hgo, hnext, ih (t + 1) (by omega), Option.bind_map]
        refine congrArg some (congrArg _ (funext fun i => ?_))
        show _ = (l[t + (i + 1)]?).bind _
        rw [Nat.add_assoc, Nat.add_comm 1 i]

/-- **The shift moves the places before `t` by one.** -/
theorem shiftLoop_spec (hn : n ≤ maxCount) (t fuel : ℕ) (hfuel : t < fuel) (ht : t < n)
    (feeds : ℕ → LiveFeedItem) :
    ∃ feeds', shiftLoop (place e n 0) fuel (place e n t) feeds = some feeds' ∧
      (∀ u, u < t → feeds' (place e n (u + 1)) = feeds (place e n u)) ∧
      ∀ u, t < u → u < n → feeds' (place e n u) = feeds (place e n u) := by
  induction t generalizing fuel feeds with
  | zero =>
      obtain ⟨fuel, rfl⟩ := Nat.exists_eq_succ_of_ne_zero (Nat.ne_of_gt hfuel)
      unfold shiftLoop
      rw [if_pos rfl]
      exact ⟨feeds, rfl, fun u hu => absurd hu (Nat.not_lt_zero u), fun _ _ _ => rfl⟩
  | succ t ih =>
      obtain ⟨fuel, rfl⟩ := Nat.exists_eq_succ_of_ne_zero (Nat.ne_of_gt (Nat.lt_of_le_of_lt (Nat.zero_le _) hfuel))
      have hne : place e n (t + 1) ≠ place e n 0 := fun he => by
        have := (place_inj (by omega) (by omega)).mp he
        omega
      have hself : mod (place e n (t + 1) : ℤ) = place e n (t + 1) := by
        unfold mod place maxCount
        omega
      have hprev : mod ((place e n (t + 1) : ℤ) - 1) = place e n t := by
        unfold mod place maxCount at *
        omega
      obtain ⟨feeds', hloop, hbefore, hafter⟩ := ih fuel (Nat.lt_of_succ_lt_succ hfuel) (Nat.lt_of_succ_lt ht)
        (update feeds (place e n (t + 1)) (feeds (place e n t)))
      have hother : ∀ u, u < n → u ≠ t + 1 →
          update feeds (place e n (t + 1)) (feeds (place e n t)) (place e n u) =
            feeds (place e n u) := by
        intro u hu hut
        refine update_of_ne (fun he => hut ?_) _ _
        have := (place_inj (by omega) (by omega)).mp he
        omega
      refine ⟨feeds', ?_, fun u hu => ?_, fun u hu hun => ?_⟩
      · unfold shiftLoop
        rw [if_neg hne, hself, hprev]
        exact hloop
      · by_cases hut : u = t
        · subst hut
          rw [hafter (u + 1) (Nat.lt_succ_self u) ht, update_self]
        · rw [hbefore u (by omega), hother u (by omega) (by omega)]
      · rw [hafter u (by omega) hun, hother u hun (by omega)]

theorem place_pred (hn : 0 < n) (hle : n ≤ maxCount) : place e (n - 1) t = place e n (t + 1) := by
  unfold place
  congr 1
  omega

/-- A feed has gone, and what was before it has moved up. -/
theorem Keeps.erase (h : Keeps r l) {i : ℕ} (hi : l[i]? = some x) (hfeed : x.feed = some feed)
    {feeds : ℕ → LiveFeedItem}
    (hbefore : ∀ u, u < i → feeds (place r.endPos l.length (u + 1)) = r.feeds (place r.endPos l.length u))
    (hafter : ∀ u, i < u → u < l.length →
      feeds (place r.endPos l.length u) = r.feeds (place r.endPos l.length u)) :
    Keeps { r.incPartSize feed (-1) with size := r.size - 1, feeds := feeds } (l.eraseIdx i) := by
  have hle := h.le
  have hlt : i < l.length := (List.getElem?_eq_some_iff.mp hi).1
  have hlen : (l.eraseIdx i).length = l.length - 1 := List.length_eraseIdx_of_lt hlt
  refine ⟨fun u y hy => ?_, ?_, ?_, h.lt, fun y hy => h.filled y (List.mem_of_mem_eraseIdx hy), fun k => ?_⟩
  · dsimp only
    rw [hlen, place_pred (by omega) hle]
    rw [List.getElem?_eraseIdx] at hy
    by_cases hu : u < i
    · rw [if_pos hu] at hy
      exact (hbefore u hu).trans (h.slots u y hy)
    · rw [if_neg hu] at hy
      have hul := (List.getElem?_eq_some_iff.mp hy).1
      exact (hafter (u + 1) (by omega) hul).trans (h.slots (u + 1) y hy)
  · rw [hlen]
    dsimp only
    rw [h.size]
    omega
  · rw [hlen]
    omega
  · have hsplit : l = l.take i ++ x :: l.drop (i + 1) := by
      obtain ⟨hlt', rfl⟩ := List.getElem?_eq_some_iff.mp hi
      rw [← List.drop_eq_getElem_cons hlt', List.take_append_drop]
    refine update_size hfeed k ?_
    rw [h.sizes k, List.eraseIdx_eq_take_drop_succ, List.countP_append]
    conv_lhs => rw [hsplit]
    rw [List.countP_append, List.countP_cons]
    by_cases hk : hasIndex k x = true
    · rw [if_pos hk, if_pos hk]
      push_cast
      omega
    · rw [if_neg hk, if_neg hk]
      push_cast
      omega

/-- The place of the feed that goes when there is no room. -/
def outgoing (l : List LiveFeedItem) : ℕ := (l.findIdx? (mayGo l)).getD 0

/-- **`RemoveOldest` takes one feed out.** -/
theorem Keeps.removeOldest (h : Keeps r l) (hne : 0 < l.length) :
    ∃ r', r.removeOldest = some r' ∧ Keeps r' (l.eraseIdx (outgoing l)) ∧ r'.endPos = r.endPos := by
  have hfirst := mod_place h 0
  rw [Int.ofNat_zero, Int.add_zero] at hfirst
  have hscan := h.scan l.length 0 (Nat.add_zero _)
  have hsize : r.size.toNat = l.length := by
    rw [h.size]
    rfl
  unfold LiveFeedRing.removeOldest
  dsimp only
  rw [hfirst, hsize, hscan, Option.bind_some, List.drop_zero]
  unfold outgoing
  cases hfind : l.findIdx? (mayGo l) with
  | none =>
      have hget : l[0]? = some l[0] := List.getElem?_eq_getElem hne
      obtain ⟨feed, hfeed⟩ := Option.isSome_iff_exists.mp (h.filled _ (List.getElem_mem hne))
      rw [Option.bind_none]
      dsimp only
      rw [h.slots 0 _ hget, hfeed, Option.map_some, Option.getD_none]
      exact ⟨_, rfl, h.erase hget hfeed (fun u hu => absurd hu (Nat.not_lt_zero u)) (fun _ _ _ => rfl), rfl⟩
  | some i =>
      have hlt : i < l.length := (List.findIdx?_eq_some_iff_getElem.mp hfind).1
      have hget : l[i]? = some l[i] := List.getElem?_eq_getElem hlt
      obtain ⟨feed, hfeed⟩ := Option.isSome_iff_exists.mp (h.filled _ (List.getElem_mem hlt))
      rw [Option.bind_some, Nat.zero_add, hget, Option.bind_some, hfeed, Option.map_some, Option.getD_some]
      dsimp only
      by_cases hi : 0 < i
      · rw [if_pos hi]
        obtain ⟨feeds, hloop, hbefore, hafter⟩ := shiftLoop_spec (e := r.endPos) h.le i maxCount
          (Nat.lt_of_lt_of_le hlt h.le) hlt r.feeds
        unfold LiveFeedRing.shiftItems
        have hmod : ∀ t, mod (place r.endPos l.length t : ℤ) = place r.endPos l.length t := by
          intro t
          unfold mod place maxCount
          omega
        dsimp only
        rw [hmod, hmod, show shiftLoop _ _ _ (r.incPartSize feed (-1)).feeds = some feeds from hloop]
        exact ⟨_, rfl, h.erase hget hfeed hbefore hafter, rfl⟩
      · rw [if_neg hi]
        have hzero : i = 0 := Nat.eq_zero_of_not_pos hi
        subst hzero
        exact ⟨_, rfl, h.erase hget hfeed (fun u hu => absurd hu (Nat.not_lt_zero u)) (fun _ _ _ => rfl), rfl⟩

end Room

end Oce.FeedNews.LiveFeedRing
