import Mathlib.Data.List.Sort
import Oce.ConsistentHash.Model.Continuum

/-!
# The owner of a hash

A hash is owned by the first point that is not below it, or by the first point of all. When
equal points are kept in one fixed order of their nodes, points that are taken away change
the owner only of the hashes they owned (`Owns.of_subset`), and that is what removing a
node and rebuilding does.

`Rebuild` fails when the capacities add up to 0, and then the points of an earlier map
stay; and a name that does not fit the buffer is hashed with whatever lies behind it.
-/

set_option autoImplicit false

namespace Oce.ConsistentHash

open Oce.Base Continuum

/-! ## Points on the ring -/

/-- The order in which the points stand: by point, and equal ones in a fixed order. -/
def Before (tie : Desc → Desc → Prop) (p q : Point) : Prop :=
  p.point < q.point ∨ p.point = q.point ∧ tie p.desc q.desc

/-- The point owns the hash: it is the first that is not below, or the first of all if all
are below. -/
def Owns (tie : Desc → Desc → Prop) (points : List Point) (hash : UInt32) (p : Point) : Prop :=
  p ∈ points ∧
    (hash ≤ p.point ∧ (∀ q ∈ points, hash ≤ q.point → Before tie p q) ∨
      (∀ q ∈ points, ¬ hash ≤ q.point) ∧ ∀ q ∈ points, Before tie p q)

instance (tie : Desc → Desc → Prop) [DecidableRel tie] : DecidableRel (Before tie) := fun _ _ =>
  inferInstanceAs (Decidable (_ ∨ _))

section Ring

variable {tie : Desc → Desc → Prop} {points points' : List Point} {hash : UInt32} {p q : Point}

theorem Before.antisymm (hanti : ∀ a b, tie a b → tie b a → a = b) (h : Before tie p q)
    (h' : Before tie q p) : p.desc = q.desc := by
  rcases h with h | ⟨he, ht⟩
  · rcases h' with h' | ⟨he', -⟩
    · exact absurd (UInt32.lt_trans h h') (UInt32.lt_irrefl _)
    · exact absurd (he' ▸ h) (UInt32.lt_irrefl _)
  · rcases h' with h' | ⟨-, ht'⟩
    · exact absurd (he ▸ h') (UInt32.lt_irrefl _)
    · exact hanti _ _ ht ht'

/-- A hash has one owner. -/
theorem Owns.unique (hanti : ∀ a b, tie a b → tie b a → a = b) (h : Owns tie points hash p)
    (h' : Owns tie points hash q) : p.desc = q.desc := by
  obtain ⟨hp, ⟨hge, hfirst⟩ | ⟨hnone, hfirst⟩⟩ := h
  · obtain ⟨hq, ⟨hge', hfirst'⟩ | ⟨hnone', -⟩⟩ := h'
    · exact (hfirst q hq hge').antisymm hanti (hfirst' p hp hge)
    · exact absurd hge (hnone' p hp)
  · obtain ⟨hq, ⟨hge', -⟩ | ⟨-, hfirst'⟩⟩ := h'
    · exact absurd hge' (hnone q hq)
    · exact (hfirst q hq).antisymm hanti (hfirst' p hp)

/-- **Points that go away leave an owner that stays.** -/
theorem Owns.of_subset (h : Owns tie points hash p) (hsub : points' ⊆ points) (hp : p ∈ points') :
    Owns tie points' hash p := by
  refine ⟨hp, ?_⟩
  obtain ⟨-, ⟨hge, hfirst⟩ | ⟨hnone, hfirst⟩⟩ := h
  · exact Or.inl ⟨hge, fun q hq => hfirst q (hsub hq)⟩
  · exact Or.inr ⟨fun q hq => hnone q (hsub hq), fun q hq => hfirst q (hsub hq)⟩

/-- The first of a sorted list that passes a test comes before all others that do. -/
theorem find_before (hrefl : ∀ a, tie a a) (hsorted : points.Pairwise (Before tie))
    {P : Point → Bool} (hfind : points.find? P = some p) : ∀ q ∈ points, P q → Before tie p q := by
  induction points with
  | nil => cases hfind
  | cons a l ih =>
      obtain ⟨ha, hl⟩ := List.pairwise_cons.mp hsorted
      rw [List.find?_cons] at hfind
      intro q hq hPq
      split at hfind
      · cases hfind
        rcases List.mem_cons.mp hq with rfl | hq
        · exact Or.inr ⟨rfl, hrefl _⟩
        · exact ha q hq
      · rename_i hPa
        rcases List.mem_cons.mp hq with rfl | hq
        · rw [hPa] at hPq
          cases hPq
        · exact ih hl hfind q hq hPq

end Ring

/-- The search in a sorted list finds the owner. -/
theorem locate_owns {tie : Desc → Desc → Prop} (hrefl : ∀ a, tie a a) {c : Continuum}
    (hsorted : c.points.Pairwise (Before tie)) (hne : c.points ≠ []) (hash : UInt32) :
    ∃ p, c.locate hash = p.desc ∧ Owns tie c.points hash p := by
  unfold Continuum.locate
  cases hfind : c.points.find? fun p => decide (hash ≤ p.point) with
  | some p =>
      refine ⟨p, rfl, List.mem_of_find?_eq_some hfind, Or.inl ⟨?_, fun q hq hge => ?_⟩⟩
      · simpa using List.find?_some hfind
      · exact find_before hrefl hsorted hfind q hq (by simpa using hge)
  | none =>
      have hnone : ∀ q ∈ c.points, ¬ hash ≤ q.point := by
        simpa using List.find?_eq_none.mp hfind
      cases hc : c.points with
      | nil => exact absurd hc hne
      | cons p l =>
          rw [hc] at hnone hsorted
          obtain ⟨hp, -⟩ := List.pairwise_cons.mp hsorted
          refine ⟨p, rfl, List.mem_cons_self, Or.inr ⟨hnone, fun q hq => ?_⟩⟩
          rcases List.mem_cons.mp hq with rfl | hq
          · exact Or.inr ⟨rfl, hrefl _⟩
          · exact hp q hq

/-! ## The points of a map -/

/-- No node has any capacity. -/
def Continuum.NoCapacity (c : Continuum) : Prop := ∀ e ∈ c.descMap.entries, e.2 = 0

/-- The texts of the points of the node fit the buffer. -/
def Fits (desc : Desc) (capacity : UInt32) : Prop :=
  ∀ k < capacity.toNat, (text desc k).length < bigEnough

/-- The capacities do not add up to 0 modulo `2^32`, unless there are none and no points
either, and the nodes that have a capacity have a name, which fits the buffer. -/
def Continuum.Sound (c : Continuum) : Prop :=
  (c.totalPoint ≠ 0 ∨ c.NoCapacity ∧ c.points = []) ∧
    ∀ e ∈ c.descMap.entries, e.2 ≠ 0 → e.1 ≠ [] ∧ Fits e.1 e.2

/-- `Locate` finds the owner of the hash among the points of the map, which is a node that
has a capacity, and nothing exactly when no node has, and removing a node changes nothing
for a hash it did not own. -/
structure Continuum.Located (c : Continuum) (env : Env) (tie : Desc → Desc → Prop)
    (after : Memory) : Prop where
  empty : ∀ hash, c.locate hash = [] ↔ c.NoCapacity
  member : ¬ c.NoCapacity → ∀ hash, ∃ capacity,
    c.descMap.find (c.locate hash) = some capacity ∧ capacity ≠ 0
  owner : ¬ c.NoCapacity → ∀ hash, ∃ p, c.locate hash = p.desc ∧
    Owns tie (c.target env after) hash p
  removal : ∀ desc after' hash, c.locate hash ≠ desc →
    ((c.remove desc).rebuild env after').2.locate hash = c.locate hash

instance (c : Continuum) : Decidable c.NoCapacity := inferInstanceAs (Decidable (∀ _ ∈ _, _))

instance (desc : Desc) (capacity : UInt32) : Decidable (Fits desc capacity) :=
  inferInstanceAs (Decidable (∀ _ < _, _))

instance (c : Continuum) : Decidable c.Sound := inferInstanceAs (Decidable (_ ∧ _))

section Points

variable {c : Continuum} {env : Env} {after after' : Memory}

theorem Continuum.NoCapacity.totalPoint (h : c.NoCapacity) : c.totalPoint = 0 := by
  unfold Continuum.totalPoint
  unfold Continuum.NoCapacity at h
  generalize c.descMap.entries = l at h
  induction l with
  | nil => rfl
  | cons e l ih =>
      rw [List.map_cons, List.sum_cons, h e List.mem_cons_self,
        ih fun e' he' => h e' (List.mem_cons_of_mem e he')]
      rfl

theorem mem_target {p : Point} : p ∈ c.target env after ↔ ∃ e ∈ c.descMap.entries, ∃ k < e.2.toNat,
    p = ⟨env.func (hashed after e.1 k), e.1⟩ := by
  unfold Continuum.target
  simp only [List.mem_flatMap, List.mem_map, List.mem_range]
  constructor
  · rintro ⟨e, he, k, hk, rfl⟩
    exact ⟨e, he, k, hk, rfl⟩
  · rintro ⟨e, he, k, hk, rfl⟩
    exact ⟨e, he, k, hk, rfl⟩

/-- A node without capacity has no points. -/
theorem pos_of_lt {capacity : UInt32} {k : ℕ} (h : k < capacity.toNat) : capacity ≠ 0 := by
  rintro rfl
  exact absurd h (Nat.not_lt_zero k)

theorem target_ne_nil (h : ¬ c.NoCapacity) : c.target env after ≠ [] := by
  unfold Continuum.NoCapacity at h
  push Not at h
  obtain ⟨e, he, hne⟩ := h
  have hpos : 0 < e.2.toNat := by
    rcases Nat.eq_zero_or_pos e.2.toNat with h0 | hpos
    · exact absurd (UInt32.toNat_inj.mp h0) hne
    · exact hpos
  exact List.ne_nil_of_mem (mem_target.mpr ⟨e, he, 0, hpos, rfl⟩)

/-- A text that fits is hashed as it is. -/
theorem hashed_of_fits {desc : Desc} {k : ℕ} (h : (text desc k).length < bigEnough) :
    hashed after desc k = text desc k := by
  unfold hashed
  have hbuf : (text desc k).take (bigEnough - 1) = text desc k :=
    List.take_of_length_le (by omega)
  rw [hbuf]
  exact List.take_left

/-- Removing a node takes its points away and leaves the others. -/
theorem mem_target_remove (hc : ∀ e ∈ c.descMap.entries, e.2 ≠ 0 → e.1 ≠ [] ∧ Fits e.1 e.2)
    (desc : Desc) {p : Point} :
    p ∈ (c.remove desc).target env after' ↔ p ∈ c.target env after ∧ p.desc ≠ desc := by
  have hhash : ∀ e ∈ c.descMap.entries, ∀ k < e.2.toNat,
      hashed after' e.1 k = hashed after e.1 k := by
    intro e he k hk
    have hfits := (hc e he (pos_of_lt hk)).2 k hk
    rw [hashed_of_fits hfits, hashed_of_fits hfits]
  rw [mem_target, mem_target]
  constructor
  · rintro ⟨e, he, k, hk, rfl⟩
    obtain ⟨he, hne⟩ := OrdMap.mem_entries_erase.mp he
    exact ⟨⟨e, he, k, hk, by rw [hhash e he k hk]⟩, hne⟩
  · rintro ⟨⟨e, he, k, hk, rfl⟩, hne⟩
    exact ⟨e, OrdMap.mem_entries_erase.mpr ⟨he, hne⟩, k, hk, by rw [hhash e he k hk]⟩

end Points

/-! ## Rebuilding -/

/-- What `std::sort` does, with equal points in one fixed order of their nodes. -/
structure Sorts (env : Env) (tie : Desc → Desc → Prop) : Prop where
  refl : ∀ a, tie a a
  antisymm : ∀ a b, tie a b → tie b a → a = b
  perm : ∀ points, (env.sort points).Perm points
  sorted : ∀ points, (env.sort points).Pairwise (Before tie)

variable {env : Env} {tie : Desc → Desc → Prop} {c : Continuum}

/-- The owner among the points of a rebuild. -/
theorem Sorts.locate_target (hs : Sorts env tie) {after : Memory} (hne : c.target env after ≠ [])
    (hash : UInt32) : ∃ p, ({ c with points := env.sort (c.target env after) } : Continuum).locate
        hash = p.desc ∧ Owns tie (c.target env after) hash p := by
  have hperm := hs.perm (c.target env after)
  have hnil : env.sort (c.target env after) ≠ [] := fun h0 => hne (List.nil_perm.mp (h0 ▸ hperm))
  obtain ⟨p, hp, howns⟩ := locate_owns
    (c := { c with points := env.sort (c.target env after) }) hs.refl (hs.sorted _) hnil hash
  exact ⟨p, hp, howns.of_subset hperm.symm.subset (hperm.subset howns.1)⟩

/-- **A rebuild of a sound map.** -/
theorem Continuum.Sound.located (hs : Sorts env tie) (hc : c.Sound) (after : Memory) :
    (c.rebuild env after).2.Located env tie after := by
  obtain ⟨htotal, hfits⟩ := hc
  unfold Continuum.rebuild
  by_cases hzero : c.totalPoint = 0
  · -- nothing has capacity, before or after, and no point is left
    obtain ⟨hno, hnil⟩ := htotal.resolve_left fun h => h hzero
    rw [if_pos hzero]
    have hlocate : ∀ hash, c.locate hash = [] := by
      intro hash
      unfold Continuum.locate
      rw [hnil]
      rfl
    refine ⟨fun hash => ⟨fun _ => hno, fun _ => hlocate hash⟩, fun h => absurd hno h,
      fun h => absurd hno h, fun desc after' hash _ => ?_⟩
    have hno' : (c.remove desc).NoCapacity := fun e he =>
      hno e (OrdMap.mem_entries_erase.mp he).1
    show ((c.remove desc).rebuild env after').2.locate hash = c.locate hash
    unfold Continuum.rebuild
    rw [if_pos hno'.totalPoint]
    rfl
  rw [if_neg hzero]
  have hcapacity : ¬ c.NoCapacity := fun h => hzero h.totalPoint
  have hne : c.target env after ≠ [] := target_ne_nil hcapacity
  have howner := fun hash => hs.locate_target hne hash
  -- the owner is a node that has a capacity, and so a name
  have hnode : ∀ p ∈ c.target env after, ∃ e ∈ c.descMap.entries, p.desc = e.1 ∧ e.2 ≠ 0 := by
    intro p hp
    obtain ⟨e, he, k, hk, rfl⟩ := mem_target.mp hp
    exact ⟨e, he, rfl, pos_of_lt hk⟩
  refine ⟨fun hash => ⟨fun hempty => ?_, fun h => absurd h hcapacity⟩, fun _ hash => ?_,
    fun _ hash => howner hash, fun desc after' hash hne => ?_⟩
  · obtain ⟨p, hp, howns⟩ := howner hash
    obtain ⟨e, he, hdesc, hpos⟩ := hnode p howns.1
    refine absurd ?_ (hfits e he hpos).1
    rw [← hdesc, ← hp]
    exact hempty
  · obtain ⟨p, hp, howns⟩ := howner hash
    obtain ⟨e, he, hdesc, hpos⟩ := hnode p howns.1
    refine ⟨e.2, ?_, hpos⟩
    rw [hp, hdesc]
    exact (OrdMap.mem_entries_iff c.descMap).mp he
  · obtain ⟨p, hp, howns⟩ := howner hash
    rw [hp] at hne ⊢
    have hmem : ∀ q, q ∈ (c.remove desc).target env after' ↔
        q ∈ c.target env after ∧ q.desc ≠ desc := fun q => mem_target_remove hfits desc
    have hp' : p ∈ (c.remove desc).target env after' := (hmem p).mpr ⟨howns.1, hne⟩
    have howns' := howns.of_subset (fun q hq => ((hmem q).mp hq).1) hp'
    show (if (c.remove desc).totalPoint = 0 then _ else _ : Bool × Continuum).2.locate hash = p.desc
    by_cases hzero' : (c.remove desc).totalPoint = 0
    · -- a rebuild that fails leaves the points as they are
      rw [if_pos hzero']
      exact hp
    · rw [if_neg hzero']
      obtain ⟨q, hq, howns''⟩ := hs.locate_target (List.ne_nil_of_mem hp') hash
      exact hq.trans (howns''.unique hs.antisymm howns')

/-- **After every run that ends with a rebuild, if the map is sound then.** -/
theorem locate_after_rebuild (hs : Sorts env tie) (ops : List ContinuumOp) (after : Memory)
    (hsound : (runOps (ContinuumOp.step env) .new ops).Sound) :
    (runOps (ContinuumOp.step env) .new (ops ++ [.rebuild after])).Located env tie after := by
  rw [runOps_append]
  exact hsound.located hs after

/-- A hash function and a sorting that keeps equal points in the order of their nodes. -/
def sampleEnv : Env where
  func bytes := UInt32.ofNat (bytes.foldl (fun h b => 31 * h + b.val) 0)
  sort points := points.insertionSort (Before (· ≤ ·))

instance : Std.Total (Before (· ≤ ·)) where
  total p q := by
    by_cases h : p.point = q.point
    · exact (le_total p.desc q.desc).imp (fun hd => Or.inr ⟨h, hd⟩) fun hd => Or.inr ⟨h.symm, hd⟩
    · exact (UInt32.lt_or_lt_of_ne h).imp Or.inl Or.inl

instance : IsTrans Point (Before (· ≤ ·)) where
  trans p q r := by
    rintro (h | ⟨he, hd⟩) (h' | ⟨he', hd'⟩)
    · exact Or.inl (UInt32.lt_trans h h')
    · exact Or.inl (he' ▸ h)
    · exact Or.inl (he ▸ h')
    · exact Or.inr ⟨he.trans he', hd.trans hd'⟩

theorem sorts_sampleEnv : Sorts sampleEnv (· ≤ ·) where
  refl a := le_refl a
  antisymm _ _ := le_antisymm
  perm points := List.perm_insertionSort _ points
  sorted points := List.pairwise_insertionSort _ points

/-- Two nodes, one of which is removed again. -/
theorem locate_after_rebuild_removed :
    (runOps (ContinuumOp.step sampleEnv) .new
      ([.add [97] 2, .add [98] 3, .remove [97]] ++ [.rebuild fun _ _ _ => 0])).Located
        sampleEnv (· ≤ ·) fun _ _ _ => 0 :=
  locate_after_rebuild sorts_sampleEnv _ _ (by decide)

/-- The only node is removed: the rebuild reports failure and its points stay. -/
theorem removed_node_located :
    ¬ (runOps (ContinuumOp.step sampleEnv) .new
      ([.add [97] 1, .rebuild fun _ _ _ => 0, .remove [97]] ++ [.rebuild fun _ _ _ => 0])).Located
        sampleEnv (· ≤ ·) fun _ _ _ => 0 := by
  intro h
  refine absurd ((h.empty 0).mpr ?_) ?_
  · decide
  · decide

end Oce.ConsistentHash
