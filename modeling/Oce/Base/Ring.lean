import Mathlib.Order.Bounds.Basic
import Oce.Base.OrdMap

/-!
# Points on a ring

A point is reached from `h` if it is the first that is not below `h`, or the first of all when
all are below (`Reaches`). There is one such point at most, and which it is depends on the set of
the points only (`Reaches.unique`, `Reaches.congr`).

The node of `h` is the first that wants the point that is reached from `h` (`NodeOf`). It stays the
node where others come and go (`nodeOf_iff_of_subset`).

A ring is a map from points to owners. `claimAll` lets a list of owners claim their points where
the first keeps a point, `assignAll` where the last takes it; both have the same points
(`isSome_claimAll`, `isSome_assignAll`).
-/

set_option autoImplicit false

namespace Oce.Base

variable {κ ν α : Type*} [LinearOrder κ]

/-- The point that is reached from `h`. -/
def Reaches (P : κ → Prop) (h p : κ) : Prop :=
  P p ∧ ((h ≤ p ∧ ∀ q, P q → h ≤ q → p ≤ q) ∨ ((∀ q, P q → q < h) ∧ ∀ q, P q → p ≤ q))

theorem Reaches.unique {P : κ → Prop} {h p q : κ} (hp : Reaches P h p) (hq : Reaches P h q) :
    p = q := by
  obtain ⟨hPp, ⟨hge, hfirst⟩ | ⟨hnone, hfirst⟩⟩ := hp
  · obtain ⟨hPq, ⟨hge', hfirst'⟩ | ⟨hnone', -⟩⟩ := hq
    · exact le_antisymm (hfirst q hPq hge') (hfirst' p hPp hge)
    · exact absurd hge (not_le.mpr (hnone' p hPp))
  · obtain ⟨hPq, ⟨hge', -⟩ | ⟨-, hfirst'⟩⟩ := hq
    · exact absurd hge' (not_le.mpr (hnone q hPq))
    · exact le_antisymm (hfirst q hPq) (hfirst' p hPp)

theorem Reaches.congr {P P' : κ → Prop} {h p : κ} (heq : ∀ q, P q ↔ P' q)
    (hp : Reaches P h p) : Reaches P' h p := by
  have hPP' : P = P' := funext fun q => propext (heq q)
  exact hPP' ▸ hp

/-- Among fewer points the one that is reached is still reached, if it is left. -/
theorem Reaches.mono {P P' : κ → Prop} {h p : κ} (hle : ∀ q, P' q → P q) (hp' : P' p)
    (hp : Reaches P h p) : Reaches P' h p := by
  obtain ⟨-, ⟨hge, hfirst⟩ | ⟨hnone, hfirst⟩⟩ := hp
  · exact ⟨hp', .inl ⟨hge, fun q hq => hfirst q (hle q hq)⟩⟩
  · exact ⟨hp', .inr ⟨fun q hq => hnone q (hle q hq), fun q hq => hfirst q (hle q hq)⟩⟩

/-! ## Nodes -/

section Nodes

variable {σ : Type*} [LinearOrder σ] (wants : σ → κ → Prop)

/-- A node wants the point. -/
def Wanted (S : Set σ) (p : κ) : Prop := ∃ a ∈ S, wants a p

/-- The node of `h`: the first that wants the point that is reached from `h`. -/
def NodeOf (S : Set σ) (h : κ) (a : σ) : Prop :=
  ∃ p, Reaches (Wanted wants S) h p ∧ IsLeast {b | b ∈ S ∧ wants b p} a

variable {wants} {S S' : Set σ} {h : κ} {a b : σ}

theorem NodeOf.mem (ha : NodeOf wants S h a) : a ∈ S := by
  obtain ⟨p, -, hleast⟩ := ha
  exact hleast.1.1

theorem NodeOf.unique (ha : NodeOf wants S h a) (hb : NodeOf wants S h b) : a = b := by
  obtain ⟨p, hp, hleast⟩ := ha
  obtain ⟨q, hq, hleast'⟩ := hb
  obtain rfl : p = q := hp.unique hq
  exact hleast.unique hleast'

/-- Among fewer nodes the node of `h` is still its node, if it is left. -/
theorem NodeOf.of_subset (hsub : S' ⊆ S) (hmem : a ∈ S') (ha : NodeOf wants S h a) :
    NodeOf wants S' h a := by
  obtain ⟨p, hp, ⟨-, hwants⟩, hleast⟩ := ha
  refine ⟨p, ?_, ⟨hmem, hwants⟩, fun b hb => hleast ⟨hsub hb.1, hb.2⟩⟩
  refine hp.mono (fun q hq => ?_) ⟨a, hmem, hwants⟩
  obtain ⟨b, hb, hq⟩ := hq
  exact ⟨b, hsub hb, hq⟩

/-- **What has lost or got a node that is not its own keeps its node.** -/
theorem nodeOf_iff_of_subset (hsub : S' ⊆ S) (hmem : b ∈ S') (hb : NodeOf wants S h b) (a : σ) :
    NodeOf wants S' h a ↔ NodeOf wants S h a := by
  have hb' := hb.of_subset hsub hmem
  constructor
  · intro ha
    exact ha.unique hb' ▸ hb
  · intro ha
    exact ha.unique hb ▸ hb'

end Nodes

/-! ## Owners -/

namespace OrdMap

/-- The points of one owner, those that are free. -/
def claim (points : List κ) (v : ν) (m : OrdMap κ ν) : OrdMap κ ν :=
  points.foldl (fun m p => m.insertNew p v) m

/-- The points of one owner, whoever had them. -/
def assign (points : List κ) (v : ν) (m : OrdMap κ ν) : OrdMap κ ν :=
  points.foldl (fun m p => m.insert p v) m

theorem find_claim (points : List κ) (v : ν) (m : OrdMap κ ν) (p : κ) :
    (claim points v m).find p = (m.find p).or (if p ∈ points then some v else none) := by
  induction points generalizing m with
  | nil => simp [claim]
  | cons q points ih =>
      have hstep : claim (q :: points) v m = claim points v (m.insertNew q v) := rfl
      rw [hstep, ih, find_insertNew]
      by_cases hq : p = q
      · subst hq
        cases m.find p <;> simp
      · simp [hq]

theorem find_assign (points : List κ) (v : ν) (m : OrdMap κ ν) (p : κ) :
    (assign points v m).find p = (if p ∈ points then some v else none).or (m.find p) := by
  induction points generalizing m with
  | nil => simp [assign]
  | cons q points ih =>
      have hstep : assign (q :: points) v m = assign points v (m.insert q v) := rfl
      rw [hstep, ih, find_insert]
      by_cases hq : p = q
      · subst hq
        by_cases hmem : p ∈ points <;> simp [hmem]
      · simp [hq]

/-- Owners one after the other, each taking what is free. -/
def claimAll (points : α → List κ) (v : α → ν) (l : List α) (m : OrdMap κ ν) : OrdMap κ ν :=
  l.foldl (fun m a => claim (points a) (v a) m) m

/-- Owners one after the other, each taking what it wants. -/
def assignAll (points : α → List κ) (v : α → ν) (l : List α) (m : OrdMap κ ν) : OrdMap κ ν :=
  l.foldl (fun m a => assign (points a) (v a) m) m

/-- **The first that wants a point has it.** -/
theorem find_claimAll (points : α → List κ) (v : α → ν) (l : List α) (m : OrdMap κ ν) (p : κ) :
    (claimAll points v l m).find p =
      (m.find p).or ((l.find? fun a => decide (p ∈ points a)).map v) := by
  induction l generalizing m with
  | nil => simp [claimAll]
  | cons a l ih =>
      have hstep : claimAll points v (a :: l) m =
          claimAll points v l (claim (points a) (v a) m) := rfl
      rw [hstep, ih, find_claim, List.find?_cons]
      by_cases hmem : p ∈ points a
      · cases m.find p <;> simp [hmem]
      · simp [hmem]

/-- **The last that wants a point has it.** -/
theorem find_assignAll (points : α → List κ) (v : α → ν) (l : List α) (m : OrdMap κ ν) (p : κ) :
    (assignAll points v l m).find p =
      ((l.reverse.find? fun a => decide (p ∈ points a)).map v).or (m.find p) := by
  induction l generalizing m with
  | nil => simp [assignAll]
  | cons a l ih =>
      have hstep : assignAll points v (a :: l) m =
          assignAll points v l (assign (points a) (v a) m) := rfl
      rw [hstep, ih, find_assign, List.reverse_cons, List.find?_append]
      cases l.reverse.find? fun a => decide (p ∈ points a) with
      | some b => simp
      | none => by_cases hmem : p ∈ points a <;> simp [hmem]

theorem isSome_claimAll {points : α → List κ} {v : α → ν} {l : List α} {p : κ} :
    ((claimAll points v l empty).find p).isSome ↔ ∃ a ∈ l, p ∈ points a := by
  rw [find_claimAll, find_empty, Option.none_or, Option.isSome_map, List.find?_isSome]
  simp

/-- Where the keys of a map claim points in their order, the least that wants a point has it. -/
theorem find_claimAll_entries {σ ω : Type*} [LinearOrder σ] (points : σ → List κ) (v : σ × ν → ω)
    (m : OrdMap σ ν) (p : κ) (w : ω) :
    (claimAll (fun e : σ × ν => points e.1) v m.entries empty).find p = some w ↔
      ∃ a b, IsLeast {c | (m.find c).isSome ∧ p ∈ points c} a ∧ m.find a = some b ∧
        v (a, b) = w := by
  rw [find_claimAll, find_empty, Option.none_or, Option.map_eq_some_iff]
  constructor
  · rintro ⟨⟨a, b⟩, hfind, rfl⟩
    have hmem : m.find a = some b := m.mem_entries_iff.mp (List.mem_of_find?_eq_some hfind)
    have hwants : p ∈ points a := of_decide_eq_true (List.find?_some hfind :)
    refine ⟨a, b, ⟨⟨Option.isSome_iff_exists.mpr ⟨b, hmem⟩, hwants⟩, ?_⟩, hmem, rfl⟩
    rintro c ⟨hc, hcp⟩
    obtain ⟨b', hb'⟩ := Option.isSome_iff_exists.mp hc
    exact le_of_find? hfind (m.mem_entries_iff.mpr hb') (decide_eq_true hcp)
  · rintro ⟨a, b, ⟨⟨-, hwants⟩, hleast⟩, hmem, rfl⟩
    have hentry := m.mem_entries_iff.mpr hmem
    cases hfind : m.entries.find? fun e => decide (p ∈ points e.1) with
    | none => exact absurd (decide_eq_true hwants) (List.find?_eq_none.mp hfind _ hentry)
    | some e =>
        have he := m.mem_entries_iff.mp (List.mem_of_find?_eq_some hfind)
        have hle : e.1 ≤ a := le_of_find? hfind hentry (decide_eq_true hwants)
        have hge : a ≤ e.1 := hleast
          ⟨Option.isSome_iff_exists.mpr ⟨_, he⟩, of_decide_eq_true (List.find?_some hfind :)⟩
        obtain rfl : e.1 = a := le_antisymm hle hge
        refine ⟨e, rfl, ?_⟩
        rw [hmem] at he
        cases he
        rfl

theorem isSome_assignAll {points : α → List κ} {v : α → ν} {l : List α} {p : κ} :
    ((assignAll points v l empty).find p).isSome ↔ ∃ a ∈ l, p ∈ points a := by
  rw [find_assignAll, find_empty, Option.or_none, Option.isSome_map, List.find?_isSome]
  simp

/-- The first entry that is not below, or the first of all, is at the point that is reached. -/
theorem reaches_of_first {m : OrdMap κ ν} {h : κ} {e : κ × ν}
    (he : (∃ l₁ l₂, m.entries = l₁ ++ e :: l₂ ∧ (∀ e' ∈ l₁, e'.1 < h) ∧ h ≤ e.1) ∨
      ((∀ e' ∈ m.entries, e'.1 < h) ∧ m.entries.head? = some e)) :
    Reaches (fun p => (m.find p).isSome) h e.1 ∧ m.find e.1 = some e.2 := by
  have hmem : e ∈ m.entries := by
    rcases he with ⟨l₁, l₂, hl, -, -⟩ | ⟨-, hhead⟩
    · simp [hl]
    · exact List.mem_of_mem_head? hhead
  have hfind : m.find e.1 = some e.2 := m.mem_entries_iff.mp hmem
  have hsorted := List.pairwise_map.mp m.sorted
  refine ⟨⟨Option.isSome_iff_exists.mpr ⟨_, hfind⟩, ?_⟩, hfind⟩
  have hentry : ∀ q, (m.find q).isSome → ∃ w, (q, w) ∈ m.entries := fun q hq => by
    obtain ⟨w, hw⟩ := Option.isSome_iff_exists.mp hq
    exact ⟨w, m.mem_entries_iff.mpr hw⟩
  rcases he with ⟨l₁, l₂, hl, hbelow, hge⟩ | ⟨hbelow, hhead⟩
  · refine .inl ⟨hge, fun q hq hhq => ?_⟩
    obtain ⟨w, hw⟩ := hentry q hq
    rw [hl] at hw hsorted
    rcases List.mem_append.mp hw with hw | hw
    · exact absurd (hbelow _ hw) (not_lt.mpr hhq)
    · rcases List.mem_cons.mp hw with rfl | hw
      · exact le_rfl
      · exact ((List.pairwise_cons.mp (List.pairwise_append.mp hsorted).2.1).1 _ hw).le
  · refine .inr ⟨fun q hq => ?_, fun q hq => ?_⟩
    · obtain ⟨w, hw⟩ := hentry q hq
      exact hbelow _ hw
    · obtain ⟨w, hw⟩ := hentry q hq
      obtain ⟨l, hl⟩ := List.head?_eq_some_iff.mp hhead
      rw [hl] at hw hsorted
      rcases List.mem_cons.mp hw with rfl | hw
      · exact le_rfl
      · exact ((List.pairwise_cons.mp hsorted).1 _ hw).le

end OrdMap

end Oce.Base
