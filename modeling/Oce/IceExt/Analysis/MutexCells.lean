import Oce.IceExt.Model.TempMutex

/-!
# The mutex of a key

What the manager has for a key is its `cell`: an address and the mutex there. Getting, releasing, and
whatever else is done to the mutex of a key changes its cell and no other.
-/

set_option autoImplicit false

namespace Oce.IceExt.TempMutex

open Function Oce.Base

variable {κ : Type} [LinearOrder κ] {number : κ → ℤ} {holderSize : ℤ}

variable {c : ℤ} {o : Option ℕ} {n : ℕ}

/-! ## Cells -/

namespace State

variable (number holderSize)

/-- The address and the mutex that a key leads to. -/
def cell (s : State κ) (k : κ) : Option (ℕ × TempMutexT) :=
  (holder number holderSize k).bind fun i => (s.mutexMap i k).bind fun p => (s.heap p).map fun m => (p, m)

/-- Entries lead to mutexes that are there, each to its own, and there are no others. -/
structure Wf (s : State κ) : Prop where
  mapped : ∀ {i k p}, s.mutexMap i k = some p →
    holder number holderSize k = some i ∧ p < s.next ∧ (s.heap p).isSome
  inj : ∀ {i k p i' k'}, s.mutexMap i k = some p → s.mutexMap i' k' = some p → k = k'
  live : ∀ {p m}, s.heap p = some m → ∃ i k, s.mutexMap i k = some p

end State

open State

variable {s s' : State κ} {i p : ℕ} {k k' : κ} {m m' : TempMutexT}

@[simp] theorem threads_setThread (s : State κ) (t : ℕ) (th : Thread κ) :
    (s.setThread t th).threads = s.threads.set t th := rfl

@[simp] theorem log_setThread (s : State κ) (t : ℕ) (th : Thread κ) : (s.setThread t th).log = s.log := rfl

theorem cell_eq_some (hs : s.Wf number holderSize) :
    s.cell number holderSize k = some (p, m) ↔ (∃ i, s.mutexMap i k = some p) ∧ s.heap p = some m := by
  unfold cell
  simp only [Option.bind_eq_some_iff, Option.map_eq_some_iff, Prod.mk.injEq]
  constructor
  · rintro ⟨i, -, q, hq, m', hm, rfl, rfl⟩
    exact ⟨⟨i, hq⟩, hm⟩
  · rintro ⟨⟨i, hi⟩, hm⟩
    exact ⟨i, (hs.mapped hi).1, p, hi, m, hm, rfl, rfl⟩

theorem cell_eq_none (hs : s.Wf number holderSize) (hk : holder number holderSize k = some i) :
    s.cell number holderSize k = none ↔ s.mutexMap i k = none := by
  cases hp : s.mutexMap i k with
  | none => simp [cell, hk, hp]
  | some p =>
      obtain ⟨-, -, hlive⟩ := hs.mapped hp
      obtain ⟨m, hm⟩ := Option.isSome_iff_exists.mp hlive
      simp [cell, hk, hp, hm]

/-- Only the tables and the mutexes matter. -/
theorem cell_congr (hmap : s'.mutexMap = s.mutexMap) (hheap : s'.heap = s.heap) (k : κ) :
    s'.cell number holderSize k = s.cell number holderSize k := by
  unfold cell
  rw [hmap, hheap]

theorem State.Wf.congr (hs : s.Wf number holderSize) (hmap : s'.mutexMap = s.mutexMap) (hheap : s'.heap = s.heap)
    (hnext : s'.next = s.next) : s'.Wf number holderSize where
  mapped h := by
    rw [hmap] at h
    rw [hnext, hheap]
    exact hs.mapped h
  inj h h' := by
    rw [hmap] at h h'
    exact hs.inj h h'
  live h := by
    rw [hheap] at h
    rw [hmap]
    exact hs.live h

/-- What is done to the mutex of a key is done to its cell. -/
theorem put_spec (s' : State κ) (m' : TempMutexT) (hs : s.Wf number holderSize)
    (hk : s.cell number holderSize k = some (p, m))
    (hmap : s'.mutexMap = s.mutexMap) (hheap : s'.heap = update s.heap p (some m'))
    (hnext : s'.next = s.next) :
    s'.Wf number holderSize ∧ ∀ j, s'.cell number holderSize j =
      if j = k then some (p, m') else s.cell number holderSize j := by
  obtain ⟨⟨i, hi⟩, hm⟩ := (cell_eq_some hs).mp hk
  have hwf : s'.Wf number holderSize := by
    refine ⟨fun h => ?_, fun h h' => ?_, fun {q m₁} h => ?_⟩
    · rw [hmap] at h
      obtain ⟨hholder, hlt, hlive⟩ := hs.mapped h
      refine ⟨hholder, hnext ▸ hlt, ?_⟩
      rw [hheap, update_apply]
      split
      · rfl
      · exact hlive
    · rw [hmap] at h h'
      exact hs.inj h h'
    · rw [hheap, update_apply] at h
      rw [hmap]
      split at h
      case isTrue heq => exact heq ▸ ⟨i, k, hi⟩
      case isFalse => exact hs.live h
  refine ⟨hwf, fun j => ?_⟩
  by_cases hj : j = k
  · subst hj
    rw [if_pos rfl, cell_eq_some hwf, hmap, hheap, update_self]
    exact ⟨⟨i, hi⟩, rfl⟩
  · rw [if_neg hj]
    have hother : ∀ i q, s.mutexMap i j = some q → s'.heap q = s.heap q := by
      intro i' q hq
      rw [hheap, update_of_ne]
      rintro rfl
      exact hj (hs.inj hq hi)
    unfold cell
    rw [hmap]
    congr 1
    funext i'
    cases hq : s.mutexMap i' j with
    | none => rfl
    | some q => rw [Option.bind_some, Option.bind_some, hother i' q hq]

/-- A key that leads nowhere is given a new mutex. -/
theorem insert_spec (s' : State κ) (hs : s.Wf number holderSize) (hk : holder number holderSize k = some i)
    (hnone : s.mutexMap i k = none) (hmap : s'.mutexMap =
      update s.mutexMap i (update (s.mutexMap i) k (some s.next)))
    (hheap : s'.heap = update s.heap s.next (some m)) (hnext : s'.next = s.next + 1) :
    s'.Wf number holderSize ∧ ∀ j, s'.cell number holderSize j =
      if j = k then some (s.next, m) else s.cell number holderSize j := by
  have hentry : ∀ i' j, s'.mutexMap i' j = if i' = i ∧ j = k then some s.next else s.mutexMap i' j := by
    intro i' j
    rw [hmap, update_apply]
    by_cases hi : i' = i
    · subst hi
      rw [if_pos rfl, update_apply]
      simp
    · simp [hi]
  have hfresh : ∀ {i' j p}, s.mutexMap i' j = some p → p ≠ s.next := fun h => by
    have := (hs.mapped h).2.1
    omega
  have hwf : s'.Wf number holderSize := by
    refine ⟨fun {i' j p} h => ?_, fun {i₁ j₁ p i₂ j₂} h h' => ?_, fun {q m₁} h => ?_⟩
    · rw [hentry] at h
      split at h
      case isTrue heq =>
        obtain ⟨rfl, rfl⟩ := heq
        obtain rfl := Option.some.inj h
        exact ⟨hk, by omega, by simp [hheap]⟩
      case isFalse =>
        obtain ⟨hholder, hlt, hlive⟩ := hs.mapped h
        refine ⟨hholder, by omega, ?_⟩
        rwa [hheap, update_of_ne (hfresh h)]
    · rw [hentry] at h h'
      split at h <;> split at h'
      case isTrue.isTrue heq heq' => exact heq.2.trans heq'.2.symm
      case isTrue.isFalse => exact absurd (Option.some.inj h).symm (hfresh h')
      case isFalse.isTrue => exact absurd (Option.some.inj h').symm (hfresh h)
      case isFalse.isFalse => exact hs.inj h h'
    · rw [hheap, update_apply] at h
      split at h
      case isTrue heq => exact ⟨i, k, by rw [hentry, if_pos ⟨rfl, rfl⟩, heq]⟩
      case isFalse =>
        obtain ⟨i', j, hj⟩ := hs.live h
        refine ⟨i', j, ?_⟩
        rw [hentry, if_neg, hj]
        rintro ⟨rfl, rfl⟩
        rw [hnone] at hj
        cases hj
  refine ⟨hwf, fun j => ?_⟩
  by_cases hj : j = k
  · subst hj
    rw [if_pos rfl, cell_eq_some hwf, hheap, update_self]
    exact ⟨⟨i, by rw [hentry, if_pos ⟨rfl, rfl⟩]⟩, rfl⟩
  · rw [if_neg hj]
    unfold cell
    congr 1
    funext i'
    rw [hentry, if_neg fun h => hj h.2]
    cases hq : s.mutexMap i' j with
    | none => rfl
    | some q => rw [Option.bind_some, Option.bind_some, hheap, update_of_ne (hfresh hq)]

/-- A key whose mutex is freed leads nowhere. -/
theorem erase_spec (s' : State κ) (hs : s.Wf number holderSize) (hp : s.mutexMap i k = some p) (hmap : s'.mutexMap =
      update s.mutexMap i (update (s.mutexMap i) k none))
    (hheap : s'.heap = update s.heap p none) (hnext : s'.next = s.next) :
    s'.Wf number holderSize ∧ ∀ j, s'.cell number holderSize j =
      if j = k then none else s.cell number holderSize j := by
  have hk := (hs.mapped hp).1
  have hentry : ∀ i' j, s'.mutexMap i' j = if i' = i ∧ j = k then none else s.mutexMap i' j := by
    intro i' j
    rw [hmap, update_apply]
    by_cases hi : i' = i
    · subst hi
      rw [if_pos rfl, update_apply]
      simp
    · simp [hi]
  have hother : ∀ {i' j q}, s.mutexMap i' j = some q → ¬(i' = i ∧ j = k) → q ≠ p := by
    rintro i' j q hq hne rfl
    obtain rfl := hs.inj hq hp
    exact hne ⟨Option.some.inj ((hs.mapped hq).1.symm.trans hk), rfl⟩
  have hkept : ∀ {i' j q}, s'.mutexMap i' j = some q → s.mutexMap i' j = some q ∧ q ≠ p := by
    intro i' j q h
    rw [hentry] at h
    split at h
    case isTrue => cases h
    case isFalse hne => exact ⟨h, hother h hne⟩
  have hwf : s'.Wf number holderSize := by
    refine ⟨fun h => ?_, fun h h' => hs.inj (hkept h).1 (hkept h').1, fun {q m₁} h => ?_⟩
    · obtain ⟨hold, hne⟩ := hkept h
      obtain ⟨hholder, hlt, hlive⟩ := hs.mapped hold
      exact ⟨hholder, hnext ▸ hlt, by rwa [hheap, update_of_ne hne]⟩
    · rw [hheap, update_apply] at h
      split at h
      case isTrue => cases h
      case isFalse hne =>
        obtain ⟨i', j, hj⟩ := hs.live h
        refine ⟨i', j, ?_⟩
        rw [hentry, if_neg, hj]
        rintro ⟨rfl, rfl⟩
        exact hne (Option.some.inj (hj.symm.trans hp))
  refine ⟨hwf, fun j => ?_⟩
  by_cases hj : j = k
  · subst hj
    rw [if_pos rfl, cell_eq_none hwf hk, hentry, if_pos ⟨rfl, rfl⟩]
  · rw [if_neg hj]
    unfold cell
    congr 1
    funext i'
    rw [hentry, if_neg fun h => hj h.2]
    cases hq : s.mutexMap i' j with
    | none => rfl
    | some q =>
        rw [Option.bind_some, Option.bind_some, hheap, update_of_ne (hother hq fun h => hj h.2)]

/-! ## The manager -/

/-- What there is for a key that `n` are counted at. -/
def entry (n : ℕ) (o : Option ℕ) : Option TempMutexT := if n = 0 then none else some ⟨n, o⟩

theorem entry_succ (n : ℕ) (o : Option ℕ) : entry (n + 1) o = some ⟨(n : ℤ) + 1, o⟩ := by
  simp [entry]

theorem inc_eq (hp : s.heap p = some ⟨c, o⟩) (hc : IsInt (c + 1)) :
    s.inc p = { s with heap := update s.heap p (some ⟨c + 1, o⟩) } := by
  simp [inc, touch, hp, hc]

theorem dec_eq (hp : s.heap p = some ⟨c, o⟩) (hc : IsInt (c - 1)) :
    s.dec p = { s with heap := update s.heap p (some ⟨c - 1, o⟩) } := by
  simp [dec, touch, hp, hc]

/-- **A mutex is got.** It is the one there is, or a new one, counted up. -/
theorem getMutex_spec (hs : s.Wf number holderSize) (hk : holder number holderSize k = some i)
    (hcell : (s.cell number holderSize k).map Prod.snd = entry n o) (ho : n = 0 → o = none)
    (hn : IsInt (n + 1)) :
    ∃ s' p, s.getMutex i k = (s', p) ∧ s'.Wf number holderSize ∧ s'.threads = s.threads ∧ s'.log = s.log ∧
      s'.fault = s.fault ∧ (∀ p' m, s.cell number holderSize k = some (p', m) → p = p') ∧
      ∀ j, s'.cell number holderSize j =
        if j = k then some (p, ⟨(n : ℤ) + 1, o⟩) else s.cell number holderSize j := by
  unfold getMutex
  cases hp : s.mutexMap i k with
  | some p =>
      obtain ⟨-, -, hlive⟩ := hs.mapped hp
      obtain ⟨m, hm⟩ := Option.isSome_iff_exists.mp hlive
      have hc : s.cell number holderSize k = some (p, m) := (cell_eq_some hs).mpr ⟨⟨i, hp⟩, hm⟩
      have hpos : n ≠ 0 := by
        rintro rfl
        simp [hc, entry] at hcell
      simp only [hc, Option.map_some, entry, if_neg hpos, Option.some.injEq] at hcell
      subst hcell
      have hinc := inc_eq hm hn
      obtain ⟨hwf, hcells⟩ := put_spec (s.inc p) ⟨(n : ℤ) + 1, o⟩ hs hc (by rw [hinc])
        (by rw [hinc]) (by rw [hinc])
      refine ⟨s.inc p, p, rfl, hwf, by rw [hinc], by rw [hinc], by rw [hinc], fun p' m hc' => ?_, hcells⟩
      rw [hc] at hc'
      exact (Prod.mk.inj (Option.some.inj hc')).1
  | none =>
      have hc := (cell_eq_none hs hk).mpr hp
      have hzero : n = 0 := by
        by_contra hpos
        simp [hc, entry, hpos] at hcell
      obtain rfl := ho hzero
      have hold : (0 : ℤ) = n := by simp [hzero]
      dsimp only
      rw [hold, inc_eq (update_self _ _ _) hn]
      refine ⟨_, _, rfl, ?_⟩
      obtain ⟨hwf, hcells⟩ := insert_spec { s with
        heap := update s.heap s.next (some ⟨n + 1, none⟩)
        mutexMap := update s.mutexMap i (update (s.mutexMap i) k (some s.next))
        next := s.next + 1 } hs hk hp rfl rfl rfl
      rw [update_idem]
      refine ⟨hwf, rfl, rfl, rfl, fun p' m hc' => ?_, hcells⟩
      rw [hc] at hc'
      cases hc'

/-- **A mutex is released.** It is freed when nobody is counted any more. -/
theorem releaseMutex_spec (hs : s.Wf number holderSize) (hk : holder number holderSize k = some i)
    (hcell : s.cell number holderSize k = some (p, ⟨(n : ℤ) + 1, o⟩)) (hn : IsInt n)
    (hfree : n = 0 → o = none) :
    (s.releaseMutex i k).Wf number holderSize ∧ (s.releaseMutex i k).threads = s.threads ∧
      (s.releaseMutex i k).log = s.log ∧ (s.releaseMutex i k).fault = s.fault ∧
      ∀ j, (s.releaseMutex i k).cell number holderSize j =
        if j = k then (entry n o).map fun m => (p, m) else s.cell number holderSize j := by
  obtain ⟨⟨i', hi'⟩, hm⟩ := (cell_eq_some hs).mp hcell
  obtain rfl : i' = i := Option.some.inj ((hs.mapped hi').1.symm.trans hk)
  have hback : (n : ℤ) + 1 - 1 = n := by omega
  have hdec := dec_eq hm (hback.symm ▸ hn)
  rw [hback] at hdec
  unfold releaseMutex
  rw [hi']
  dsimp only
  rw [hdec]
  simp only [update_self, Option.map_some, Option.some.injEq, Int.natCast_eq_zero]
  by_cases hzero : n = 0
  · obtain rfl := hfree hzero
    subst hzero
    rw [if_pos rfl]
    unfold free
    simp only [update_self, update_idem]
    obtain ⟨hwf, hcells⟩ := erase_spec { s with
      heap := update s.heap p none
      mutexMap := update s.mutexMap i' (update (s.mutexMap i') k none) } hs hi' rfl rfl rfl
    simpa [entry] using And.intro hwf hcells
  · rw [if_neg hzero, entry, if_neg hzero]
    obtain ⟨hwf, hcells⟩ := put_spec { s with
      heap := update s.heap p (some ⟨n, o⟩) } _ hs hcell rfl rfl rfl
    exact ⟨hwf, rfl, rfl, rfl, hcells⟩

end Oce.IceExt.TempMutex
