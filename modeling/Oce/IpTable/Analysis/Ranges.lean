import Oce.IpTable.Model.Sorter

/-!
# Adding, asking and removing

`Sound`: the `bits` of a point, where it has any, are the records that cover it, and its `eits`
those that end at it; a record begins at a point with `bits` and ends at a point. From this the
walk backwards finds what covers the place it starts from, whichever points it passes.

`addIP` keeps the points sound, whatever the ranges are. `get` answers right where it is defined:
at a point with `bits`, or with a point before it. `remove` takes all ranges of the university
out of the points between the two ends, and marks the end of the range before them; it keeps the
points sound when the range meets no other of its university and that mark is not made.
-/

set_option autoImplicit false

namespace Oce.IpTable

open Oce.Base

section Points

variable {m m' : IpMap} {live : List IPTable} {x y : ℤ} {p : IPoint} {r : IPTable} {u : ℤ}

/-! ## Records of a university -/

/-- The records of a university with a property. -/
def recordsOf (live : List IPTable) (P : IPTable → Prop) [DecidablePred P] (u : ℤ) : ℕ :=
  live.countP fun r => r.univ = u ∧ P r

def Covers (x : ℤ) (r : IPTable) : Prop := r.start ≤ x ∧ x ≤ r.stop

def EndsAt (x : ℤ) (r : IPTable) : Prop := r.stop = x

/-- It ends at `y` or later, and before `x`. -/
def EndsIn (y x : ℤ) (r : IPTable) : Prop := y ≤ r.stop ∧ r.stop < x

/-- It begins before `x` and does not end before it. -/
def Reaches (x : ℤ) (r : IPTable) : Prop := r.start < x ∧ x ≤ r.stop

instance (x : ℤ) : DecidablePred (Covers x) := fun _ => inferInstanceAs (Decidable (_ ∧ _))

instance (x : ℤ) : DecidablePred (EndsAt x) := fun r => inferInstanceAs (Decidable (r.stop = x))

instance (y x : ℤ) : DecidablePred (EndsIn y x) := fun _ => inferInstanceAs (Decidable (_ ∧ _))

instance (x : ℤ) : DecidablePred (Reaches x) := fun _ => inferInstanceAs (Decidable (_ ∧ _))

section Records

variable {P Q R : IPTable → Prop} [DecidablePred P] [DecidablePred Q] [DecidablePred R]

theorem recordsOf_pos : 0 < recordsOf live P u ↔ ∃ r ∈ live, r.univ = u ∧ P r := by
  unfold recordsOf
  simp [List.countP_pos_iff]

theorem recordsOf_zero (h : ∀ r ∈ live, r.univ = u → ¬ P r) : recordsOf live P u = 0 := by
  by_contra hne
  obtain ⟨r, hr, hu, hP⟩ := recordsOf_pos.mp (Nat.pos_of_ne_zero hne)
  exact h r hr hu hP

theorem recordsOf_congr (h : ∀ r ∈ live, P r ↔ Q r) (u : ℤ) :
    recordsOf live P u = recordsOf live Q u := by
  apply List.countP_congr
  intro r hr
  simp [h r hr]

theorem recordsOf_le (h : ∀ r ∈ live, r.univ = u → P r → Q r) :
    recordsOf live P u ≤ recordsOf live Q u := by
  apply List.countP_mono_left
  intro r hr
  simp only [decide_eq_true_eq]
  exact fun hP => ⟨hP.1, h r hr hP.1 hP.2⟩

theorem recordsOf_add (h : ∀ r ∈ live, (P r ↔ Q r ∨ R r) ∧ ¬ (Q r ∧ R r)) (u : ℤ) :
    recordsOf live P u = recordsOf live Q u + recordsOf live R u := by
  apply countP_add
  intro r hr
  obtain ⟨hor, hnot⟩ := h r hr
  simp only [decide_eq_true_eq]
  exact ⟨by rw [hor, and_or_left], fun hboth => hnot ⟨hboth.1.2, hboth.2.2⟩⟩

theorem recordsOf_append (live : List IPTable) (r : IPTable) (u : ℤ) :
    recordsOf (live ++ [r]) P u =
      recordsOf live P u + if r.univ = u ∧ P r then 1 else 0 := by
  unfold recordsOf
  rw [List.countP_append, List.countP_singleton]
  simp

end Records

/-! ## The invariant -/

structure Sound (m : IpMap) (live : List IPTable) : Prop where
  ordered : ∀ r ∈ live, r.start ≤ r.stop
  bits : ∀ x p, m.find x = some p → p.bits.entries ≠ [] → Counted p.bits (recordsOf live (Covers x))
  eits : ∀ x p, m.find x = some p → Counted p.eits (recordsOf live (EndsAt x))
  start : ∀ r ∈ live, ∃ p, m.find r.start = some p ∧ p.bits.entries ≠ []
  stop : ∀ r ∈ live, ∃ p, m.find r.stop = some p

theorem sound_empty : Sound .empty [] where
  ordered := nofun
  bits := nofun
  eits := nofun
  start := nofun
  stop := nofun

theorem Sound.not_start (h : Sound m live) (hp : ∀ p, m.find x = some p → p.bits.entries = [])
    (hr : r ∈ live) : r.start ≠ x := by
  rintro rfl
  obtain ⟨p, hfind, hne⟩ := h.start r hr
  exact hne (hp p hfind)

theorem Sound.not_stop (h : Sound m live) (hp : m.find x = none) (hr : r ∈ live) : r.stop ≠ x := by
  rintro rfl
  obtain ⟨p, hfind⟩ := h.stop r hr
  rw [hp] at hfind
  cases hfind

/-- A point without `bits` is covered by what begins before it. -/
theorem Sound.covers_eq (h : Sound m live) (hp : ∀ p, m.find x = some p → p.bits.entries = [])
    (u : ℤ) : recordsOf live (Reaches x) u = recordsOf live (Covers x) u := by
  refine recordsOf_congr (fun r hr => ?_) u
  have := h.not_start hp hr
  unfold Reaches Covers
  omega

/-! ## Walking back -/

/-- **The walk.** The points of `l` go down from `y`, one that is missing lies below one with
`bits`; `c` is what ended between `y` and `x`, where nothing begins. -/
theorem walkBack_counted (h : Sound m live) {l : List (ℤ × IPoint)} {c : UnivCount} (hyx : y ≤ x)
    (hmem : ∀ e ∈ l, m.find e.1 = some e.2 ∧ e.1 < y)
    (hdown : l.Pairwise fun e e' => e'.1 < e.1)
    (hall : ∀ z p, m.find z = some p → z < y →
      (z, p) ∈ l ∨ ∃ e ∈ l, e.2.bits.entries ≠ [] ∧ z < e.1)
    (hbegin : ∀ r ∈ live, r.start < y ∨ x ≤ r.start)
    (hc : Counted c (recordsOf live (EndsIn y x))) :
    ∃ b, walkBack l c = some b ∧ Counted b (recordsOf live (Reaches x)) := by
  induction l generalizing y c with
  | nil =>
      refine ⟨.empty, rfl, Counted.empty.congr fun u => (recordsOf_zero fun r hr _ hreach => ?_).symm⟩
      -- a record that begins before `x` would have its point below `y`
      obtain ⟨p, hfind, -⟩ := h.start r hr
      have hlt : r.start < y := (hbegin r hr).resolve_right (by unfold Reaches at hreach; omega)
      rcases hall _ _ hfind hlt with hnil | ⟨e, hnil, -⟩
      · cases hnil
      · cases hnil
  | cons e l ih =>
      obtain ⟨z, p⟩ := e
      obtain ⟨hz, hzy⟩ := hmem (z, p) List.mem_cons_self
      rw [List.pairwise_cons] at hdown
      have hbelow : ∀ e ∈ l, e.1 < z := hdown.1
      -- no point lies between `z` and `y`
      have hgap : ∀ w q, m.find w = some q → w < y → w ≤ z := by
        intro w q hw hwy
        rcases hall w q hw hwy with hin | ⟨e, he, -, hlt⟩
        · rcases List.mem_cons.mp hin with heq | hin
          · cases heq
            omega
          · have := hbelow _ hin
            dsimp only at this
            omega
        · rcases List.mem_cons.mp he with rfl | he
          · dsimp only at hlt
            omega
          · have := hbelow e he
            omega
      have hstop : ∀ r ∈ live, r.stop < y → r.stop ≤ z := by
        intro r hr hlt
        obtain ⟨q, hq⟩ := h.stop r hr
        exact hgap _ q hq hlt
      have hstart : ∀ r ∈ live, r.start < y → r.start ≤ z := by
        intro r hr hlt
        obtain ⟨q, hq, -⟩ := h.start r hr
        exact hgap _ q hq hlt
      have hended : Counted (c.addEntries p.eits.entries) (recordsOf live (EndsIn z x)) := by
        refine (hc.add (h.eits z p hz)).congr fun u => ?_
        refine (recordsOf_add (fun r hr => ?_) u).symm
        have := hstop r hr
        unfold EndsIn EndsAt
        omega
      unfold walkBack
      dsimp only
      by_cases hbits : p.bits.entries = []
      · rw [if_neg (by simpa using hbits)]
        refine ih (by omega) (fun e he => ⟨(hmem e (List.mem_cons_of_mem _ he)).1, hbelow e he⟩)
          hdown.2 (fun w q hw hwz => ?_) (fun r hr => ?_) hended
        · rcases hall w q hw (by omega) with hin | ⟨e, he, hne, hlt⟩
          · rcases List.mem_cons.mp hin with heq | hin
            · cases heq
              omega
            · exact .inl hin
          · rcases List.mem_cons.mp he with rfl | he
            · exact absurd hbits hne
            · exact .inr ⟨e, he, hne, hlt⟩
        · have hne : r.start ≠ z := h.not_start (fun q hq => by
            rw [hz] at hq
            cases hq
            exact hbits) hr
          have := hstart r hr
          have := hbegin r hr
          omega
      · rw [if_pos hbits]
        have hle : ∀ u, recordsOf live (EndsIn z x) u ≤ recordsOf live (Covers z) u := by
          intro u
          refine recordsOf_le fun r hr _ hends => ?_
          have := hstart r hr
          have := hbegin r hr
          have := h.ordered r hr
          unfold EndsIn at hends
          unfold Covers
          omega
        obtain ⟨b, hb, hcount⟩ := (h.bits z p hz hbits).take hended hle
        refine ⟨b, hb, hcount.congr fun u => ?_⟩
        have hsplit : recordsOf live (Covers z) u =
            recordsOf live (EndsIn z x) u + recordsOf live (Reaches x) u := by
          refine recordsOf_add (fun r hr => ?_) u
          have := hstart r hr
          have := hbegin r hr
          have := h.ordered r hr
          unfold Covers EndsIn Reaches
          omega
        omega

/-- Nothing has ended yet where the walk begins. -/
theorem counted_endsIn_self (live : List IPTable) (x : ℤ) :
    Counted (.empty : UnivCount) (recordsOf live (EndsIn x x)) := by
  refine Counted.empty.congr fun u => (recordsOf_zero fun r _ _ hends => ?_).symm
  unfold EndsIn at hends
  omega

/-- The walk from the points before `x`. -/
theorem walkBack_before (h : Sound m live) {l : List (ℤ × IPoint)}
    (hl : ∀ z p, (z, p) ∈ l ↔ m.find z = some p ∧ z < x)
    (hdown : l.Pairwise fun e e' => e'.1 < e.1) :
    ∃ b, walkBack l .empty = some b ∧ Counted b (recordsOf live (Reaches x)) :=
  walkBack_counted h le_rfl (fun e he => (hl e.1 e.2).mp he) hdown
    (fun z p hz hzx => .inl ((hl z p).mpr ⟨hz, hzx⟩)) (fun r _ => lt_or_ge r.start x)
    (counted_endsIn_self live x)

/-- The walk down from a point visits those below it, nearest first. -/
theorem down_le (hp : m.find x = some p) : ∃ l, (m.down fun z => z ≤ x) = (x, p) :: l ∧
    (∀ z q, (z, q) ∈ l ↔ m.find z = some q ∧ z < x) ∧ l.Pairwise fun e e' => e'.1 < e.1 := by
  have hsort := m.sorted_down fun z => z ≤ x
  have hmem : ∀ {z q}, (z, q) ∈ m.down (fun z => z ≤ x) ↔ m.find z = some q ∧ z ≤ x := by
    intro z q
    rw [OrdMap.mem_down, decide_eq_true_eq]
  have hx := hmem.mpr ⟨hp, le_rfl⟩
  cases hdown : m.down fun z => z ≤ x with
  | nil =>
      rw [hdown] at hx
      cases hx
  | cons e l =>
      rw [hdown] at hsort hx hmem
      rw [List.pairwise_cons] at hsort
      obtain ⟨z, q⟩ := e
      have hz := hmem.mp (List.mem_cons_self (a := (z, q)) (l := l))
      have heq : (z, q) = (x, p) := by
        rcases List.mem_cons.mp hx with heq | hin
        · exact heq.symm
        · have := hsort.1 _ hin
          dsimp only at this
          omega
      cases heq
      refine ⟨l, rfl, fun w q => ⟨fun hin => ?_, fun hw => ?_⟩, hsort.2⟩
      · exact ⟨(hmem.mp (List.mem_cons_of_mem _ hin)).1, hsort.1 _ hin⟩
      · rcases List.mem_cons.mp (hmem.mpr ⟨hw.1, hw.2.le⟩) with heq | hin
        · cases heq
          omega
        · exact hin

/-- The walk of `addIP`: what covers the point that has no `bits` yet. -/
theorem walkBackFrom_counted (h : Sound m live) (hp : m.find x = some p) :
    ∃ b, walkBackFrom (m.down fun z => z ≤ x) = some b ∧
      (p.bits.entries = [] → Counted b (recordsOf live (Covers x))) := by
  obtain ⟨l, hdown, hl, hsort⟩ := down_le hp
  rw [hdown]
  unfold walkBackFrom
  dsimp only
  unfold walkBack
  by_cases hbits : p.bits.entries = []
  · obtain ⟨b, hb, hcount⟩ := walkBack_before h hl hsort
    refine ⟨b, ?_, fun _ => hcount.congr fun u => h.covers_eq (fun q hq => ?_) u⟩
    · rw [if_neg (by simpa using hbits)]
      exact hb
    · rw [hp] at hq
      cases hq
      exact hbits
  · rw [if_pos hbits]
    exact ⟨p.bits, rfl, fun hnil => absurd hnil hbits⟩

end Points

variable {m m' : IpMap} {live : List IPTable} {x : ℤ} {p : IPoint} {r : IPTable} {u : ℤ}

/-! ## Points put in -/

/-- A new point gets its counts. -/
theorem sound_insertNew (h : Sound m live)
    (hp : m.find x = none → (p.bits.entries ≠ [] → Counted p.bits (recordsOf live (Covers x))) ∧
      Counted p.eits (recordsOf live (EndsAt x))) : Sound (m.insertNew x p) live := by
  have hfind := m.find_insertNew x
  have hold : ∀ {z q}, m.find z = some q → ∃ q', (m.insertNew x p).find z = some q' ∧ q' = q := by
    intro z q hq
    rw [hfind]
    by_cases hz : z = x
    · subst hz
      exact ⟨q, by rw [if_pos rfl, hq]; rfl, rfl⟩
    · exact ⟨q, by rw [if_neg hz]; exact hq, rfl⟩
  have hnew : ∀ {z q}, (m.insertNew x p).find z = some q →
      m.find z = some q ∨ z = x ∧ m.find x = none ∧ q = p := by
    intro z q hq
    rw [hfind] at hq
    by_cases hz : z = x
    · subst hz
      rw [if_pos rfl] at hq
      cases hx : m.find z with
      | none =>
          rw [hx] at hq
          cases hq
          exact .inr ⟨rfl, rfl, rfl⟩
      | some q' =>
          rw [hx] at hq
          exact .inl hq
    · rw [if_neg hz] at hq
      exact .inl hq
  refine ⟨h.ordered, fun z q hq hne => ?_, fun z q hq => ?_, fun r hr => ?_, fun r hr => ?_⟩
  · rcases hnew hq with hq | ⟨rfl, hnone, rfl⟩
    · exact h.bits z q hq hne
    · exact (hp hnone).1 hne
  · rcases hnew hq with hq | ⟨rfl, hnone, rfl⟩
    · exact h.eits z q hq
    · exact (hp hnone).2
  · obtain ⟨q, hq, hne⟩ := h.start r hr
    obtain ⟨q', hq', rfl⟩ := hold hq
    exact ⟨q', hq', hne⟩
  · obtain ⟨q, hq⟩ := h.stop r hr
    obtain ⟨q', hq', rfl⟩ := hold hq
    exact ⟨q', hq'⟩

/-- No record ends where there is no point. -/
theorem counted_endsAt_none (h : Sound m live) (hx : m.find x = none) :
    Counted (.empty : UnivCount) (recordsOf live (EndsAt x)) :=
  Counted.empty.congr fun _ => (recordsOf_zero fun _ hr _ hends => h.not_stop hx hr hends).symm

theorem sound_insertNew_new (h : Sound m live) (x : ℤ) : Sound (m.insertNew x .new) live :=
  sound_insertNew h fun hx => ⟨fun hne => absurd rfl hne, counted_endsAt_none h hx⟩

/-! ## Adding -/

/-- What an add makes of a point; `b` are the ranges at the first one if it had no `bits`. -/
def addTo (r : IPTable) (b : UnivCount) (x : ℤ) (p : IPoint) : IPoint :=
  let bits := if x = r.start ∧ p.bits.entries = [] then b else p.bits
  { bits := if x = r.start ∨ r.start < x ∧ x ≤ r.stop ∧ bits.entries ≠ [] then bits.bump r.univ
      else bits
    eits := if x = r.stop then p.eits.bump r.univ else p.eits }

section Counted

variable {c : UnivCount} {P : IPTable → Prop} [DecidablePred P] (hc : Counted c (recordsOf live P))
include hc

theorem counted_bump (hr : P r) : Counted (c.bump r.univ) (recordsOf (live ++ [r]) P) := by
  refine (hc.bump r.univ).congr fun u => ?_
  rw [recordsOf_append live r u]
  simp [hr, eq_comm]

theorem counted_same (hr : ¬P r) : Counted c (recordsOf (live ++ [r]) P) := by
  refine hc.congr fun u => ?_
  rw [recordsOf_append live r u, if_neg fun hand => hr hand.2, Nat.add_zero]

end Counted

/-- The `bits` of a point that has some count the new range where it covers the point. -/
theorem counted_bits_addTo {b : UnivCount} (hle : r.start ≤ r.stop)
    (hb : x = r.start → p.bits.entries = [] → Counted b (recordsOf live (Covers x)))
    (hp : p.bits.entries ≠ [] → Counted p.bits (recordsOf live (Covers x)))
    (hne : (addTo r b x p).bits.entries ≠ []) :
    Counted (addTo r b x p).bits (recordsOf (live ++ [r]) (Covers x)) := by
  unfold addTo at hne ⊢
  dsimp only at hne ⊢
  by_cases hx : x = r.start
  · -- the first point has its `bits` now
    have hbits : Counted (if x = r.start ∧ p.bits.entries = [] then b else p.bits)
        (recordsOf live (Covers x)) := by
      by_cases hnil : p.bits.entries = []
      · rw [if_pos ⟨hx, hnil⟩]
        exact hb hx hnil
      · rw [if_neg fun hand => hnil hand.2]
        exact hp hnil
    rw [if_pos (.inl hx)]
    exact counted_bump hbits ⟨hx.ge, hx.le.trans hle⟩
  · have hkeep : (if x = r.start ∧ p.bits.entries = [] then b else p.bits) = p.bits :=
      if_neg fun hand => hx hand.1
    rw [hkeep] at hne ⊢
    by_cases hin : r.start < x ∧ x ≤ r.stop ∧ p.bits.entries ≠ []
    · rw [if_pos (.inr hin)]
      exact counted_bump (hp hin.2.2) ⟨hin.1.le, hin.2.1⟩
    · have hout : ¬ (x = r.start ∨ r.start < x ∧ x ≤ r.stop ∧ p.bits.entries ≠ []) := by
        rintro (heq | hand)
        · exact hx heq
        · exact hin hand
      rw [if_neg hout] at hne ⊢
      exact counted_same (hp hne) fun hcov => hin ⟨lt_of_le_of_ne hcov.1 (Ne.symm hx), hcov.2, hne⟩

theorem counted_eits_addTo {b : UnivCount} (hp : Counted p.eits (recordsOf live (EndsAt x))) :
    Counted (addTo r b x p).eits (recordsOf (live ++ [r]) (EndsAt x)) := by
  unfold addTo
  dsimp only
  by_cases hx : x = r.stop
  · rw [if_pos hx]
    exact counted_bump hp hx.symm
  · rw [if_neg hx]
    exact counted_same hp fun hends => hx hends.symm

/-- The first point has `bits`, and every other that had some keeps them. -/
theorem addTo_bits_ne_nil {b : UnivCount} (h : x = r.start ∨ p.bits.entries ≠ []) :
    (addTo r b x p).bits.entries ≠ [] := by
  unfold addTo
  dsimp only
  by_cases hx : x = r.start
  · rw [if_pos (.inl hx)]
    exact Counted.bump_ne_nil _ _
  · have hkeep : (if x = r.start ∧ p.bits.entries = [] then b else p.bits) = p.bits :=
      if_neg fun hand => hx hand.1
    rw [hkeep]
    split_ifs
    · exact Counted.bump_ne_nil _ _
    · exact h.resolve_left hx

/-- The points of the two ends are there, as they were or new. -/
theorem find_insertNew_ends (m : IpMap) (start stop x : ℤ) :
    OrdMap.find ((m.insertNew start IPoint.new).insertNew stop IPoint.new) x =
      if x = start ∨ x = stop then some ((m.find x).getD .new) else m.find x := by
  rw [OrdMap.find_insertNew, OrdMap.find_insertNew, OrdMap.find_insertNew]
  by_cases hstop : x = stop
  · subst hstop
    by_cases hstart : x = start
    · simp [hstart]
    · simp [hstart]
  · by_cases hstart : x = start
    · subst hstart
      simp [hstop]
    · simp [hstart, hstop]

/-- Where both ends have their points, the add of the range to the points is sound. -/
theorem sound_addTo (h : Sound m live) (hle : r.start ≤ r.stop) {first last : IPoint}
    (hstart : m.find r.start = some first) (hstop : m.find r.stop = some last) {b : UnivCount}
    (hb : first.bits.entries = [] → Counted b (recordsOf live (Covers r.start))) :
    Sound (m.map (addTo r b)) (live ++ [r]) := by
  refine ⟨fun r' hr' => ?_, fun x p' hp' hne => ?_, fun x p' hp' => ?_, fun r' hr' => ?_,
    fun r' hr' => ?_⟩
  · rcases List.mem_append.mp hr' with hr' | hr'
    · exact h.ordered r' hr'
    · rw [List.mem_singleton.mp hr']
      exact hle
  · rw [OrdMap.find_map, Option.map_eq_some_iff] at hp'
    obtain ⟨p, hp, rfl⟩ := hp'
    refine counted_bits_addTo hle (fun hx hnil => ?_) (h.bits x p hp) hne
    subst hx
    cases hstart.symm.trans hp
    exact hb hnil
  · rw [OrdMap.find_map, Option.map_eq_some_iff] at hp'
    obtain ⟨p, hp, rfl⟩ := hp'
    exact counted_eits_addTo (h.eits x p hp)
  · have hpoint : ∃ p, m.find r'.start = some p ∧ (r'.start = r.start ∨ p.bits.entries ≠ []) := by
      rcases List.mem_append.mp hr' with hr' | hr'
      · obtain ⟨p, hp, hne⟩ := h.start r' hr'
        exact ⟨p, hp, .inr hne⟩
      · rw [List.mem_singleton.mp hr']
        exact ⟨first, hstart, .inl rfl⟩
    obtain ⟨p, hp, hne⟩ := hpoint
    exact ⟨_, by rw [OrdMap.find_map, hp]; rfl, addTo_bits_ne_nil hne⟩
  · have hpoint : ∃ p, m.find r'.stop = some p := by
      rcases List.mem_append.mp hr' with hr' | hr'
      · exact h.stop r' hr'
      · rw [List.mem_singleton.mp hr']
        exact ⟨last, hstop⟩
    obtain ⟨p, hp⟩ := hpoint
    exact ⟨_, by rw [OrdMap.find_map, hp]; rfl⟩

theorem sound_addIP (h : Sound m live) (hle : r.start ≤ r.stop) :
    ∃ m', IpMap.addIP m r.start r.stop r.univ = some m' ∧ Sound m' (live ++ [r]) ∧
      ∀ x, (m.find x).isSome → (m'.find x).isSome := by
  have h₁ := sound_insertNew_new (sound_insertNew_new h r.start) r.stop
  have hfind := find_insertNew_ends m r.start r.stop
  have hstart := hfind r.start
  have hstop := hfind r.stop
  rw [if_pos (.inl rfl)] at hstart
  rw [if_pos (.inr rfl)] at hstop
  obtain ⟨b, hb, hcover⟩ := walkBackFrom_counted h₁ hstart
  unfold IpMap.addIP
  rw [if_neg (by omega)]
  dsimp only
  rw [hb, Option.map_some]
  refine ⟨_, rfl, sound_addTo h₁ hle hstart hstop hcover, fun x hx => ?_⟩
  rw [OrdMap.find_map, Option.isSome_map, hfind]
  split_ifs
  · rfl
  · exact hx

/-! ## Asking -/

/-- The address is a point with `bits`, or comes after some point. -/
def IpMap.Answers (m : IpMap) (ip : ℤ) : Prop :=
  (∃ p ∈ m.find ip, p.bits.entries ≠ []) ∨ ∃ e ∈ m.entries, e.1 < ip

instance (m : IpMap) (ip : ℤ) : Decidable (m.Answers ip) :=
  inferInstanceAs (Decidable (_ ∨ ∃ e ∈ m.entries, e.1 < ip))

/-- What is answered is the universities that cover the address, each once. -/
def Right (live : List IPTable) (ip : ℤ) (us : List ℤ) : Prop :=
  us.Nodup ∧ ∀ u, u ∈ us ↔ ∃ r ∈ live, r.univ = u ∧ r.start ≤ ip ∧ ip ≤ r.stop

theorem right_of_counted {c : UnivCount} (hc : Counted c (recordsOf live (Covers x))) :
    Right live x (c.entries.map Prod.fst) :=
  ⟨Counted.nodup_keys c, fun _ => hc.mem_keys.trans recordsOf_pos⟩

/-- A lookup on known counts answers right. -/
theorem get_answers (h : Sound m live) {ip : ℤ} (hans : m.Answers ip) :
    ∃ us m', m.get ip = some (us, m') ∧ Right live ip us ∧ Sound m' live := by
  unfold IpMap.get
  by_cases hbits : ∃ p, m.find ip = some p ∧ p.bits.entries ≠ []
  · obtain ⟨p, hp, hne⟩ := hbits
    have hright := right_of_counted (h.bits ip p hp hne)
    obtain ⟨⟨l, hsorted⟩, eits⟩ := p
    cases l with
    | nil => exact absurd rfl hne
    | cons e l => exact ⟨_, m, by rw [hp]; rfl, hright, h⟩
  · have hnil : ∀ p, m.find ip = some p → p.bits.entries = [] := by
      intro p hp
      by_contra hne
      exact hbits ⟨p, hp, hne⟩
    obtain ⟨e, he, hlt⟩ := hans.resolve_left fun ⟨p, hp, hne⟩ => hbits ⟨p, hp, hne⟩
    have hmem : ∀ z p, (z, p) ∈ m.down (fun x => x < ip) ↔ m.find z = some p ∧ z < ip := by
      intro z p
      rw [OrdMap.mem_down, decide_eq_true_eq]
    obtain ⟨b, hb, hcount⟩ := walkBack_before h hmem (m.sorted_down _)
    have hright : Right live ip (b.entries.map Prod.fst) :=
      right_of_counted (hcount.congr fun u => h.covers_eq hnil u)
    have hsome : ∃ f l, m.down (fun x => x < ip) = f :: l := by
      apply List.exists_cons_of_ne_nil
      intro hdown
      have := (hmem e.1 e.2).mpr ⟨m.mem_entries_iff.mp he, hlt⟩
      rw [hdown] at this
      cases this
    obtain ⟨f, l, hdown⟩ := hsome
    rw [hdown] at hb
    refine ⟨_, _, ?_, hright, sound_insertNew_new h ip⟩
    split
    · rename_i heq
      obtain ⟨p, hp, hpb⟩ := Option.map_eq_some_iff.mp heq
      have := hnil p hp
      rw [hpb] at this
      cases this
    · simp only [hdown, hb, Option.map_some]

/-- Elsewhere it walks back from the first point. -/
theorem get_undefined {ip : ℤ} (hans : ¬ m.Answers ip) : m.get ip = none := by
  have hdown : m.down (fun x => x < ip) = [] := by
    apply List.eq_nil_iff_forall_not_mem.mpr
    rintro ⟨z, p⟩ hmem
    rw [OrdMap.mem_down, decide_eq_true_eq] at hmem
    exact hans (.inr ⟨(z, p), m.mem_entries_iff.mpr hmem.1, hmem.2⟩)
  unfold IpMap.get
  split
  · rename_i heq
    obtain ⟨p, hp, hpb⟩ := Option.map_eq_some_iff.mp heq
    exact absurd (.inl ⟨p, hp, by rw [hpb]; nofun⟩) hans
  · rw [hdown]

end Oce.IpTable
