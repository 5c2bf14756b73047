import Oce.IpTable.Analysis.Ranges

/-!
# Removing, and runs

The record that goes is added once more before everything of its university is taken out of its
range. Nothing else is lost when no other record of the university meets the range, and the
points stay sound when no end is marked before it, which is so when there is a point already.
-/

set_option autoImplicit false

namespace Oce.IpTable

open Function Oce.Base

variable {m m' : IpMap} {live : List IPTable} {x : ℤ} {p : IPoint} {r : IPTable} {u : ℤ}

/-! ## What is left of the records -/

/-- The records of other ids. -/
def others (live : List IPTable) (id : ℤ) : List IPTable := live.filter fun r => r.id ≠ id

theorem mem_others {id : ℤ} : r ∈ others live id ↔ r ∈ live ∧ r.id ≠ id := by
  unfold others
  rw [List.mem_filter, decide_eq_true_eq]

/-- No other record of the university meets the range. -/
def Alone (live : List IPTable) (r : IPTable) : Prop :=
  ∀ r' ∈ live, r'.id ≠ r.id → r'.univ = r.univ → r'.stop < r.start ∨ r.stop < r'.start

/-- Where the record does not count, there are as many without it. -/
theorem recordsOf_others {P : IPTable → Prop} [DecidablePred P]
    (hid : ∀ r' ∈ live, r'.id = r.id → r' = r) (hnot : ¬ (r.univ = u ∧ P r)) :
    recordsOf (live ++ [r]) P u = recordsOf (others live r.id) P u := by
  rw [recordsOf_append, if_neg hnot, Nat.add_zero]
  unfold recordsOf others
  rw [List.countP_filter]
  apply List.countP_congr
  intro r' hr'
  simp only [decide_eq_true_eq, Bool.and_eq_true]
  refine ⟨fun hP => ⟨hP, fun heq => ?_⟩, fun hP => hP.1⟩
  rw [hid r' hr' heq] at hP
  exact hnot hP

/-- In its range there is none left of its university. -/
theorem recordsOf_others_zero {P : IPTable → Prop} [DecidablePred P]
    (hord : ∀ r' ∈ live, r'.start ≤ r'.stop) (halone : Alone live r)
    (hP : ∀ r', P r' → r'.start ≤ r'.stop → r'.start ≤ r.stop ∧ r.start ≤ r'.stop) :
    recordsOf (others live r.id) P r.univ = 0 := by
  refine recordsOf_zero fun r' hr' hu hPr => ?_
  obtain ⟨hmem, hne⟩ := mem_others.mp hr'
  have := hP r' hPr (hord r' hmem)
  have := halone r' hmem hne hu
  omega

/-! ## The points of the range -/

theorem without_eq_some (it : ℤ)
    (h : (p.bits.erase it).entries ≠ [] ∨ (p.eits.erase it).entries ≠ []) :
    IPoint.without p it = some ⟨p.bits.erase it, p.eits.erase it⟩ := by
  unfold IPoint.without
  rw [if_neg fun hand => h.elim (fun hb => hb hand.2) fun he => he hand.1]

/-- Everything of the university goes from the points of the range. -/
theorem sound_filterMap (h : Sound m (live ++ [r])) (hid : ∀ r' ∈ live, r'.id = r.id → r' = r)
    (halone : Alone live r) :
    Sound (m.filterMap fun x p =>
      if r.start ≤ x ∧ x ≤ r.stop then IPoint.without p r.univ else some p) (others live r.id) := by
  have hord : ∀ r' ∈ live, r'.start ≤ r'.stop := fun r' hr' =>
    h.ordered r' (List.mem_append_left _ hr')
  have hin : ∀ {x p p'}, r.start ≤ x → x ≤ r.stop → m.find x = some p →
      IPoint.without p r.univ = some p' → p' = ⟨p.bits.erase r.univ, p.eits.erase r.univ⟩ := by
    intro x p p' _ _ _ hp'
    unfold IPoint.without at hp'
    dsimp only at hp'
    split_ifs at hp'
    exact (Option.some.inj hp').symm
  -- of the other universities there are as many as before, of this one none
  have herase : ∀ {c : UnivCount} {P : IPTable → Prop} [DecidablePred P],
      Counted c (recordsOf (live ++ [r]) P) →
      (∀ r', P r' → r'.start ≤ r'.stop → r'.start ≤ r.stop ∧ r.start ≤ r'.stop) →
      Counted (c.erase r.univ) (recordsOf (others live r.id) P) := by
    intro c P _ hc hP
    refine (hc.erase r.univ).congr fun u => ?_
    by_cases hu : u = r.univ
    · rw [if_pos hu, hu, recordsOf_others_zero hord halone hP]
    · rw [if_neg hu, recordsOf_others hid fun hand => hu hand.1.symm]
  have hbits : ∀ x p, r.start ≤ x → x ≤ r.stop → m.find x = some p → p.bits.entries ≠ [] →
      Counted (p.bits.erase r.univ) (recordsOf (others live r.id) (Covers x)) := by
    intro x p hx hx' hp hne
    refine herase (h.bits x p hp hne) fun r' hcov _ => ?_
    unfold Covers at hcov
    omega
  have heits : ∀ x p, r.start ≤ x → x ≤ r.stop → m.find x = some p →
      Counted (p.eits.erase r.univ) (recordsOf (others live r.id) (EndsAt x)) := by
    intro x p hx hx' hp
    refine herase (h.eits x p hp) fun r' hends hle => ?_
    unfold EndsAt at hends
    omega
  refine ⟨fun r' hr' => hord r' (mem_others.mp hr').1, fun x p' hp' hne => ?_, fun x p' hp' => ?_,
    fun r' hr' => ?_, fun r' hr' => ?_⟩
  · rw [OrdMap.find_filterMap, Option.bind_eq_some_iff] at hp'
    obtain ⟨p, hp, hp'⟩ := hp'
    by_cases hx : r.start ≤ x ∧ x ≤ r.stop
    · rw [if_pos hx] at hp'
      obtain rfl := hin hx.1 hx.2 hp hp'
      refine hbits x p hx.1 hx.2 hp fun hnil => hne ?_
      -- nothing comes of nothing
      have hfind := OrdMap.entries_nil_iff.mp hnil
      refine OrdMap.entries_nil_iff.mpr fun k => ?_
      rw [OrdMap.find_erase, hfind k, ite_self]
    · rw [if_neg hx] at hp'
      cases hp'
      refine (h.bits x p' hp hne).congr fun u => recordsOf_others hid fun hand => hx hand.2
  · rw [OrdMap.find_filterMap, Option.bind_eq_some_iff] at hp'
    obtain ⟨p, hp, hp'⟩ := hp'
    by_cases hx : r.start ≤ x ∧ x ≤ r.stop
    · rw [if_pos hx] at hp'
      obtain rfl := hin hx.1 hx.2 hp hp'
      exact heits x p hx.1 hx.2 hp
    · rw [if_neg hx] at hp'
      cases hp'
      have hstop := h.ordered r (List.mem_append_right _ List.mem_cons_self)
      refine (h.eits x p' hp).congr fun u => recordsOf_others hid fun hand => hx ?_
      have := hand.2
      unfold EndsAt at this
      omega
  · obtain ⟨hmem, hne⟩ := mem_others.mp hr'
    obtain ⟨p, hp, hpb⟩ := h.start r' (List.mem_append_left _ hmem)
    rw [OrdMap.find_filterMap, hp, Option.bind_some]
    by_cases hx : r.start ≤ r'.start ∧ r'.start ≤ r.stop
    · have hleft : (p.bits.erase r.univ).entries ≠ [] :=
        (hbits _ p hx.1 hx.2 hp hpb).entries_ne_nil.mpr
          ⟨r'.univ, recordsOf_pos.mpr ⟨r', hr', rfl, le_rfl, hord r' hmem⟩⟩
      rw [if_pos hx, without_eq_some r.univ (.inl hleft)]
      exact ⟨_, rfl, hleft⟩
    · rw [if_neg hx]
      exact ⟨p, rfl, hpb⟩
  · obtain ⟨hmem, hne⟩ := mem_others.mp hr'
    obtain ⟨p, hp⟩ := h.stop r' (List.mem_append_left _ hmem)
    rw [OrdMap.find_filterMap, hp, Option.bind_some]
    by_cases hx : r.start ≤ r'.stop ∧ r'.stop ≤ r.stop
    · have hleft : (p.eits.erase r.univ).entries ≠ [] :=
        (heits _ p hx.1 hx.2 hp).entries_ne_nil.mpr
          ⟨r'.univ, recordsOf_pos.mpr ⟨r', hr', rfl, rfl⟩⟩
      rw [if_pos hx, without_eq_some r.univ (.inr hleft)]
      exact ⟨_, rfl⟩
    · rw [if_neg hx]
      exact ⟨p, rfl⟩

/-! ## Removing -/

/-- No end is marked before a range of one address. -/
theorem countBack_le (h : Sound m live) (hx : m.find x = some p) (hbits : p.bits.entries ≠ [])
    (hone : ∀ r ∈ live, r.univ = u → Covers x r → r.stop = x) :
    IpMap.countBack u (m.down fun z => z ≤ x) ≤ 0 := by
  obtain ⟨l, hdown, -, -⟩ := down_le hx
  rw [hdown]
  unfold IpMap.countBack
  dsimp only
  rw [if_pos hbits]
  have hget : ∀ {c : UnivCount} {f : ℤ → ℕ}, Counted c f → (c.find u).getD 0 = f u := by
    intro c f hc
    rw [hc u]
    rcases Nat.eq_zero_or_pos (f u) with h0 | hpos
    · rw [h0]
      rfl
    · rw [countEntry_pos hpos]
      rfl
  rw [hget (h.bits x p hx hbits), hget (h.eits x p hx)]
  have hle : recordsOf live (Covers x) u ≤ recordsOf live (EndsAt x) u := recordsOf_le hone
  omega

/-- A range that stands alone is taken out of the counts. -/
theorem sound_remove (h : Sound m live) (hr : r ∈ live)
    (hid : ∀ r' ∈ live, r'.id = r.id → r' = r) (halone : Alone live r)
    (hmark : r.start = r.stop ∨ (m.find (r.start - 1)).isSome) :
    ∃ m', IpMap.remove m r.start r.stop r.univ = some m' ∧ Sound m' (others live r.id) := by
  have hle := h.ordered r hr
  obtain ⟨m₁, hadd, h₁, hkept⟩ := sound_addIP h hle
  unfold IpMap.remove
  rw [if_neg (by omega), hadd, Option.bind_some]
  obtain ⟨p, hp, hpb⟩ := h₁.start r (List.mem_append_right _ List.mem_cons_self)
  -- the mark is not made
  have hsame : (if r.start < r.stop ∧
        IpMap.countBack r.univ (OrdMap.down m₁ fun x => x ≤ r.start) > 1 ∨
      r.start = r.stop ∧ IpMap.countBack r.univ (OrdMap.down m₁ fun x => x ≤ r.start) > 0 then
        m₁.insertNew (r.start - 1) ⟨.empty, OrdMap.empty.insert r.univ
          (IpMap.countBack r.univ (OrdMap.down m₁ fun x => x ≤ r.start))⟩ else m₁) = m₁ := by
    split_ifs with hcount
    · rcases hcount with ⟨hlt, -⟩ | ⟨heq, hcount⟩
      · unfold OrdMap.insertNew
        rw [if_pos (hkept _ (hmark.resolve_left (by omega)))]
      · have := countBack_le (u := r.univ) h₁ hp hpb fun r' hr' hu hcov => by
          unfold Covers at hcov
          rcases List.mem_append.mp hr' with hr' | hr'
          · by_cases hrid : r'.id = r.id
            · rw [hid r' hr' hrid]
              omega
            · have := halone r' hr' hrid hu
              omega
          · rw [List.mem_singleton.mp hr']
            omega
        omega
    · rfl
  dsimp only
  rw [hsame]
  have hmem : ∀ z q, (z, q) ∈ OrdMap.down m₁ (fun x => r.start ≤ x ∧ x ≤ r.stop) ↔
      m₁.find z = some q ∧ r.start ≤ z ∧ z ≤ r.stop := by
    intro z q
    rw [OrdMap.mem_down, decide_eq_true_eq]
  obtain ⟨b, hb, hcount⟩ := walkBack_counted (x := r.stop + 1) (y := r.stop + 1) h₁ le_rfl
    (l := OrdMap.down m₁ fun x => r.start ≤ x ∧ x ≤ r.stop)
    (fun e he => by
      have := (hmem e.1 e.2).mp he
      exact ⟨this.1, by omega⟩)
    (m₁.sorted_down _)
    (fun z q hq hz => by
      by_cases hstart : r.start ≤ z
      · exact .inl ((hmem z q).mpr ⟨hq, hstart, by omega⟩)
      · exact .inr ⟨(r.start, p), (hmem _ _).mpr ⟨hp, le_rfl, hle⟩, hpb, by dsimp only; omega⟩)
    (fun r' _ => lt_or_ge r'.start (r.stop + 1)) (counted_endsIn_self _ _)
  rw [hb, Option.map_some]
  refine ⟨_, rfl, sound_filterMap (sound_insertNew h₁ fun hnone => ⟨fun _ => ?_, ?_⟩) hid halone⟩
  · refine hcount.congr fun u => h₁.covers_eq (fun q hq => ?_) u
    rw [hnone] at hq
    cases hq
  · exact counted_endsAt_none h₁ hnone

/-! ## Runs -/

/-- What an operation must find: for adding, a range that is the right way round, an id that is
new and a university there is; for removing, a record that meets no other of its university and
has one address or a point before it; for asking, an address where it is defined. -/
def SorterOp.Fits : Option IPSorter → SorterOp → Prop
  | none, _ => False
  | some s, .addIPTable r =>
    r.start ≤ r.stop ∧ s.id2Iptable r.id = none ∧ (s.getUnivInfo r.univ).1 = true
  | some s, .removeIpById id => ∃ r ∈ s.added, r.id = id ∧ Alone s.added r ∧
      (r.start = r.stop ∨ (s.ipMap.find (r.start - 1)).isSome)
  | some s, .get ip => IpMap.Answers s.ipMap ip

instance (live : List IPTable) (r : IPTable) : Decidable (Alone live r) :=
  inferInstanceAs (Decidable (∀ r' ∈ live, _))

instance : (s : Option IPSorter) → (op : SorterOp) → Decidable (op.Fits s)
  | none, _ => inferInstanceAs (Decidable False)
  | some _, .addIPTable _ => inferInstanceAs (Decidable (_ ∧ _ ∧ _))
  | some s, .removeIpById id => inferInstanceAs (Decidable (∃ r ∈ s.added, r.id = id ∧
      Alone s.added r ∧ (r.start = r.stop ∨ (s.ipMap.find (r.start - 1)).isSome)))
  | some s, .get ip => inferInstanceAs (Decidable (IpMap.Answers s.ipMap ip))

/-- The records are found by their ids, their universities are known, and the points are sound. -/
structure IPSorter.Holds (s : IPSorter) : Prop where
  sound : Sound s.ipMap s.added
  found : ∀ r ∈ s.added, s.id2Iptable r.id = some r
  known : ∀ r ∈ s.added, s.univMap r.univ = true

theorem getUnivInfo_known {s : IPSorter} (h : (s.getUnivInfo u).1 = true) :
    (s.getUnivInfo u).2.univMap u = true ∧
      ∀ v, s.univMap v = true → (s.getUnivInfo u).2.univMap v = true := by
  unfold IPSorter.getUnivInfo at h ⊢
  split_ifs with h1 h2
  · exact ⟨h1, fun v hv => hv⟩
  · refine ⟨update_self _ _ _, fun v hv => ?_⟩
    dsimp only
    by_cases hvu : v = u
    · rw [hvu]
      exact update_self _ _ _
    · rw [update_of_ne hvu]
      exact hv
  · rw [if_neg h1, if_neg h2] at h
    cases h

theorem holds_addIPTable {s : IPSorter} (h : s.Holds) (hle : r.start ≤ r.stop)
    (hnew : s.id2Iptable r.id = none) (huniv : (s.getUnivInfo r.univ).1 = true) :
    ∃ s', s.addIPTable r = some s' ∧ s'.Holds := by
  obtain ⟨m', hadd, hsound, -⟩ := sound_addIP h.sound hle
  obtain ⟨hknown, hkept⟩ := getUnivInfo_known huniv
  unfold IPSorter.addIPTable
  dsimp only
  rw [if_pos huniv, hadd, Option.map_some]
  refine ⟨_, rfl, hsound, fun r' hr' => ?_, fun r' hr' => ?_⟩
  · dsimp only
    rcases List.mem_append.mp hr' with hr' | hr'
    · have hne : r'.id ≠ r.id := by
        intro heq
        have := h.found r' hr'
        rw [heq, hnew] at this
        cases this
      rw [update_of_ne hne]
      exact h.found r' hr'
    · rw [List.mem_singleton.mp hr']
      exact update_self _ _ _
  · rcases List.mem_append.mp hr' with hr' | hr'
    · exact hkept _ (h.known r' hr')
    · rw [List.mem_singleton.mp hr']
      exact hknown

theorem holds_removeIpById {s : IPSorter} (h : s.Holds) (hr : r ∈ s.added)
    (halone : Alone s.added r) (hmark : r.start = r.stop ∨ (s.ipMap.find (r.start - 1)).isSome) :
    ∃ s', s.removeIpById r.id = some s' ∧ s'.Holds := by
  have hid : ∀ r' ∈ s.added, r'.id = r.id → r' = r := by
    intro r' hr' heq
    have := h.found r' hr'
    rw [heq, h.found r hr] at this
    exact (Option.some.inj this).symm
  obtain ⟨m', hrem, hsound⟩ := sound_remove h.sound hr hid halone hmark
  unfold IPSorter.removeIpById
  rw [h.found r hr]
  dsimp only
  rw [if_pos (h.known r hr), hrem, Option.map_some]
  exact ⟨_, rfl, hsound, fun r' hr' => h.found r' (mem_others.mp hr').1,
    fun r' hr' => h.known r' (mem_others.mp hr').1⟩

/-- **The step lemma.** -/
theorem holds_step (s : Option IPSorter) (op : SorterOp) (h : ∃ s', s = some s' ∧ s'.Holds)
    (hop : op.Fits s) : ∃ s', op.step s = some s' ∧ s'.Holds := by
  obtain ⟨s, rfl, h⟩ := h
  unfold SorterOp.step
  rw [Option.bind_some]
  cases op with
  | addIPTable r => exact holds_addIPTable h hop.1 hop.2.1 hop.2.2
  | removeIpById id =>
      obtain ⟨r, hr, rfl, halone, hmark⟩ := hop
      exact holds_removeIpById h hr halone hmark
  | get ip =>
      obtain ⟨us, m', hget, -, hsound⟩ := get_answers h.sound hop
      refine ⟨{ s with ipMap := m' }, ?_, hsound, h.found, h.known⟩
      dsimp only
      unfold IPSorter.get
      rw [hget]
      rfl

/-- **After every run whose operations fit, an address is answered the universities with a record
that covers it exactly when `get` is defined there.** -/
theorem answers_cover (univMap university : ℤ → Bool) (ops : List SorterOp)
    (h : StepsMeet SorterOp.step SorterOp.Fits (some (.new univMap university)) ops) :
    ∃ s, runOps SorterOp.step (some (.new univMap university)) ops = some s ∧ ∀ ip,
      (∃ us s', s.get ip = some (us, s') ∧ Right s.added ip us) ↔ IpMap.Answers s.ipMap ip := by
  have hnew : ∃ s', some (IPSorter.new univMap university) = some s' ∧ s'.Holds :=
    ⟨_, rfl, sound_empty, nofun, nofun⟩
  obtain ⟨s, hs, hholds⟩ := run_invariant holds_step hnew h
  refine ⟨s, hs, fun ip => ⟨?_, fun hans => ?_⟩⟩
  · rintro ⟨us, s', hget, -⟩
    by_contra hans
    unfold IPSorter.get at hget
    rw [get_undefined hans] at hget
    cases hget
  · obtain ⟨us, m', hget, hright, -⟩ := get_answers hholds.sound hans
    exact ⟨us, { s with ipMap := m' }, by unfold IPSorter.get; rw [hget]; rfl, hright⟩

/-! ## Sample runs -/

/-- Every university is known. -/
def allKnown : Option IPSorter := some (.new (fun _ => true) fun _ => false)

/-- The ranges of two universities nest, and the inner one goes; there is a point before it. -/
def nested : List SorterOp :=
  [.addIPTable ⟨1, 1, 30, 5⟩, .addIPTable ⟨2, 10, 20, 6⟩, .get 15, .get 9, .removeIpById 2,
    .addIPTable ⟨3, 20, 40, 7⟩]

/-- A range is there twice, and goes once. -/
def repeated : List SorterOp :=
  [.addIPTable ⟨1, 1, 10, 5⟩, .addIPTable ⟨2, 1, 10, 5⟩, .removeIpById 1]

/-- A range that goes, and another that covers it from then on. -/
def marked : List SorterOp :=
  [.addIPTable ⟨1, 10, 20, 5⟩, .removeIpById 1, .addIPTable ⟨2, 5, 30, 6⟩]

theorem answers_cover_nested :
    ∃ s, runOps SorterOp.step allKnown nested = some s ∧ ∀ ip,
      (∃ us s', s.get ip = some (us, s') ∧ Right s.added ip us) ↔ IpMap.Answers s.ipMap ip :=
  answers_cover (fun _ => true) (fun _ => false) nested (by decide)

/-- The record that is left covers the address, which is answered no university; where an end
is marked of a range that went, what is asked is taken from a university that is not there, and
so it is below the first point. -/
theorem answers_lose :
    ((runOps SorterOp.step allKnown repeated).map fun s => (s.added, (s.get 5).map Prod.fst)) =
        some ([⟨2, 1, 10, 5⟩], some []) ∧
      ((runOps SorterOp.step allKnown marked).map fun s => (s.added, (s.get 25).map Prod.fst)) =
        some ([⟨2, 5, 30, 6⟩], none) ∧
      (runOps SorterOp.step allKnown [.get 5]).isNone := by
  decide

end Oce.IpTable
