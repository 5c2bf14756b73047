import Oce.FeedDispatcher.Model.ExpressionCache

/-!
# Expressions and their factors

A factor in the map has the expressions that it is in, and an expression that is kept has its factors in
the map, each under its name (`Index`). Putting an expression in makes the one before the other and
taking it out undoes the one before the other; in between an expression and some addresses are still to
be linked (`Linked`). So the counts that are compared every half minute agree at all times.
-/

set_option autoImplicit false

namespace Oce.FeedDispatcher

open Function Oce.Base

variable {evictor : List ExprEntry} {f : FactorEntry} {factors : List Factor}

attribute [local instance] byteOrder

/-- The names of the factors that are kept for an expression. -/
def factorNames (factors : List Factor) : List (List Byte) :=
  (factors.filter (·.type ≠ .user)).map Factor.print

namespace ExprCache

def nameOf (c : ExprCache) (p : ℕ) : Option (List Byte) := (c.factorEntries p).map FactorEntry.name

/-- The address is in the map, and the factor there has the expression. -/
def Knows (c : ExprCache) (p : ℕ) (x : List Byte) : Prop :=
  ∃ f, c.factorEntries p = some f ∧ c.strFactorMap.find f.name = some p ∧ x ∈ f.exprSet

/-- The links are right, but that the factors in `ps` may have the expression `x`. -/
structure Linked (c : ExprCache) (x : List Byte) (ps : List ℕ) : Prop where
  below : ∀ p f, c.factorEntries p = some f → p < c.next
  mapped : ∀ n p, c.strFactorMap.find n = some p → ∃ f, c.factorEntries p = some f ∧ f.name = n ∧
    f.exprSet.Nonempty ∧
      ∀ y ∈ f.exprSet, (∃ e ∈ c.exprEvictor, e.expr = y ∧ p ∈ e.factors) ∨ (y = x ∧ p ∈ ps)
  known : ∀ e ∈ c.exprEvictor, ∀ p ∈ e.factors, c.Knows p e.expr

/-- **The index.** -/
structure Index (names : List Byte → List (List Byte)) (c : ExprCache) : Prop where
  nodup : (c.exprEvictor.map ExprEntry.expr).Nodup
  linked : c.Linked [] []
  named : ∀ e ∈ c.exprEvictor, e.factors.map c.nameOf = (names e.expr).map some
  any : ∀ e ∈ c.exprEvictor, e.factors ≠ []

variable {c c' : ExprCache} {p q : ℕ} {x y n : List Byte} {ps : List ℕ} {e : ExprEntry}
  {names : List Byte → List (List Byte)}

/-- No factor loses its name. -/
def SameNames (c c' : ExprCache) : Prop := ∀ p n, c.nameOf p = some n → c'.nameOf p = some n

/-- A cache keeps its own names. -/
theorem SameNames.refl (c : ExprCache) : SameNames c c := fun _ _ h => h

/-- Names that stay twice stay. -/
theorem SameNames.trans {c'' : ExprCache} (h : SameNames c c') (h' : SameNames c' c'') : SameNames c c'' :=
  fun p n hn => h' p n (h p n hn)

theorem SameNames.map (h : SameNames c c') {l : List (List Byte)} (hps : ps.map c.nameOf = l.map some) :
    ps.map c'.nameOf = l.map some := by
  rw [← hps]
  refine List.map_congr_left fun p hp => ?_
  have hmem : c.nameOf p ∈ l.map some := hps ▸ List.mem_map_of_mem hp
  obtain ⟨n, -, hn⟩ := List.mem_map.mp hmem
  rw [h p n hn.symm, ← hn]

/-- With nothing to be linked the expression does not matter. -/
theorem Linked.nil (h : c.Linked x []) (y : List Byte) : c.Linked y [] where
  below := h.below
  mapped n p hn := by
    obtain ⟨f, hf, hname, hne, hall⟩ := h.mapped n p hn
    exact ⟨f, hf, hname, hne, fun z hz => .inl ((hall z hz).resolve_right fun hnil => by simp at hnil)⟩
  known := h.known

theorem Knows.nameOf (h : c.Knows p x) : ∃ n, c.nameOf p = some n ∧ c.strFactorMap.find n = some p := by
  obtain ⟨f, hf, hfind, -⟩ := h
  exact ⟨f.name, by simp [ExprCache.nameOf, hf], hfind⟩

/-- The evictor may be ordered otherwise. -/
theorem Linked.congr (h : c.Linked x ps) (hmem : ∀ e, e ∈ evictor ↔ e ∈ c.exprEvictor) :
    Linked { c with exprEvictor := evictor } x ps where
  below := h.below
  mapped n p hn := by
    obtain ⟨f, hf, hname, hne, hall⟩ := h.mapped n p hn
    refine ⟨f, hf, hname, hne, fun y hy => (hall y hy).imp_left ?_⟩
    rintro ⟨e, he, hfe⟩
    exact ⟨e, (hmem e).mpr he, hfe⟩
  known e he := h.known e ((hmem e).mp he)

/-! ## An expression is taken out -/

/-- Addresses whose names lead to them or nowhere. -/
def Own (c : ExprCache) (ps : List ℕ) : Prop :=
  ∀ p ∈ ps, ∃ f, c.factorEntries p = some f ∧
    (c.strFactorMap.find f.name = some p ∨ c.strFactorMap.find f.name = none)

theorem find_dereferExprEntry (hf : c.factorEntries p = some f) (n : List Byte) :
    (c.dereferExprEntry p x).strFactorMap.find n =
      if f.exprSet.erase x = ∅ ∧ n = f.name then none else c.strFactorMap.find n := by
  unfold dereferExprEntry
  rw [hf]
  dsimp only
  by_cases hempty : f.exprSet.erase x = ∅
  · simp [hempty, OrdMap.find_erase]
  · simp [hempty]

theorem factorEntries_dereferExprEntry {f : FactorEntry} (hf : c.factorEntries p = some f) :
    (c.dereferExprEntry p x).factorEntries =
      update c.factorEntries p (some { f with exprSet := f.exprSet.erase x }) := by
  unfold dereferExprEntry
  rw [hf]

@[simp] theorem exprEvictor_dereferExprEntry (c : ExprCache) (p : ℕ) (x : List Byte) :
    (c.dereferExprEntry p x).exprEvictor = c.exprEvictor := by
  unfold dereferExprEntry
  split <;> rfl

theorem next_dereferExprEntry (c : ExprCache) (p : ℕ) (x : List Byte) :
    (c.dereferExprEntry p x).next = c.next := by
  unfold dereferExprEntry
  split <;> rfl

theorem sameNames_dereferExprEntry (c : ExprCache) (p : ℕ) (x : List Byte) :
    SameNames c (c.dereferExprEntry p x) := by
  intro q n hn
  cases hf : c.factorEntries p with
  | none => simpa [dereferExprEntry, hf] using hn
  | some f =>
      unfold nameOf at hn ⊢
      rw [factorEntries_dereferExprEntry hf, update_apply]
      split
      case isTrue heq =>
        subst heq
        simpa [hf] using hn
      case isFalse => exact hn

/-- A factor that has another expression still has it. -/
theorem Knows.derefer (hf : c.factorEntries p = some f)
    (hself : c.strFactorMap.find f.name = some p ∨ c.strFactorMap.find f.name = none) (hy : y ≠ x)
    (h : c.Knows q y) : (c.dereferExprEntry p x).Knows q y := by
  obtain ⟨g, hg, hback, hin⟩ := h
  unfold Knows
  rw [factorEntries_dereferExprEntry hf]
  by_cases hqp : q = p
  · subst hqp
    obtain rfl : g = f := Option.some.inj (hg.symm.trans hf)
    have hstill : y ∈ g.exprSet.erase x := Finset.mem_erase.mpr ⟨hy, hin⟩
    refine ⟨_, update_self _ _ _, ?_, hstill⟩
    rw [find_dereferExprEntry hf, if_neg fun hboth => Finset.ne_empty_of_mem hstill hboth.1]
    exact hback
  · refine ⟨g, by rwa [update_of_ne hqp], ?_, hin⟩
    rw [find_dereferExprEntry hf, if_neg]
    · exact hback
    · rintro ⟨-, hname⟩
      rw [← hname, hback] at hself
      simp [hqp] at hself

/-- A link less. -/
theorem Own.derefer (hf : c.factorEntries p = some f) (h : c.Own ps) :
    (c.dereferExprEntry p x).Own ps := by
  intro q hq
  obtain ⟨g, hg, hback⟩ := h q hq
  rw [factorEntries_dereferExprEntry hf]
  have hnone : ∀ n, (c.strFactorMap.find n = some q ∨ c.strFactorMap.find n = none) →
      (c.dereferExprEntry p x).strFactorMap.find n = some q ∨
        (c.dereferExprEntry p x).strFactorMap.find n = none := by
    intro n hn
    rw [find_dereferExprEntry hf]
    split
    · exact .inr rfl
    · exact hn
  by_cases hqp : q = p
  · subst hqp
    obtain rfl : g = f := Option.some.inj (hg.symm.trans hf)
    exact ⟨_, update_self _ _ _, hnone _ hback⟩
  · exact ⟨g, by rwa [update_of_ne hqp], hnone _ hback⟩

/-- **A factor forgets an expression.** -/
theorem Linked.derefer (h : c.Linked x (p :: ps)) (hx : ∀ e ∈ c.exprEvictor, e.expr ≠ x)
    (hown : c.Own (p :: ps)) : (c.dereferExprEntry p x).Linked x ps := by
  obtain ⟨f, hf, hself⟩ := hown p List.mem_cons_self
  have hentries := @factorEntries_dereferExprEntry c p x f hf
  refine ⟨fun q g hg => ?_, fun n q hn => ?_, fun e he q hq => ?_⟩
  · rw [next_dereferExprEntry]
    rw [hentries, update_apply] at hg
    split at hg
    case isTrue heq => exact heq ▸ h.below p f hf
    case isFalse => exact h.below q g hg
  · rw [find_dereferExprEntry hf] at hn
    split at hn
    case isTrue => cases hn
    case isFalse hne =>
      obtain ⟨g, hg, hname, hany, hall⟩ := h.mapped n q hn
      rw [exprEvictor_dereferExprEntry, hentries]
      by_cases hqp : q = p
      · subst hqp
        obtain rfl : g = f := Option.some.inj (hg.symm.trans hf)
        refine ⟨_, update_self _ _ _, hname, ?_, fun y hy => ?_⟩
        · exact Finset.nonempty_iff_ne_empty.mpr fun hempty => hne ⟨hempty, hname.symm⟩
        · obtain ⟨hyx, hy⟩ := Finset.mem_erase.mp hy
          exact .inl ((hall y hy).resolve_right fun hpend => hyx hpend.1)
      · refine ⟨g, by rwa [update_of_ne hqp], hname, hany, fun y hy => (hall y hy).imp_right ?_⟩
        rintro ⟨hyx, hmem⟩
        exact ⟨hyx, (List.mem_cons.mp hmem).resolve_left hqp⟩
  · rw [exprEvictor_dereferExprEntry] at he
    exact (h.known e he q hq).derefer hf hself (hx e he)

theorem exprEvictor_foldl (x : List Byte) (ps : List ℕ) (c : ExprCache) :
    (ps.foldl (fun c p => c.dereferExprEntry p x) c).exprEvictor = c.exprEvictor := by
  induction ps generalizing c with
  | nil => rfl
  | cons p ps ih => rw [List.foldl_cons, ih, exprEvictor_dereferExprEntry]

theorem sameNames_foldl (x : List Byte) (ps : List ℕ) (c : ExprCache) :
    SameNames c (ps.foldl (fun c p => c.dereferExprEntry p x) c) := by
  induction ps generalizing c with
  | nil => exact .refl c
  | cons p ps ih => exact (sameNames_dereferExprEntry c p x).trans (ih _)

/-- All factors of an expression forget it. -/
theorem Linked.notify (h : c.Linked x ps) (hx : ∀ e ∈ c.exprEvictor, e.expr ≠ x) (hown : c.Own ps) :
    (ps.foldl (fun c p => c.dereferExprEntry p x) c).Linked x [] := by
  induction ps generalizing c with
  | nil => exact h
  | cons p ps ih =>
      obtain ⟨f, hf, -⟩ := hown p List.mem_cons_self
      have hrest : c.Own ps := fun q hq => hown q (List.mem_cons_of_mem _ hq)
      refine ih (h.derefer hx hown) (fun e he => ?_) (hrest.derefer hf)
      rw [exprEvictor_dereferExprEntry] at he
      exact hx e he

theorem own_factors (h : c.Linked x []) (he : e ∈ c.exprEvictor) : c.Own e.factors := by
  intro p hp
  obtain ⟨f, hf, hfind, -⟩ := h.known e he p hp
  exact ⟨f, hf, .inl hfind⟩

/-- **An expression is taken out**: what is left is in order. -/
theorem Index.remove (h : c.Index names) (hperm : c.exprEvictor.Perm (e :: evictor)) :
    ({ c with exprEvictor := evictor }.notifyRemove e).Index names ∧
      ({ c with exprEvictor := evictor }.notifyRemove e).exprEvictor = evictor := by
  have hin : ∀ {e'}, e' ∈ evictor → e' ∈ c.exprEvictor := fun he' =>
    hperm.mem_iff.mpr (List.mem_cons_of_mem _ he')
  have hself : e ∈ c.exprEvictor := hperm.mem_iff.mpr List.mem_cons_self
  have hnodup : e.expr ∉ evictor.map ExprEntry.expr ∧ (evictor.map ExprEntry.expr).Nodup :=
    List.nodup_cons.mp ((hperm.map ExprEntry.expr).nodup_iff.mp h.nodup)
  have hx : ∀ e' ∈ evictor, e'.expr ≠ e.expr := fun e' he' heq => hnodup.1 (heq ▸ List.mem_map_of_mem he')
  have hlinked : Linked { c with exprEvictor := evictor } e.expr e.factors := by
    refine ⟨h.linked.below, fun n p hn => ?_, fun e' he' => h.linked.known e' (hin he')⟩
    obtain ⟨f, hf, hname, hany, hall⟩ := h.linked.mapped n p hn
    refine ⟨f, hf, hname, hany, fun y hy => ?_⟩
    obtain ⟨e', he', rfl, hp⟩ := (hall y hy).resolve_right fun hnil => by simp at hnil
    rcases List.mem_cons.mp (hperm.mem_iff.mp he') with rfl | he'
    · exact .inr ⟨rfl, hp⟩
    · exact .inl ⟨e', he', rfl, hp⟩
  have hown : c.Own e.factors := own_factors h.linked hself
  have hevictor : ({ c with exprEvictor := evictor }.notifyRemove e).exprEvictor = evictor := exprEvictor_foldl ..
  have hnames : SameNames c ({ c with exprEvictor := evictor }.notifyRemove e) :=
    sameNames_foldl e.expr e.factors { c with exprEvictor := evictor }
  refine ⟨⟨?_, ?_, fun e' he' => ?_, fun e' he' => ?_⟩, hevictor⟩
  · rw [hevictor]
    exact hnodup.2
  · exact (hlinked.notify hx hown).nil []
  · rw [hevictor] at he'
    exact hnames.map (h.named e' (hin he'))
  · rw [hevictor] at he'
    exact h.any e' (hin he')

/-! ## An expression is put in -/

/-- The factor at `p` gets the expression `x`, be it there already with the expressions `old` or not. -/
structure Given (c c' : ExprCache) (x n : List Byte) (p : ℕ) (old : Finset (List Byte)) : Prop where
  before : (c.strFactorMap.find n = some p ∧ c.factorEntries p = some ⟨n, old⟩) ∨
    (c.strFactorMap.find n = none ∧ c.factorEntries p = none ∧ old = ∅)
  find : ∀ m, c'.strFactorMap.find m = if m = n then some p else c.strFactorMap.find m
  entries : c'.factorEntries = update c.factorEntries p (some ⟨n, insert x old⟩)
  evictor : c'.exprEvictor = c.exprEvictor
  next : c.next ≤ c'.next
  below : p < c'.next

namespace Given

variable {old : Finset (List Byte)}

theorem self (h : c.Given c' x n p old) : c'.factorEntries p = some ⟨n, insert x old⟩ := by
  rw [h.entries, update_self]

theorem other (h : c.Given c' x n p old) (hqp : q ≠ p) : c'.factorEntries q = c.factorEntries q := by
  rw [h.entries, update_of_ne hqp]

theorem knows_self (h : c.Given c' x n p old) : c'.Knows p x :=
  ⟨_, h.self, by rw [h.find, if_pos rfl], Finset.mem_insert_self _ _⟩

/-- A factor that has its name in the map keeps it, and what it has. -/
theorem knows (h : c.Given c' x n p old) (hq : c.Knows q y) : c'.Knows q y := by
  obtain ⟨g, hg, hback, hin⟩ := hq
  by_cases hqp : q = p
  · subst hqp
    obtain ⟨-, heq⟩ | ⟨-, heq, -⟩ := h.before
    · obtain rfl := Option.some.inj (heq.symm.trans hg)
      exact ⟨_, h.self, by rw [h.find, if_pos rfl], Finset.mem_insert_of_mem hin⟩
    · rw [hg] at heq
      cases heq
  · refine ⟨g, by rwa [h.other hqp], ?_, hin⟩
    rw [h.find, if_neg, hback]
    intro hname
    rw [hname] at hback
    obtain ⟨heq, -⟩ | ⟨heq, -⟩ := h.before
    · exact hqp (Option.some.inj (hback.symm.trans heq))
    · rw [hback] at heq
      cases heq

theorem nameOf (h : c.Given c' x n p old) : c'.nameOf p = some n := by
  simp [ExprCache.nameOf, h.self]

theorem sameNames (h : c.Given c' x n p old) : SameNames c c' := by
  intro q m hm
  by_cases hqp : q = p
  · subst hqp
    obtain ⟨-, hq⟩ | ⟨-, hq, -⟩ := h.before
    · simpa [ExprCache.nameOf, hq, h.self] using hm
    · simp [ExprCache.nameOf, hq] at hm
  · rwa [ExprCache.nameOf, h.other hqp]

end Given

/-- **A factor gets an expression.** -/
theorem Linked.give {old : Finset (List Byte)} (h : c.Linked x ps) (hgiven : c.Given c' x n p old) :
    c'.Linked x (ps ++ [p]) := by
  have hpend : ∀ {q y}, ((∃ e ∈ c.exprEvictor, e.expr = y ∧ q ∈ e.factors) ∨ (y = x ∧ q ∈ ps)) →
      (∃ e ∈ c'.exprEvictor, e.expr = y ∧ q ∈ e.factors) ∨ (y = x ∧ q ∈ ps ++ [p]) := by
    rintro q y (hin | ⟨hyx, hin⟩)
    · exact .inl (by rwa [hgiven.evictor])
    · exact .inr ⟨hyx, List.mem_append_left _ hin⟩
  refine ⟨fun q g hg => ?_, fun m q hm => ?_, fun e he q hq => ?_⟩
  · by_cases hqp : q = p
    · exact hqp ▸ hgiven.below
    · rw [hgiven.other hqp] at hg
      exact (h.below q g hg).trans_le hgiven.next
  · rw [hgiven.find] at hm
    split at hm
    case isTrue heq =>
      obtain rfl := Option.some.inj hm
      refine ⟨_, hgiven.self, heq.symm, ⟨x, Finset.mem_insert_self _ _⟩, fun y hy => ?_⟩
      rcases Finset.mem_insert.mp hy with rfl | hy
      · exact .inr ⟨rfl, by simp⟩
      · obtain ⟨hback, hp⟩ | ⟨-, -, rfl⟩ := hgiven.before
        · obtain ⟨g, hg, -, -, hall⟩ := h.mapped n p hback
          obtain rfl := Option.some.inj (hg.symm.trans hp)
          exact hpend (hall y hy)
        · simp at hy
    case isFalse heq =>
      have hqp : q ≠ p := by
        rintro rfl
        obtain ⟨g, hg, hname, -⟩ := h.mapped m q hm
        obtain ⟨-, hq⟩ | ⟨-, hq, -⟩ := hgiven.before
        · obtain rfl := Option.some.inj (hg.symm.trans hq)
          exact heq hname.symm
        · rw [hg] at hq
          cases hq
      obtain ⟨g, hg, hname, hany, hall⟩ := h.mapped m q hm
      exact ⟨g, by rwa [hgiven.other hqp], hname, hany, fun y hy => hpend (hall y hy)⟩
  · rw [hgiven.evictor] at he
    exact hgiven.knows (h.known e he q hq)

/-- A factor of a new expression. -/
theorem Linked.addFactor (h : c.Linked x ps) {f : Factor} (hf : f.type ≠ .user) :
    ∃ c' p old, ExprCache.addFactor x (c, ps) f = (c', ps ++ [p]) ∧ c.Given c' x f.print p old := by
  unfold ExprCache.addFactor factorFactory
  rw [if_neg hf]
  cases hfind : c.strFactorMap.find f.print with
  | some p =>
      obtain ⟨g, hg, hname, -⟩ := h.mapped _ _ hfind
      obtain ⟨name, old⟩ := g
      obtain rfl : name = f.print := hname
      refine ⟨_, p, old, rfl, .inl ⟨hfind, hg⟩, fun m => ?_, by simp [addExprEntry, hg], rfl, le_rfl,
        h.below p _ hg⟩
      unfold addExprEntry
      split
      case isTrue heq => rw [heq, hfind]
      case isFalse => rfl
  | none =>
      have hfresh : c.factorEntries c.next = none := by
        cases hg : c.factorEntries c.next with
        | none => rfl
        | some g => exact absurd (h.below _ _ hg) (lt_irrefl _)
      refine ⟨_, c.next, ∅, rfl, .inr ⟨hfind, hfresh, rfl⟩, fun m => ?_, by simp [addExprEntry], rfl,
        Nat.le_succ _, Nat.lt_succ_self _⟩
      by_cases hm : m = f.print
      · simp [addExprEntry, hm]
      · simp [addExprEntry, OrdMap.find_insert_ne _ _ hm, hm]

/-- All factors of a new expression. -/
theorem Linked.addFactors (factors : List Factor) (h : c.Linked x ps) (hps : ∀ q ∈ ps, c.Knows q x) :
    ∃ c' ps', factors.foldl (ExprCache.addFactor x) (c, ps) = (c', ps') ∧ c'.Linked x ps' ∧
      (∀ q ∈ ps', c'.Knows q x) ∧ SameNames c c' ∧ c'.exprEvictor = c.exprEvictor ∧
      ∀ l, ps.map c.nameOf = l.map some → ps'.map c'.nameOf = (l ++ factorNames factors).map some := by
  induction factors generalizing c ps with
  | nil => exact ⟨c, ps, rfl, h, hps, .refl c, rfl, fun l hl => by simpa [factorNames] using hl⟩
  | cons f factors ih =>
      by_cases hf : f.type = .user
      · have hskip : ExprCache.addFactor x (c, ps) f = (c, ps) := if_pos hf
        have hnames : factorNames (f :: factors) = factorNames factors := by simp [factorNames, hf]
        rw [List.foldl_cons, hskip, hnames]
        exact ih h hps
      · obtain ⟨c₁, p, old, hadd, hgiven⟩ := h.addFactor hf
        have hknows : ∀ q ∈ ps ++ [p], c₁.Knows q x := by
          intro q hq
          rcases List.mem_append.mp hq with hq | hq
          · exact hgiven.knows (hps q hq)
          · exact List.mem_singleton.mp hq ▸ hgiven.knows_self
        obtain ⟨c', ps', heq, hlinked', hknows', hsame', hevictor', hall⟩ := ih (h.give hgiven) hknows
        refine ⟨c', ps', by rw [List.foldl_cons, hadd, heq], hlinked', hknows', hgiven.sameNames.trans hsame',
          hevictor'.trans hgiven.evictor, fun l hl => ?_⟩
        have hcons : factorNames (f :: factors) = f.print :: factorNames factors := by simp [factorNames, hf]
        have hrest := hall (l ++ [f.print]) (by
          rw [List.map_append, hgiven.sameNames.map hl]
          simp [hgiven.nameOf])
        simpa [hcons] using hrest

/-- Factors of one name are the same. -/
theorem Linked.same (h : c.Knows p x) (h' : c.Knows q y) (hname : c.nameOf p = c.nameOf q) : p = q := by
  obtain ⟨n, hn, hfind⟩ := h.nameOf
  obtain ⟨m, hm, hfind'⟩ := h'.nameOf
  rw [hn, hm] at hname
  obtain rfl := Option.some.inj hname
  exact Option.some.inj (hfind.symm.trans hfind')

theorem entry_eq_some (hnodup : (c.exprEvictor.map ExprEntry.expr).Nodup) :
    c.entry x = some e ↔ e ∈ c.exprEvictor ∧ e.expr = x := by
  constructor
  · intro h
    have hexpr := List.find?_some h
    exact ⟨List.mem_of_find?_eq_some h, by simpa using hexpr⟩
  · rintro ⟨he, rfl⟩
    cases hfind : c.entry e.expr with
    | none => exact absurd (decide_eq_true rfl) (List.find?_eq_none.mp hfind e he)
    | some e' =>
        have he' := List.mem_of_find?_eq_some hfind
        have hexpr := List.find?_some hfind
        rw [List.inj_on_of_nodup_map hnodup he' he (by simpa using hexpr)]

theorem entry_eq_none : c.entry x = none ↔ ∀ e ∈ c.exprEvictor, e.expr ≠ x := by
  unfold entry
  rw [List.find?_eq_none]
  simp

/-- Moving an entry to the front keeps all entries. -/
theorem mem_relocate (hnodup : (c.exprEvictor.map ExprEntry.expr).Nodup) (he : e ∈ c.exprEvictor)
    (e' : ExprEntry) : e' ∈ (c.relocate e).exprEvictor ↔ e' ∈ c.exprEvictor := by
  simp only [relocate, List.mem_cons, List.mem_filter, decide_eq_true_eq]
  constructor
  · rintro (rfl | ⟨he', -⟩)
    · exact he
    · exact he'
  · intro he'
    by_cases hexpr : e'.expr = e.expr
    · exact .inl (List.inj_on_of_nodup_map hnodup he' he hexpr)
    · exact .inr ⟨he', hexpr⟩

theorem nodup_relocate (hnodup : (c.exprEvictor.map ExprEntry.expr).Nodup) :
    ((c.relocate e).exprEvictor.map ExprEntry.expr).Nodup := by
  refine List.nodup_cons.mpr ⟨?_, hnodup.sublist (List.filter_sublist.map _)⟩
  intro hmem
  obtain ⟨e', he', heq⟩ := List.mem_map.mp hmem
  exact of_decide_eq_true (List.mem_filter.mp he').2 heq

theorem perm_relocate (hnodup : (c.exprEvictor.map ExprEntry.expr).Nodup) (he : e ∈ c.exprEvictor) :
    c.exprEvictor.Perm (c.relocate e).exprEvictor :=
  (List.perm_ext_iff_of_nodup (hnodup.of_map _) ((nodup_relocate hnodup).of_map _)).mpr fun e' =>
    (mem_relocate hnodup he e').symm

/-- An entry that is moved to the front. -/
theorem Index.relocate (h : c.Index names) (he : e ∈ c.exprEvictor) : (c.relocate e).Index names where
  nodup := nodup_relocate h.nodup
  linked := h.linked.congr (mem_relocate h.nodup he)
  named e' he' := h.named e' ((mem_relocate h.nodup he e').mp he')
  any e' he' := h.any e' ((mem_relocate h.nodup he e').mp he')

/-- **The last entry is kicked.** -/
theorem Index.kickOne (h : c.Index names) :
    c.kickOne.Index names ∧ c.kickOne.exprEvictor = c.exprEvictor.dropLast := by
  unfold ExprCache.kickOne
  cases hlast : c.exprEvictor.getLast? with
  | none => exact ⟨h, by simp [List.getLast?_eq_none_iff.mp hlast]⟩
  | some e =>
      have happend : c.exprEvictor.dropLast ++ [e] = c.exprEvictor := List.dropLast_append_getLast? e hlast
      have hperm := List.perm_append_singleton e c.exprEvictor.dropLast
      rw [happend] at hperm
      exact h.remove hperm

/-- The oldest expressions are kicked out. -/
theorem Index.kick (h : c.Index names) :
    c.kick.Index names ∧ c.kick.exprEvictor = c.exprEvictor.take kEvictorSize := by
  have hiterate : ∀ k, (ExprCache.kickOne^[k] c).Index names ∧
      (ExprCache.kickOne^[k] c).exprEvictor = c.exprEvictor.take (c.exprEvictor.length - k) := by
    intro k
    induction k with
    | zero => exact ⟨h, by simp⟩
    | succ k ih =>
        obtain ⟨hindex, hevictor⟩ := ih
        rw [iterate_succ_apply']
        obtain ⟨hindex', hevictor'⟩ := hindex.kickOne
        refine ⟨hindex', ?_⟩
        rw [hevictor', hevictor, List.dropLast_eq_take, List.take_take, List.length_take]
        congr 1
        omega
  obtain ⟨hindex, hevictor⟩ := hiterate (c.exprEvictor.length - kEvictorSize)
  refine ⟨hindex, hevictor.trans ?_⟩
  by_cases hfew : c.exprEvictor.length ≤ kEvictorSize
  · rw [List.take_of_length_le hfew, List.take_of_length_le (by omega)]
  · rw [Nat.sub_sub_self (by omega)]

/-- The factors of an expression have it, and the expression is still to be kept. -/
structure Pending (names : List Byte → List (List Byte)) (c : ExprCache) (x : List Byte) (ps : List ℕ) : Prop where
  nodup : (c.exprEvictor.map ExprEntry.expr).Nodup
  linked : c.Linked x ps
  knows : ∀ p ∈ ps, c.Knows p x
  name : ps.map c.nameOf = (names x).map some
  ne_nil : ps ≠ []
  named : ∀ e ∈ c.exprEvictor, e.factors.map c.nameOf = (names e.expr).map some
  any : ∀ e ∈ c.exprEvictor, e.factors ≠ []

/-- The links of an expression that is being stored. -/
theorem Index.pending (h : c.Index names) (hnames : names x = factorNames factors)
    (hall : ¬factors.all (·.type = .user)) :
    ∃ c' ptrs, factors.foldl (ExprCache.addFactor x) (c, []) = (c', ptrs) ∧ Pending names c' x ptrs ∧
      c'.exprEvictor = c.exprEvictor := by
  obtain ⟨c', ptrs, heq, hlinked, hknows, hsame, hevictor, hptrs⟩ :=
    (h.linked.nil x).addFactors factors fun q hq => absurd hq List.not_mem_nil
  have hname : ptrs.map c'.nameOf = (names x).map some := by
    rw [hnames]
    exact hptrs [] rfl
  refine ⟨c', ptrs, heq, ⟨?_, hlinked, hknows, hname, ?_, ?_, ?_⟩, hevictor⟩
  · rw [hevictor]
    exact h.nodup
  · rintro rfl
    have hnil : factorNames factors = [] := by
      simpa [hnames] using hname.symm
    have hnone : ∀ f ∈ factors, f.type = .user := by
      simpa [factorNames, List.filter_eq_nil_iff] using hnil
    exact hall (List.all_eq_true.mpr fun f hf => decide_eq_true (hnone f hf))
  · intro e he
    rw [hevictor] at he
    exact hsame.map (h.named e he)
  · intro e he
    rw [hevictor] at he
    exact h.any e he

/-- If the expression is kept already, everything is in order. -/
theorem Pending.again (h : Pending names c e.expr ps) (he : e ∈ c.exprEvictor) : c.Index names := by
  refine ⟨h.nodup, ⟨h.linked.below, fun n p hn => ?_, h.linked.known⟩, h.named, h.any⟩
  obtain ⟨f, hf, hname, hne, hset⟩ := h.linked.mapped n p hn
  refine ⟨f, hf, hname, hne, fun y hy => .inl ?_⟩
  rcases hset y hy with hin | ⟨rfl, hp⟩
  · exact hin
  · -- the factor that the new entry has is one of the old entry
    have hmem : c.nameOf p ∈ e.factors.map c.nameOf := by
      rw [h.named e he, ← h.name]
      exact List.mem_map_of_mem hp
    obtain ⟨q, hq, hsame⟩ := List.mem_map.mp hmem
    obtain rfl := Linked.same (h.linked.known e he q hq) (h.knows p hp) hsame
    exact ⟨e, he, rfl, hq⟩

/-- If it is not, it is put in front. -/
theorem Pending.cons (h : Pending names c x ps) (hother : ∀ e ∈ c.exprEvictor, e.expr ≠ x) (ids : Finset ℤ) :
    Index names { c with exprEvictor := ⟨x, ids, ps⟩ :: c.exprEvictor } := by
  refine ⟨?_, ⟨h.linked.below, fun n p hn => ?_, fun e he => ?_⟩, fun e he => ?_, fun e he => ?_⟩
  · refine List.nodup_cons.mpr ⟨fun hmem => ?_, h.nodup⟩
    obtain ⟨e, he, hexpr⟩ := List.mem_map.mp hmem
    exact hother e he hexpr
  · obtain ⟨f, hf, hname, hne, hset⟩ := h.linked.mapped n p hn
    refine ⟨f, hf, hname, hne, fun y hy => .inl ?_⟩
    rcases hset y hy with ⟨e, he, hin⟩ | ⟨rfl, hp⟩
    · exact ⟨e, List.mem_cons_of_mem _ he, hin⟩
    · exact ⟨_, List.mem_cons_self, rfl, hp⟩
  · rcases List.mem_cons.mp he with rfl | he
    · exact h.knows
    · exact h.linked.known e he
  · rcases List.mem_cons.mp he with rfl | he
    · exact h.name
    · exact h.named e he
  · rcases List.mem_cons.mp he with rfl | he
    · exact h.ne_nil
    · exact h.any e he

/-- The expression that is new, in front, or the one that was there. -/
theorem Pending.addExprToEvictor (h : Pending names c x ps) (ids : Finset ℤ) :
    (c.addExprToEvictor ⟨x, ids, ps⟩).Index names ∧
      (∀ e ∈ (c.addExprToEvictor ⟨x, ids, ps⟩).exprEvictor,
        e ∈ c.exprEvictor ∨ (e.expr = x ∧ e.ids = ids)) ∧
      (c.exprEvictor.length ≤ kEvictorSize →
        (c.addExprToEvictor ⟨x, ids, ps⟩).exprEvictor.length ≤ kEvictorSize) := by
  unfold ExprCache.addExprToEvictor
  dsimp only
  cases hentry : c.entry x with
  | some e =>
      obtain ⟨he, rfl⟩ := (entry_eq_some h.nodup).mp hentry
      refine ⟨(h.again he).relocate he, fun e' he' => .inl ((mem_relocate h.nodup he e').mp he'), fun hlen => ?_⟩
      exact (perm_relocate h.nodup he).length_eq ▸ hlen
  | none =>
      obtain ⟨hkicked, htake⟩ := (h.cons (entry_eq_none.mp hentry) ids).kick
      refine ⟨hkicked, fun e he => ?_, fun _ => ?_⟩
      · have he := List.mem_of_mem_take (htake ▸ he)
        rcases List.mem_cons.mp he with rfl | he
        · exact .inr ⟨rfl, rfl⟩
        · exact .inl he
      · rw [htake]
        exact List.length_take_le _ _

/-- A stored expression gets its links. -/
theorem Index.store (h : c.Index names) (hnames : names x = factorNames factors) (ids : Finset ℤ) :
    (c.store x factors ids).Index names ∧
      (∀ e ∈ (c.store x factors ids).exprEvictor, e ∈ c.exprEvictor ∨ (e.expr = x ∧ e.ids = ids)) ∧
      (c.exprEvictor.length ≤ kEvictorSize → (c.store x factors ids).exprEvictor.length ≤ kEvictorSize) := by
  unfold ExprCache.store
  split_ifs with hall
  · exact ⟨h, fun e he => .inl he, fun hlen => hlen⟩
  · obtain ⟨c', ptrs, heq, hpending, hevictor⟩ := h.pending hnames hall
    rw [heq, ← hevictor]
    obtain ⟨hindex, hmem, hlen⟩ := hpending.addExprToEvictor ids
    exact ⟨⟨hindex.nodup, ⟨hindex.linked.below, hindex.linked.mapped, hindex.linked.known⟩, hindex.named,
      hindex.any⟩, hmem, hlen⟩

/-! ## Expressions are thrown away -/

/-- One expression is deleted. -/
theorem Index.deleteExprEntry (h : c.Index names) (x : List Byte) :
    (c.deleteExprEntry x).Index names ∧
      (c.deleteExprEntry x).exprEvictor = c.exprEvictor.filter (·.expr ≠ x) := by
  unfold ExprCache.deleteExprEntry
  cases hentry : c.entry x with
  | none =>
      refine ⟨h, (List.filter_eq_self.mpr fun e he => ?_).symm⟩
      simpa using entry_eq_none.mp hentry e he
  | some e =>
      obtain ⟨he, rfl⟩ := (entry_eq_some h.nodup).mp hentry
      exact h.remove (perm_relocate h.nodup he)

/-- Several expressions are deleted. -/
theorem Index.deleteAll (h : c.Index names) (l : List (List Byte)) :
    (l.foldl ExprCache.deleteExprEntry c).Index names ∧
      (l.foldl ExprCache.deleteExprEntry c).exprEvictor = c.exprEvictor.filter (·.expr ∉ l) := by
  induction l generalizing c with
  | nil => exact ⟨h, by simp⟩
  | cons x l ih =>
      obtain ⟨hindex, hevictor⟩ := h.deleteExprEntry x
      obtain ⟨hindex', hevictor'⟩ := ih hindex
      refine ⟨hindex', ?_⟩
      rw [List.foldl_cons, hevictor', hevictor, List.filter_filter]
      congr 1
      funext e
      simp [Bool.and_comm]

theorem Index.mem_names (h : c.Index names) (he : e ∈ c.exprEvictor) :
    n ∈ names e.expr ↔ ∃ p ∈ e.factors, c.nameOf p = some n := by
  have hmem : some n ∈ e.factors.map c.nameOf ↔ ∃ p ∈ e.factors, c.nameOf p = some n := List.mem_map
  rw [h.named e he] at hmem
  simpa using hmem

/-- **A factor has changed.** The expressions with it are thrown away, and no others. -/
theorem Index.invalidateFactor (h : c.Index names) (n : List Byte) :
    (c.invalidateFactor n).1.Index names ∧
      (c.invalidateFactor n).1.exprEvictor = c.exprEvictor.filter fun e => n ∉ names e.expr := by
  unfold ExprCache.invalidateFactor
  cases hfind : c.strFactorMap.find n with
  | none =>
      refine ⟨h, (List.filter_eq_self.mpr fun e he => ?_).symm⟩
      suffices hnot : n ∉ names e.expr by simpa using hnot
      intro hn
      obtain ⟨p, hp, hname⟩ := (h.mem_names he).mp hn
      obtain ⟨m, hm, hback⟩ := (h.linked.known e he p hp).nameOf
      obtain rfl := Option.some.inj (hm.symm.trans hname)
      rw [hfind] at hback
      cases hback
  | some p =>
      obtain ⟨f, hf, hname, -, hall⟩ := h.linked.mapped n p hfind
      rw [Option.bind_some, hf]
      obtain ⟨hindex, hevictor⟩ := h.deleteAll (f.exprSet.sort (· ≤ ·))
      refine ⟨hindex, hevictor.trans (List.filter_congr fun e he => ?_)⟩
      have hiff : e.expr ∈ f.exprSet ↔ n ∈ names e.expr := by
        rw [h.mem_names he]
        constructor
        · intro hin
          obtain ⟨e', he', hexpr, hp⟩ := (hall _ hin).resolve_right fun hnil => by simp at hnil
          obtain rfl := List.inj_on_of_nodup_map h.nodup he' he hexpr
          exact ⟨p, hp, by simp [ExprCache.nameOf, hf, hname]⟩
        · rintro ⟨q, hq, hqname⟩
          obtain ⟨g, hg, hback, hin⟩ := h.linked.known e he q hq
          have hgname : g.name = n := by simpa [ExprCache.nameOf, hg] using hqname
          rw [hgname, hfind] at hback
          obtain rfl := Option.some.inj hback
          obtain rfl := Option.some.inj (hf.symm.trans hg)
          exact hin
      simp [hiff]

/-! ## What is printed -/

/-- The factors cached are those of the expressions. -/
theorem Index.factors_eq (h : c.Index names) : c.factors = c.factorsInExprs := by
  ext n
  have hkey : n ∈ c.factors ↔ ∃ p, c.strFactorMap.find n = some p := by
    simp [ExprCache.factors, ← OrdMap.mem_entries_iff]
  have hin : n ∈ c.factorsInExprs ↔ ∃ e ∈ c.exprEvictor, ∃ p ∈ e.factors, c.nameOf p = some n := by
    simp [ExprCache.factorsInExprs, ExprCache.nameOf]
  rw [hkey, hin]
  constructor
  · rintro ⟨p, hp⟩
    obtain ⟨f, hf, hname, ⟨y, hy⟩, hall⟩ := h.linked.mapped n p hp
    obtain ⟨e, he, -, hmem⟩ := (hall y hy).resolve_right fun hnil => by simp at hnil
    exact ⟨e, he, p, hmem, by simp [ExprCache.nameOf, hf, hname]⟩
  · rintro ⟨e, he, p, hp, hname⟩
    obtain ⟨m, hm, hback⟩ := (h.linked.known e he p hp).nameOf
    obtain rfl := Option.some.inj (hm.symm.trans hname)
    exact ⟨p, hback⟩

/-- The expressions cached are those that the factors name. -/
theorem Index.exprs_eq (h : c.Index names) : c.exprs = c.exprsInFactors := by
  ext x
  have hkey : x ∈ c.exprs ↔ ∃ e ∈ c.exprEvictor, e.expr = x := by simp [ExprCache.exprs]
  have hin : x ∈ c.exprsInFactors ↔
      ∃ n p f, c.strFactorMap.find n = some p ∧ c.factorEntries p = some f ∧ x ∈ f.exprSet := by
    simp only [ExprCache.exprsInFactors, Finset.mem_biUnion, List.mem_toFinset, OrdMap.mem_values_iff]
    constructor
    · rintro ⟨p, ⟨n, hn⟩, hx⟩
      obtain ⟨f, hf, -⟩ := h.linked.mapped n p hn
      exact ⟨n, p, f, hn, hf, by simpa [hf] using hx⟩
    · rintro ⟨n, p, f, hn, hf, hx⟩
      exact ⟨p, ⟨n, hn⟩, by simpa [hf] using hx⟩
  rw [hkey, hin]
  constructor
  · rintro ⟨e, he, rfl⟩
    obtain ⟨p, hp⟩ := List.exists_mem_of_ne_nil _ (h.any e he)
    obtain ⟨f, hf, hback, hx⟩ := h.linked.known e he p hp
    exact ⟨f.name, p, f, hback, hf, hx⟩
  · rintro ⟨n, p, f, hn, hf, hx⟩
    obtain ⟨g, hg, -, -, hall⟩ := h.linked.mapped n p hn
    obtain rfl := Option.some.inj (hf.symm.trans hg)
    obtain ⟨e, he, hexpr, -⟩ := (hall x hx).resolve_right fun hnil => by simp at hnil
    exact ⟨e, he, hexpr⟩

/-- **There is nothing to be warned of.** -/
theorem Index.warns_eq (h : c.Index names) : c.warns = (false, false) := by
  unfold ExprCache.warns
  rw [← h.factors_eq, ← h.exprs_eq]
  simp

end ExprCache

end Oce.FeedDispatcher
