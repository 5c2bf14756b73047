import Oce.Base.Counted
import Oce.FeedDispatcher.Analysis.ExpressionIndex
import Oce.FeedDispatcher.Analysis.ExpressionValue

/-!
# What the cache has is what the database has

Whatever the threads do, the cache and its factors stay in order (`index_always`). An expression that is
kept has the ids that it would be given now, unless one of its factors has changed and the notice is
still on its way, or is a `CheWen`, of which there are no notices (`found_current`). The one thing that must not
happen is that a notice arrives while an expression with the factor is being calculated: what has been
taken from the database before is put into the cache after.
-/

set_option autoImplicit false

namespace Oce.FeedDispatcher

open Oce.Base

variable {expr : List Byte} {f : Factor} {factors : List Factor} {r result ids : Finset ℤ}
  {op : Op} {fit i : ℕ} {ph : Phase} {ops : List Op} {db : Database}

attribute [local instance] byteOrder

/-- The names under which an expression is kept. -/
def namesOf (fuel : ℕ) (expr : List Byte) : List (List Byte) :=
  match tokenize expr fuel with
  | some (.ok t) => factorNames t.factors
  | _ => []

theorem namesOf_eq {fuel : ℕ} {t : Tokens} (h : tokenize expr fuel = some (.ok t)) :
    namesOf fuel expr = factorNames t.factors := by
  unfold namesOf
  rw [h]

theorem Factor.print_injective : Function.Injective Factor.print := by
  rintro ⟨type, id⟩ ⟨type', id'⟩ h
  obtain ⟨hchar, hrest⟩ := List.cons.inj h
  have hid : id = id' := intDigits_injective (List.append_cancel_right (List.cons.inj hrest).2)
  have htype := congrArg FactorType.ofChar hchar
  rw [FactorType.ofChar_char, FactorType.ofChar_char] at htype
  obtain rfl : type = type' := Option.some.inj htype
  rw [hid]

/-- An expression is kept under the factors that are no users. -/
theorem print_mem_factorNames (hf : f.type ≠ .user) :
    f.print ∈ factorNames factors ↔ f ∈ factors := by
  simp only [factorNames, List.mem_map, List.mem_filter, decide_eq_true_eq]
  constructor
  · rintro ⟨g, ⟨hg, -⟩, heq⟩
    exact Factor.print_injective heq ▸ hg
  · intro hmem
    exact ⟨f, ⟨hmem, hf⟩, rfl⟩

/-! ## What is calculated, factor by factor -/

section Calculated

variable {db db' : Database} {props : Properties} {factors : List Factor} {ops : List Op} {f : Factor}

/-- One factor more. -/
theorem calculateRest_concat {r' : Finset ℤ} (h : calculateRest db props factors ops r = some r')
    (hop : ops[factors.length]? = some op) :
    calculateRest db props (factors ++ [f]) ops r = some (f.apply db props op r') := by
  induction factors generalizing ops r with
  | nil =>
      obtain rfl : r = r' := Option.some.inj h
      cases ops with
      | nil => simp at hop
      | cons op' ops =>
          obtain rfl : op' = op := by simpa using hop
          rfl
  | cons g factors ih =>
      cases ops with
      | nil => cases h
      | cons op' ops => exact ih h (by simpa using hop)

/-- One more factor. -/
theorem calculateIds_take (hfit : 0 < fit) (hf : factors[fit]? = some f)
    (hop : ops[fit - 1]? = some op) (h : calculateIds db props (factors.take fit) ops = some r) :
    calculateIds db props (factors.take (fit + 1)) ops = some (f.apply db props op r) := by
  obtain ⟨hlt, rfl⟩ := List.getElem?_eq_some_iff.mp hf
  obtain ⟨fit, rfl⟩ : ∃ k, fit = k + 1 := ⟨fit - 1, by omega⟩
  cases factors with
  | nil => simp at hlt
  | cons g factors =>
      rw [List.length_cons] at hlt
      rw [List.take_succ_cons] at h ⊢
      rw [List.take_succ_eq_append_getElem (by omega)]
      apply calculateRest_concat h
      rw [List.length_take, min_eq_left (by omega)]
      exact hop

/-- What is calculated depends on the ids of the factors. -/
theorem calculateIds_congr (hf : ∀ f ∈ factors, Filters db props f) (hf' : ∀ f ∈ factors, Filters db' props f)
    (hids : ∀ f ∈ factors, f.ids db' props = f.ids db props) (ops : List Op) :
    calculateIds db' props factors ops = calculateIds db props factors ops := by
  rw [calculateIds_eq hf, calculateIds_eq hf']
  cases factors with
  | nil => rfl
  | cons f factors =>
      have hall : ∀ (rest : List (Op × Factor)) (r : Finset ℤ), (∀ e ∈ rest, e.2 ∈ factors) →
          combineAll db' props r rest = combineAll db props r rest := by
        intro rest
        induction rest with
        | nil => exact fun r _ => rfl
        | cons e rest ih =>
            intro r hrest
            unfold combineAll at ih ⊢
            rw [List.foldl_cons, List.foldl_cons, hids e.2 (List.mem_cons_of_mem _ (hrest e List.mem_cons_self))]
            exact ih _ fun e' he' => hrest e' (List.mem_cons_of_mem _ he')
      dsimp only
      unfold Expression.ids
      rw [hids f List.mem_cons_self, hall _ _ fun e he => (List.of_mem_zip he).2]

end Calculated

/-! ## The cache in a run -/

namespace System

variable {props : Properties} {fuel : ℕ} {s : System} {t : ℕ}

/-- The cache is in order, and the threads have what the parser has found. -/
structure Ordered (fuel : ℕ) (s : System) : Prop where
  index : s.cache.Index (namesOf fuel)
  few : s.cache.exprEvictor.length ≤ kEvictorSize
  parsed : ∀ {expr factors ops fit result}, Phase.calculating expr factors ops fit result ∈ s.threads →
    ∃ pos, tokenize expr fuel = some (.ok ⟨pos, factors, ops⟩)

theorem mem_setThread {ph' : Phase} (h : ph ∈ (s.setThread t ph').threads) :
    ph = ph' ∨ ph ∈ s.threads :=
  (List.mem_or_eq_of_mem_set h).symm

/-- What is looked up changes the order of the expressions alone. -/
theorem lookup_spec (h : s.cache.Index (namesOf fuel)) (expr : List Byte) :
    (s.cache.lookup expr).1.Index (namesOf fuel) ∧
      s.cache.exprEvictor.Perm (s.cache.lookup expr).1.exprEvictor := by
  unfold ExprCache.lookup
  cases hentry : s.cache.entry expr with
  | none => exact ⟨h, List.Perm.refl _⟩
  | some e =>
      obtain ⟨he, -⟩ := (ExprCache.entry_eq_some h.nodup).mp hentry
      have hindex := h.relocate he
      exact ⟨⟨hindex.nodup, ⟨hindex.linked.below, hindex.linked.mapped, hindex.linked.known⟩, hindex.named,
        hindex.any⟩, ExprCache.perm_relocate h.nodup he⟩

/-- A thread that begins to calculate has what the parser has found, and nothing yet. -/
theorem parse_calculating {expr' : List Byte}
    (h : Phase.calculating expr factors ops fit result = parse fuel expr') :
    fit = 0 ∧ result = ∅ ∧ ∃ pos, tokenize expr fuel = some (.ok ⟨pos, factors, ops⟩) := by
  unfold parse at h
  split at h
  case h_1 tokens htokens =>
    cases h
    exact ⟨rfl, rfl, tokens.pos, htokens⟩
  case h_2 => cases h
  case h_3 => cases h

theorem Ordered.setThread (h : Ordered fuel s)
    (hph : ∀ {expr factors ops fit result}, Phase.calculating expr factors ops fit result = ph →
      ∃ pos, tokenize expr fuel = some (.ok ⟨pos, factors, ops⟩)) (t : ℕ) :
    Ordered fuel (s.setThread t ph) where
  index := h.index
  few := h.few
  parsed hmem := by
    rcases mem_setThread hmem with heq | hold
    · exact hph heq
    · exact h.parsed hold

/-- A lookup keeps the order. -/
theorem Ordered.lookup (h : Ordered fuel s) (t : ℕ) (input : List Byte) :
    Ordered fuel (s.lookup fuel t input) := by
  unfold System.lookup
  split
  case h_1 =>
    obtain ⟨hindex, hperm⟩ := lookup_spec h.index (eraseSpaces input)
    have hcache : Ordered fuel { s with cache := (s.cache.lookup (eraseSpaces input)).1 } :=
      ⟨hindex, hperm.length_eq ▸ h.few, h.parsed⟩
    dsimp only
    split_ifs
    · exact hcache.setThread (fun heq => by cases heq) t
    · exact hcache.setThread (fun heq => (parse_calculating heq).2.2) t
  case h_2 => exact h

theorem Ordered.advance (h : Ordered fuel s) (t : ℕ) : Ordered fuel (s.advance props t) := by
  unfold System.advance
  split
  case h_1 expr factors ops fit result ht =>
    obtain ⟨pos, hpos⟩ := h.parsed (List.mem_of_getElem? ht)
    have hgoes : ∀ fit' result', Ordered fuel (s.setThread t (.calculating expr factors ops fit' result')) :=
      fun fit' result' => h.setThread (fun heq => by cases heq; exact ⟨pos, hpos⟩) t
    split
    · split_ifs
      · exact h.setThread (fun heq => by cases heq) t
      · obtain ⟨hindex, -, hfew⟩ := h.index.store (namesOf_eq hpos) result
        have hcache : Ordered fuel { s with cache := s.cache.store expr factors result } :=
          ⟨hindex, hfew h.few, h.parsed⟩
        exact hcache.setThread (fun heq => by cases heq) t
    · split_ifs
      · exact hgoes _ _
      · split
        · exact h.setThread (fun heq => by cases heq) t
        · exact hgoes _ _
  case h_2 => exact h

theorem Ordered.reload (h : Ordered fuel s) (i : ℕ) : Ordered fuel (s.reload i) := by
  unfold System.reload
  split
  case h_1 type id hi =>
    obtain ⟨hindex, hevictor⟩ := h.index.invalidateFactor (type.factor id).print
    refine ⟨hindex, ?_, h.parsed⟩
    dsimp only
    rw [hevictor]
    exact (List.length_filter_le _ _).trans h.few
  case h_2 => exact h

/-- **One step.** -/
theorem Ordered.step (h : Ordered fuel s) (a : Step) : Ordered fuel (s.step props fuel a) := by
  cases a with
  | lookup t expr => exact h.lookup t expr
  | advance t => exact h.advance t
  | change db notices => exact ⟨h.index, h.few, h.parsed⟩
  | reload i => exact h.reload i

theorem ordered_new (db : Database) (n : ℕ) : Ordered fuel (System.new db n) where
  index := by
    refine ⟨List.nodup_nil, ⟨?_, ?_, ?_⟩, ?_, ?_⟩
    · intro p f hf
      cases hf
    · intro m p hm
      cases hm
    · intro e he
      cases he
    · intro e he
      cases he
    · intro e he
      cases he
  few := Nat.zero_le _
  parsed hmem := nomatch List.eq_of_mem_replicate hmem

theorem ordered_run (props : Properties) (fuel : ℕ) (db : Database) (n : ℕ) (steps : List Step) :
    Ordered fuel (runOps (System.step props fuel) (System.new db n) steps) :=
  run_invariant_all (fun _ a h => h.step a) (ordered_new db n) steps

/-- The expressions that are left when a factor is invalidated. -/
theorem Ordered.mem_invalidate (h : Ordered fuel s) (hf : f.type ≠ .user) {e : ExprEntry} :
    e ∈ (s.cache.invalidateFactor f.print).1.exprEvictor ↔
      e ∈ s.cache.exprEvictor ∧
        ∀ pos factors ops, tokenize e.expr fuel = some (.ok ⟨pos, factors, ops⟩) → f ∉ factors := by
  rw [(h.index.invalidateFactor f.print).2, List.mem_filter, decide_eq_true_iff]
  refine and_congr_right fun he => ⟨fun hnot pos factors ops hparsed hmem => ?_, fun hall hmem => ?_⟩
  · rw [namesOf_eq hparsed, print_mem_factorNames hf] at hnot
    exact hnot hmem
  · unfold namesOf at hmem
    split at hmem
    case h_1 t ht => exact hall t.pos t.factors t.ops ht ((print_mem_factorNames hf).mp hmem)
    case h_2 => cases hmem

/-- **The index in every run.** What is compared every half minute agrees, no expression is kept twice,
there are not too many, and a factor that is invalidated takes its expressions with it and no others. -/
theorem index_always (props : Properties) (fuel : ℕ) (db : Database) (n : ℕ) (steps : List Step) :
    let c := (runOps (System.step props fuel) (System.new db n) steps).cache
    c.factors = c.factorsInExprs ∧ c.exprs = c.exprsInFactors ∧ c.warns = (false, false) ∧
      (c.exprEvictor.map ExprEntry.expr).Nodup ∧ c.exprEvictor.length ≤ kEvictorSize ∧
      ∀ f : Factor, f.type ≠ .user → ∀ e, e ∈ (c.invalidateFactor f.print).1.exprEvictor ↔
        e ∈ c.exprEvictor ∧ ∀ pos factors ops, tokenize e.expr fuel = some (.ok ⟨pos, factors, ops⟩) →
          f ∉ factors := by
  have h := ordered_run props fuel db n steps
  exact ⟨h.index.factors_eq, h.index.exprs_eq, h.index.warns_eq, h.index.nodup, h.few,
    fun f hf e => h.mem_invalidate hf⟩

/-! ## What the cache has -/

/-- A factor whose ids may be others than those that were taken: there are no notices for it, or one is
on its way. -/
def Doubtful (s : System) (f : Factor) : Prop := f.type = .cheWen ∨ ∃ e ∈ s.notices, e.1.factor e.2 = f

/-- A database that gives the rows that are asked for changes with notices of what has changed, and a
notice does not arrive for a factor that a thread has taken already. -/
def Sound (props : Properties) (s : System) : Step → Prop
  | .change db notices =>
    (∀ f, Filters db props f) ∧ ∀ f : Factor, f.ids db props ≠ f.ids s.db props →
      f.type = .cheWen ∨ ∃ e ∈ notices, e.1.factor e.2 = f
  | .reload i =>
    ∀ type id, s.notices[i]? = some (type, id) → ∀ expr factors ops fit result,
      Phase.calculating expr factors ops fit result ∈ s.threads → type.factor id ∉ factors.take fit
  | _ => True

/-- What has been calculated is what would be calculated now, or a factor is doubtful. -/
def Current (props : Properties) (s : System) (factors : List Factor) (ops : List Op) (ids : Finset ℤ) : Prop :=
  (∃ f ∈ factors, s.Doubtful f) ∨ calculateIds s.db props factors ops = some ids

structure Fresh (props : Properties) (fuel : ℕ) (s : System) : Prop where
  ordered : Ordered fuel s
  lawful : ∀ f, Filters s.db props f
  cached : ∀ e ∈ s.cache.exprEvictor, ∀ {pos factors ops},
    tokenize e.expr fuel = some (.ok ⟨pos, factors, ops⟩) → s.Current props factors ops e.ids
  taken : ∀ {expr factors ops fit result}, Phase.calculating expr factors ops fit result ∈ s.threads →
    (fit = 0 ∧ result = ∅) ∨ s.Current props (factors.take fit) ops result

/-- A thread that goes on to calculate. -/
theorem Fresh.setThread (h : Fresh props fuel s)
    (hparsed : ∀ {expr factors ops fit result}, Phase.calculating expr factors ops fit result = ph →
      ∃ pos, tokenize expr fuel = some (.ok ⟨pos, factors, ops⟩))
    (hph : ∀ {expr factors ops fit result}, Phase.calculating expr factors ops fit result = ph →
      (fit = 0 ∧ result = ∅) ∨ s.Current props (factors.take fit) ops result) (t : ℕ) :
    Fresh props fuel (s.setThread t ph) where
  ordered := h.ordered.setThread hparsed t
  lawful := h.lawful
  cached := h.cached
  taken hmem := by
    rcases mem_setThread hmem with heq | hold
    · exact hph heq
    · exact h.taken hold

/-- A thread that does not. -/
theorem Fresh.leave (h : Fresh props fuel s)
    (hph : ∀ expr factors ops fit result, Phase.calculating expr factors ops fit result ≠ ph)
    (t : ℕ) : Fresh props fuel (s.setThread t ph) :=
  h.setThread (fun heq => absurd heq (hph _ _ _ _ _)) (fun heq => absurd heq (hph _ _ _ _ _)) t

/-- A state with another cache. -/
theorem Fresh.setCache (h : Fresh props fuel s) {cache : ExprCache}
    (hordered : Ordered fuel { s with cache := cache })
    (hcached : ∀ e ∈ cache.exprEvictor, e ∈ s.cache.exprEvictor ∨ ∀ {pos factors ops},
      tokenize e.expr fuel = some (.ok ⟨pos, factors, ops⟩) → s.Current props factors ops e.ids) :
    Fresh props fuel { s with cache := cache } where
  ordered := hordered
  lawful := h.lawful
  cached e he _ _ _ hparsed := by
    rcases hcached e he with hold | hnew
    · exact h.cached e hold hparsed
    · exact hnew hparsed
  taken := h.taken

/-- A lookup moves what it finds to the front. -/
theorem Fresh.lookup (h : Fresh props fuel s) (t : ℕ) (input : List Byte) :
    Fresh props fuel (s.lookup fuel t input) := by
  unfold System.lookup
  split
  case h_1 =>
    obtain ⟨hindex, hperm⟩ := lookup_spec h.ordered.index (eraseSpaces input)
    have hcache : Fresh props fuel { s with cache := (s.cache.lookup (eraseSpaces input)).1 } :=
      h.setCache ⟨hindex, hperm.length_eq ▸ h.ordered.few, h.ordered.parsed⟩ fun e he =>
        .inl (hperm.mem_iff.mpr he)
    dsimp only
    split_ifs
    · exact hcache.leave (fun _ _ _ _ _ heq => by cases heq) t
    · refine hcache.setThread (fun heq => (parse_calculating heq).2.2) (fun heq => ?_) t
      exact .inl ⟨(parse_calculating heq).1, (parse_calculating heq).2.1⟩
  case h_2 => exact h

/-- Before the first factor there is nothing. -/
theorem Current.first (hf : factors[0]? = some f) (ops : List Op) :
    s.Current props (factors.take 1) ops (f.plus s.db props ∅) := by
  cases factors with
  | nil => simp at hf
  | cons g factors =>
      obtain rfl : g = f := by simpa using hf
      exact .inr rfl

/-- The next factor is applied. -/
theorem Current.next (h : s.Current props (factors.take fit) ops result) (hfit : fit ≠ 0)
    (hf : factors[fit]? = some f) (hop : ops[fit - 1]? = some op) :
    s.Current props (factors.take (fit + 1)) ops (f.apply s.db props op result) := by
  rcases h with ⟨g, hg, hdoubt⟩ | hcalc
  · exact .inl ⟨g, List.take_subset_take_left _ (Nat.le_succ _) hg, hdoubt⟩
  · exact .inr (calculateIds_take (Nat.pos_of_ne_zero hfit) hf hop hcalc)

/-- **A thread puts its ids into the cache.** -/
theorem Fresh.store (h : Fresh props fuel s)
    (hmem : Phase.calculating expr factors ops fit result ∈ s.threads) (hfit : fit ≠ 0)
    (hall : factors[fit]? = none) :
    Fresh props fuel { s with cache := s.cache.store expr factors result } := by
  obtain ⟨pos, hpos⟩ := h.ordered.parsed hmem
  obtain ⟨hindex, hstored, hfew⟩ := h.ordered.index.store (namesOf_eq hpos) result
  refine h.setCache ⟨hindex, hfew h.ordered.few, h.ordered.parsed⟩ fun e he => ?_
  refine (hstored e he).imp_right ?_
  rintro ⟨rfl, rfl⟩ pos' factors' ops' hparsed
  rw [hpos] at hparsed
  cases hparsed
  have htaken := (h.taken hmem).resolve_left fun hzero => hfit hzero.1
  rwa [List.take_of_length_le (List.getElem?_eq_none_iff.mp hall)] at htaken

/-- One step of a request keeps what is cached fresh. -/
theorem Fresh.advance (h : Fresh props fuel s) (t : ℕ) : Fresh props fuel (s.advance props t) := by
  unfold System.advance
  split
  case h_1 expr factors ops fit result ht =>
    have hmem := List.mem_of_getElem? ht
    obtain ⟨pos, hpos⟩ := h.ordered.parsed hmem
    have hgoes : ∀ {fit' result'}, s.Current props (factors.take fit') ops result' →
        Fresh props fuel (s.setThread t (.calculating expr factors ops fit' result')) := fun hcurrent =>
      h.setThread (fun heq => by cases heq; exact ⟨pos, hpos⟩) (fun heq => by cases heq; exact .inr hcurrent) t
    split
    case h_1 hall =>
      split_ifs with hfit
      · exact h.leave (fun _ _ _ _ _ heq => by cases heq) t
      · exact (h.store hmem hfit hall).leave (fun _ _ _ _ _ heq => by cases heq) t
    case h_2 f hf =>
      split_ifs with hfit
      · subst hfit
        have hempty : result = ∅ := by
          rcases h.taken hmem with ⟨-, hempty⟩ | ⟨g, hg, -⟩ | hnone
          · exact hempty
          · simp at hg
          · simp [calculateIds] at hnone
        subst hempty
        exact hgoes (.first hf ops)
      · have htaken := (h.taken hmem).resolve_left fun hzero => hfit hzero.1
        split
        case h_1 => exact h.leave (fun _ _ _ _ _ heq => by cases heq) t
        case h_2 op hop => exact hgoes (htaken.next hfit hf hop)
  case h_2 => exact h

/-- What is current stays so, but for what has changed. -/
theorem Fresh.current_change (h : Fresh props fuel s) {notices : List (LoadType × ℤ)}
    (hsound : s.Sound props (.change db notices)) (hcurrent : s.Current props factors ops ids) :
    Current props { s with db := db, notices := s.notices ++ notices } factors ops ids := by
  obtain ⟨hlawful, hnotices⟩ := hsound
  rcases hcurrent with ⟨f, hf, hdoubt⟩ | hcalc
  · refine .inl ⟨f, hf, hdoubt.imp_right ?_⟩
    rintro ⟨e, he, heq⟩
    exact ⟨e, List.mem_append_left _ he, heq⟩
  · by_cases hsame : ∀ f ∈ factors, f.ids db props = f.ids s.db props
    · refine .inr ?_
      dsimp only
      rw [calculateIds_congr (fun f _ => h.lawful f) (fun f _ => hlawful f) hsame]
      exact hcalc
    · push Not at hsame
      obtain ⟨f, hf, hne⟩ := hsame
      refine .inl ⟨f, hf, (hnotices f hne).imp_right ?_⟩
      rintro ⟨e, he, heq⟩
      exact ⟨e, List.mem_append_right _ he, heq⟩

/-- A change of the database. -/
theorem Fresh.change (h : Fresh props fuel s) {notices : List (LoadType × ℤ)}
    (hsound : s.Sound props (.change db notices)) :
    Fresh props fuel { s with db := db, notices := s.notices ++ notices } where
  ordered := ⟨h.ordered.index, h.ordered.few, h.ordered.parsed⟩
  lawful := hsound.1
  cached e he _ _ _ hparsed := h.current_change hsound (h.cached e he hparsed)
  taken hmem := (h.taken hmem).imp_right (h.current_change hsound)

/-- What is current stays so when a notice arrives for another factor. -/
theorem Current.erase {e : LoadType × ℤ} (hi : s.notices[i]? = some e)
    (hnot : e.1.factor e.2 ∉ factors) (h : s.Current props factors ops ids) (cache : ExprCache) :
    Current props { s with cache := cache, notices := s.notices.eraseIdx i } factors ops ids := by
  refine h.imp_left ?_
  rintro ⟨f, hf, hdoubt⟩
  refine ⟨f, hf, hdoubt.imp_right ?_⟩
  rintro ⟨e', he', rfl⟩
  have hperm := perm_of_getElem? hi
  rcases List.mem_cons.mp (hperm.mem_iff.mp he') with rfl | hrest
  · exact absurd hf hnot
  · exact ⟨e', hrest, rfl⟩

theorem LoadType.factor_type (type : LoadType) (id : ℤ) : (type.factor id).type ≠ .user := by
  cases type <;> simp [LoadType.factor]

/-- A reloaded factor drops what used it. -/
theorem Fresh.reload (h : Fresh props fuel s) (hsound : s.Sound props (.reload i)) :
    Fresh props fuel (s.reload i) := by
  have hordered := h.ordered.reload i
  unfold System.reload at hordered ⊢
  split
  case h_1 type id hi =>
    rw [hi] at hordered
    dsimp only at hordered
    refine ⟨hordered, h.lawful, fun e he pos factors ops hparsed => ?_, fun hmem => ?_⟩
    · obtain ⟨hold, hnot⟩ := (h.ordered.mem_invalidate (LoadType.factor_type type id)).mp he
      exact Current.erase hi (hnot _ _ _ hparsed) (h.cached e hold hparsed) _
    · exact (h.taken hmem).imp_right fun hcurrent =>
        Current.erase hi (hsound type id hi _ _ _ _ _ hmem) hcurrent _
  case h_2 => exact h

/-- **One step.** -/
theorem Fresh.step (h : Fresh props fuel s) {a : Step} (hsound : s.Sound props a) :
    Fresh props fuel (s.step props fuel a) := by
  cases a with
  | lookup t expr => exact h.lookup t expr
  | advance t => exact h.advance t
  | change db notices => exact h.change hsound
  | reload i => exact h.reload hsound

theorem fresh_new (hdb : ∀ f, Filters db props f) (n : ℕ) :
    Fresh props fuel (System.new db n) where
  ordered := ordered_new db n
  lawful := hdb
  cached _ he := nomatch he
  taken hmem := nomatch List.eq_of_mem_replicate hmem

/-- **What is found is current.** In every run in which changes are notified and notices come between
calculations, what the cache gives for an expression is what would be calculated for it now, but for
factors of which a notice is on its way, or of which there are none. -/
theorem found_current {props : Properties} {fuel : ℕ} {db : Database} (hdb : ∀ f, Filters db props f) {n : ℕ}
    {steps : List Step} (hsound : StepsMeet (System.step props fuel) (Sound props) (System.new db n) steps)
    {expr : List Byte} {ids : Finset ℤ}
    (hfound : ((runOps (System.step props fuel) (System.new db n) steps).cache.lookup expr).2 = some ids) :
    ∃ t, tokenize expr fuel = some (.ok t) ∧
      (runOps (System.step props fuel) (System.new db n) steps).Current props t.factors t.ops ids := by
  have h : Fresh props fuel (runOps (System.step props fuel) (System.new db n) steps) :=
    run_invariant (fun s a hs ha => hs.step ha) (fresh_new hdb n) hsound
  generalize runOps (System.step props fuel) (System.new db n) steps = s at h hfound ⊢
  unfold ExprCache.lookup at hfound
  cases hentry : s.cache.entry expr with
  | none =>
      rw [hentry] at hfound
      cases hfound
  | some e =>
      rw [hentry] at hfound
      obtain ⟨he, rfl⟩ := (ExprCache.entry_eq_some h.ordered.index.nodup).mp hentry
      obtain rfl : e.ids = ids := Option.some.inj hfound
      obtain ⟨t, ht⟩ : ∃ t, tokenize e.expr fuel = some (.ok t) := by
        -- an expression that is kept has names
        have hany := h.ordered.index.any e he
        have hnamed := h.ordered.index.named e he
        unfold namesOf at hnamed
        split at hnamed
        case h_1 t ht => exact ⟨t, ht⟩
        case h_2 => exact absurd (List.map_eq_nil_iff.mp hnamed) hany
      exact ⟨t, ht, h.cached e he ht⟩

/-- The friends of 7 but for 2 are calculated and kept; another thread has taken the first factor of
an expression when the friends change. The notice arrives before it goes on, and the first
expression is calculated again. -/
def friendsChange : List Step :=
  [.lookup 0 (ascii "f(7) - u(2)"), .advance 0, .advance 0, .advance 0,
    .lookup 1 (ascii "u(1) & f(7)"), .advance 1,
    .change (friendsOfSeven [1, 2, 4]) [(.friend, 7)], .reload 0,
    .advance 1, .advance 1, .lookup 0 (ascii "f(7)-u(2)"), .advance 0, .advance 0, .advance 0]

/-- The run as far as the notice, and to its end. -/
def friendsChangeAfter (n : ℕ) : System :=
  runOps (System.step (fun _ => none) 20) (System.new (friendsOfSeven [1, 2, 3]) 2) (friendsChange.take n)

/-- The run meets the condition. -/
theorem friendsChange_sound : StepsMeet (System.step (fun _ => none) 20) (Sound fun _ => none)
    (System.new (friendsOfSeven [1, 2, 3]) 2) friendsChange := by
  have hchange : ∀ f : Factor, f.ids (friendsOfSeven [1, 2, 4]) (fun _ => none) ≠
      f.ids (friendsOfSeven [1, 2, 3]) (fun _ => none) → f = ⟨.friend, 7⟩ := by
    intro f hne
    by_contra hf
    exact hne (ids_friendsOfSeven hf _ _)
  have hthreads : (friendsChangeAfter 7).threads =
      [.idle, .calculating (ascii "u(1)&f(7)") [⟨.user, 1⟩, ⟨.friend, 7⟩] [.and] 1 {1}] := by
    rfl
  refine ⟨trivial, trivial, trivial, trivial, trivial, trivial, ⟨filters_friendsOfSeven _, ?_⟩, ?_, trivial,
    trivial, trivial, trivial, trivial, trivial, trivial⟩
  · intro f hne
    exact .inr ⟨_, List.mem_singleton_self _, (hchange f hne).symm⟩
  · intro type id hi expr factors ops fit result hmem
    have hmem' : Phase.calculating expr factors ops fit result ∈ (friendsChangeAfter 7).threads := hmem
    have hi' : [(LoadType.friend, (7 : ℤ))][0]? = some (type, id) := hi
    rw [hthreads] at hmem'
    cases hi'
    simp only [List.mem_cons, List.not_mem_nil, or_false, reduceCtorEq, false_or,
      Phase.calculating.injEq] at hmem'
    obtain ⟨-, rfl, rfl, rfl, rfl⟩ := hmem'
    decide

/-- The ids that are kept go with the notice, and what is found at the end is what is there now. -/
theorem found_current_friendsChange :
    ((friendsChangeAfter 7).cache.lookup (ascii "f(7)-u(2)")).2 = some {1, 3} ∧
      ((friendsChangeAfter 8).cache.lookup (ascii "f(7)-u(2)")).2 = none ∧
      ((friendsChangeAfter 14).cache.lookup (ascii "u(1)&f(7)")).2 = some {1} ∧
      ∃ t, tokenize (ascii "f(7)-u(2)") 20 = some (.ok t) ∧
        (friendsChangeAfter 14).Current (fun _ => none) t.factors t.ops {1, 4} :=
  ⟨by decide +kernel, by decide +kernel, by decide +kernel,
    found_current (filters_friendsOfSeven _) friendsChange_sound (by decide +kernel)⟩

/-- A notice that comes too early: the friends have been taken, and are kept although there are none any more. -/
example :
    let s := runOps (System.step (fun _ => none) 20) (System.new (friendsOfSeven [1, 2, 3]) 1) [.lookup 0 (ascii "f(7)"),
      .advance 0, .change (fun _ _ _ => none) [(.friend, 7)], .reload 0, .advance 0]
    s.notices = [] ∧ (s.cache.lookup (ascii "f(7)")).2 = some {1, 2, 3} ∧
      calculateIds s.db (fun _ => none) [⟨.friend, 7⟩] [] = some ∅ := by
  decide +kernel

end System

end Oce.FeedDispatcher
