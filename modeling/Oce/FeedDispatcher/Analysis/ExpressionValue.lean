import Oce.FeedDispatcher.Analysis.Tokenize

/-!
# The users of an expression

An expression as it is meant is a factor and further factors with an operator before each. Its users are
found by union, difference and intersection from the left, if a statement that asks for some of the ids
has the rows of these ids (`Filters`). What is written for an expression is read as the expression, and
`CalculateIds` finds its users (`calculateIds_print`).
-/

set_option autoImplicit false

namespace Oce.FeedDispatcher

open Oce.Base

/-- A factor, and the others with their operators. -/
structure Expression where
  first : Factor
  rest : List (Op × Factor)

namespace Op

/-- What an operator is for. -/
def combine (op : Op) (r ids : Finset ℤ) : Finset ℤ :=
  match op with
  | plus => r ∪ ids
  | minus => r \ ids
  | and => r ∩ ids

theorem combine_empty {op : Op} (h : op ≠ plus) (ids : Finset ℤ) : op.combine ∅ ids = ∅ := by
  cases op with
  | plus => exact absurd rfl h
  | minus => exact Finset.empty_sdiff ids
  | and => exact Finset.empty_inter ids

end Op

section Values

variable (db : Database) (props : Properties)

/-- The users of a factor. -/
def Factor.ids (f : Factor) : Finset ℤ :=
  match f.query props with
  | none => {f.paramId}
  | some q => ((db q.database q.table q.head).getD []).toFinset

/-- The query runner is told the table that is selected from. -/
def Query.NamesTable (q : Query) : Prop :=
  ∃ condition, q.head = ascii "SELECT " ++ q.column ++ ascii " FROM " ++ (q.table ++ 32 :: condition)

theorem Query.namesTable_select (database table : List Byte) (column : String) {condition : String}
    (h : (ascii condition).head? = some 32) (id : ℤ) (rest : String) :
    (Query.select database table column condition id rest).NamesTable := by
  obtain ⟨tail, htail⟩ := List.head?_eq_some_iff.mp h
  refine ⟨tail ++ (intDigits id ++ ascii rest), ?_⟩
  simp [Query.select, htail]

/-- The statement of a `CheWen` goes to a table without a number, and selects from one with it. -/
theorem CheWenFactor.not_namesTable (id : ℤ) : ¬(CheWenFactor.generateSQL id).NamesTable := by
  rintro ⟨condition, h⟩
  have hcut : intDigits (id.tmod 10) ++ (ascii " WHERE map_renren_id=" ++ intDigits id) = 32 :: condition := by
    have hhead : ascii "SELECT renren_id FROM " ++ (ascii "cw_followed_" ++
        (intDigits (id.tmod 10) ++ (ascii " WHERE map_renren_id=" ++ intDigits id))) =
          ascii "SELECT renren_id FROM " ++ (ascii "cw_followed_" ++ 32 :: condition) := by
      simpa [CheWenFactor.generateSQL, ascii] using h
    exact List.append_cancel_left (List.append_cancel_left hhead)
  obtain ⟨c, digits, hdigits⟩ := List.exists_cons_of_ne_nil (intDigits_ne_nil (id.tmod 10))
  have hspace : (32 : Byte) ∉ intDigits (id.tmod 10) := not_mem_intDigits rfl (by decide) _
  rw [hdigits] at hcut hspace
  exact hspace (List.mem_cons.mpr (.inl (List.head_eq_of_cons_eq hcut).symm))

/-- **A `CheWen` is the only factor whose statement goes to another table than it selects from.** -/
theorem Factor.namesTable_iff {f : Factor} {q : Query} (hq : f.query props = some q) :
    q.NamesTable ↔ f.type ≠ .cheWen := by
  obtain ⟨type, id⟩ := f
  cases type with
  | user => cases hq
  | cheWen =>
      obtain rfl : CheWenFactor.generateSQL id = q := Option.some.inj hq
      exact iff_of_false (CheWenFactor.not_namesTable id) fun hne => hne rfl
  | _ =>
      obtain rfl := Option.some.inj hq
      exact iff_of_true (Query.namesTable_select _ _ _ (by decide) _ _) nofun

/-- Of the rows of a factor the database gives those that are asked for. -/
def Filters (f : Factor) : Prop :=
  ∀ q, f.query props = some q → ∀ ids : Finset ℤ, ids ≠ ∅ →
    db q.database q.table (q.head ++ inClause q.column ids) =
      (db q.database q.table q.head).map (·.filter (· ∈ ids))

/-- What comes of factors with operators before them. -/
def combineAll (r : Finset ℤ) (rest : List (Op × Factor)) : Finset ℤ :=
  rest.foldl (fun r e => e.1.combine r (e.2.ids db props)) r

/-- The users of an expression. -/
def Expression.ids (e : Expression) : Finset ℤ := combineAll db props (e.first.ids db props) e.rest

end Values

variable {db : Database} {props : Properties} {f : Factor} {r : Finset ℤ}

/-! ## Factors -/

theorem foldl_insert (l : List ℤ) (r : Finset ℤ) : l.foldl (fun r id => insert id r) r = r ∪ l.toFinset := by
  induction l generalizing r with
  | nil => simp
  | cons id l ih =>
      rw [List.foldl_cons, ih, List.toFinset_cons, Finset.union_insert, Finset.insert_union]

theorem foldl_erase (l : List ℤ) (r : Finset ℤ) : l.foldl (fun r id => r.erase id) r = r \ l.toFinset := by
  induction l generalizing r with
  | nil => simp
  | cons id l ih =>
      rw [List.foldl_cons, ih, List.toFinset_cons]
      ext x
      simp only [Finset.mem_sdiff, Finset.mem_erase, Finset.mem_insert]
      tauto

theorem Factor.plus_eq (r : Finset ℤ) : f.plus db props r = r ∪ f.ids db props := by
  unfold Factor.plus Factor.ids
  cases f.query props with
  | none =>
      dsimp only
      rw [Finset.union_comm]
      rfl
  | some q => exact foldl_insert _ r

/-- The rows that are asked for. -/
theorem rows_inClause (hf : Filters db props f) {q : Query} (hq : f.query props = some q) (hr : r ≠ ∅) :
    ((db q.database q.table (q.head ++ inClause q.column r)).getD []).toFinset = r ∩ f.ids db props := by
  rw [hf q hq r hr, Factor.ids, hq]
  dsimp only
  cases db q.database q.table q.head with
  | none => simp
  | some rows =>
      ext x
      simp [and_comm]

theorem Factor.minus_eq (hf : Filters db props f) (hr : r ≠ ∅) :
    f.minus db props r = r \ f.ids db props := by
  unfold Factor.minus
  cases hq : f.query props with
  | none =>
      dsimp only
      rw [Factor.ids, hq, Finset.sdiff_singleton_eq_erase]
  | some q =>
      dsimp only
      rw [foldl_erase, rows_inClause hf hq hr, Finset.sdiff_inter_self_left]

/-- The filter of a factor is an intersection. -/
theorem Factor.and_eq (hf : Filters db props f) (hr : r ≠ ∅) :
    f.and db props r = r ∩ f.ids db props := by
  unfold Factor.and
  cases hq : f.query props with
  | none =>
      dsimp only
      rw [Factor.ids, hq]
      by_cases hmem : f.paramId ∈ r
      · rw [if_pos hmem, Finset.inter_singleton_of_mem hmem]
      · rw [if_neg hmem, Finset.inter_singleton_of_notMem hmem]
  | some q =>
      dsimp only
      rw [foldl_insert, rows_inClause hf hq hr, Finset.empty_union]

/-- **An operator with a factor.** -/
theorem Factor.apply_eq (hf : Filters db props f) (op : Op) (r : Finset ℤ) :
    f.apply db props op r = op.combine r (f.ids db props) := by
  unfold Factor.apply
  cases op with
  | plus => exact Factor.plus_eq r
  | minus =>
      dsimp only
      by_cases hr : r = ∅
      · rw [if_pos hr, hr, Op.combine_empty (by decide)]
      · rw [if_neg hr, Factor.minus_eq hf hr]
        rfl
  | and =>
      dsimp only
      by_cases hr : r = ∅
      · rw [if_pos hr, hr, Op.combine_empty (by decide)]
      · rw [if_neg hr, Factor.and_eq hf hr]
        rfl

/-! ## Factors and operators -/

/-- The loop combines the factors with their operators. -/
theorem calculateRest_eq {factors : List Factor} (hf : ∀ f ∈ factors, Filters db props f) (ops : List Op)
    (r : Finset ℤ) :
    calculateRest db props factors ops r =
      if factors.length ≤ ops.length then some (combineAll db props r (ops.zip factors)) else none := by
  induction factors generalizing ops r with
  | nil => simp [calculateRest, combineAll]
  | cons f factors ih =>
      cases ops with
      | nil => simp [calculateRest]
      | cons op ops =>
          have hrest := ih (fun g hg => hf g (List.mem_cons_of_mem _ hg)) ops (f.apply db props op r)
          rw [Factor.apply_eq (hf f List.mem_cons_self)] at hrest
          simpa [calculateRest, combineAll, Factor.apply_eq (hf f List.mem_cons_self)] using hrest

/-- **What is calculated**, from whatever the parser has found: the operators are taken in their order,
those that are left over are not looked at, and there must be enough of them. -/
theorem calculateIds_eq {factors : List Factor} (hf : ∀ f ∈ factors, Filters db props f) (ops : List Op) :
    calculateIds db props factors ops =
      match factors with
      | [] => none
      | f :: factors =>
        if factors.length ≤ ops.length then some (Expression.ids db props ⟨f, ops.zip factors⟩) else none := by
  cases factors with
  | nil => rfl
  | cons f factors =>
      have hrest := calculateRest_eq (fun g hg => hf g (List.mem_cons_of_mem _ hg)) ops (f.ids db props)
      simpa [calculateIds, Factor.plus_eq, Expression.ids] using hrest

/-! ## Expressions as they are written -/

/-- An expression as it is written. -/
def Expression.print (e : Expression) : List Byte :=
  e.first.print ++ e.rest.flatMap fun g => g.1.char :: g.2.print

def Expression.factors (e : Expression) : List Factor := e.first :: e.rest.map Prod.snd

theorem written_intDigits {n : ℤ} (hn : IsInt n) : Written [] (intDigits n) n where
  noOpen := List.not_mem_nil
  noClose := List.not_mem_nil
  closed := not_mem_intDigits (by decide) (by decide) n
  number := by simp [lexicalCastInt, readInt_intDigits, hn]

theorem Scans.print_append (hf : IsInt f.paramId) {s : List Byte} {factors : List Factor} {ops : List Op}
    (h : Scans s factors ops) : Scans (f.print ++ s) (f :: factors) ops := by
  have hscans := Scans.factor f.type (written_intDigits hf) h
  simpa [Factor.print] using hscans

theorem scans_rest {rest : List (Op × Factor)} (hrest : ∀ e ∈ rest, IsInt e.2.paramId) :
    Scans (rest.flatMap fun g => g.1.char :: g.2.print) (rest.map Prod.snd) (rest.map Prod.fst) := by
  induction rest with
  | nil => exact .nil
  | cons e rest ih =>
      have htail := ih fun e' he' => hrest e' (List.mem_cons_of_mem _ he')
      have hfactor := htail.print_append (hrest e List.mem_cons_self)
      simpa using Scans.op e.1 hfactor

/-- What is written for an expression is taken, with its factors and its operators. -/
theorem Expression.scans_print {e : Expression} (he : ∀ f ∈ e.factors, IsInt f.paramId) :
    Scans e.print e.factors (e.rest.map Prod.fst) := by
  apply Scans.print_append (he e.first List.mem_cons_self)
  exact scans_rest fun g hg => he g.2 (List.mem_cons_of_mem _ (List.mem_map_of_mem hg))

/-- **From the text to the users.** What is written for an expression is read as the expression, and what
is calculated then are its users. -/
theorem calculateIds_print {e : Expression} (he : ∀ f ∈ e.factors, IsInt f.paramId)
    (hf : ∀ f ∈ e.factors, Filters db props f) :
    ∃ t, Returns (tokenize e.print) (.ok t) ∧ t.factors = e.factors ∧ t.ops = e.rest.map Prod.fst ∧
      calculateIds db props t.factors t.ops = some (e.ids db props) := by
  refine ⟨⟨e.print.length, e.factors, e.rest.map Prod.fst⟩, ?_, rfl, rfl, ?_⟩
  · exact ((tokenize_spec e.print).1 _).mpr ⟨rfl, e.scans_print he⟩
  · have hcalc := calculateIds_eq hf (e.rest.map Prod.fst)
    have hzip : (e.rest.map Prod.fst).zip (e.rest.map Prod.snd) = e.rest := by
      rw [List.zip_map', List.map_id'']
      exact fun g => rfl
    simpa [Expression.factors, hzip] using hcalc

/-! ## A database -/

/-- The statement for the friends of 7. -/
def headOfSeven : List Byte := (FriendFactor.generateSQL (fun _ => none) 7).head

/-- What stands between the last parentheses of a statement, cut at the commas. -/
def askedFor (sql : List Byte) : List (List Byte) :=
  (sql.reverse.tail.takeWhile (· ≠ 40)).reverse.splitOn 44

/-- A database with the friends of one user. -/
def friendsOfSeven (rows : List ℤ) : Database := fun _ _ sql =>
  if headOfSeven <+: sql then
    if sql.getLast? = some 41 then some (rows.filter fun id => intDigits id ∈ askedFor sql) else some rows
  else some []

theorem not_mem_intercalate {b : Byte} {sep : List Byte} {l : List (List Byte)} (hsep : b ∉ sep)
    (hl : ∀ x ∈ l, b ∉ x) : b ∉ sep.intercalate l := by
  induction l with
  | nil => simp
  | cons x l ih =>
      have hx := hl x List.mem_cons_self
      cases l with
      | nil => simpa using hx
      | cons y l =>
          rw [List.intercalate_cons_cons, List.mem_append, List.mem_append]
          have htail := ih fun z hz => hl z (List.mem_cons_of_mem _ hz)
          rintro ((h | h) | h)
          exacts [hx h, hsep h, htail h]

/-- The ids of an `IN (...)` can be read off the statement. -/
theorem askedFor_inClause (head column : List Byte) {ids : Finset ℤ} (hids : ids ≠ ∅) :
    (head ++ inClause column ids).getLast? = some 41 ∧
      askedFor (head ++ inClause column ids) = (intSeq ids).map intDigits := by
  have hfree : ∀ b : Byte, isDigit b = false → b ≠ 45 → ∀ l ∈ (intSeq ids).map intDigits, b ∉ l := by
    intro b hdigit hminus l hl
    obtain ⟨n, -, rfl⟩ := List.mem_map.mp hl
    exact not_mem_intDigits hdigit hminus n
  have hne : (intSeq ids).map intDigits ≠ [] := by
    rw [ne_eq, List.map_eq_nil_iff, ← List.length_eq_zero_iff, length_intSeq, Finset.card_eq_zero]
    exact hids
  have hlist : (40 : Byte) ∉ (ascii ",").intercalate ((intSeq ids).map intDigits) :=
    not_mem_intercalate (by decide) (hfree 40 rfl (by decide))
  have hsql : head ++ inClause column ids = (head ++ ascii " AND " ++ column ++ ascii " IN ") ++
      40 :: (ascii ",").intercalate ((intSeq ids).map intDigits) ++ [41] := by
    simp [inClause, ascii, intSeq]
  rw [hsql]
  refine ⟨List.getLast?_concat, ?_⟩
  unfold askedFor
  rw [List.reverse_concat, List.tail_cons, List.reverse_append, List.reverse_cons, List.append_assoc,
    List.takeWhile_append_of_pos, List.singleton_append, List.takeWhile_cons_of_neg (by decide),
    List.append_nil, List.reverse_reverse, show ascii "," = [44] by decide,
    List.splitOn_intercalate _ (hfree 44 rfl (by decide)) hne]
  intro b hb
  have hb' := List.mem_reverse.mp hb
  simp only [decide_eq_true_eq]
  rintro rfl
  exact hlist hb'

/-- The words before a space are the same where one text begins like another. -/
theorem word_of_prefix {x y u v : List Byte} (hx : (32 : Byte) ∉ x) (hy : (32 : Byte) ∉ y)
    (h : x ++ 32 :: u <+: y ++ 32 :: v) : x = y ∧ u <+: v := by
  induction x generalizing y with
  | nil =>
      cases y with
      | nil => exact ⟨rfl, (List.cons_prefix_cons.mp h).2⟩
      | cons b y =>
          have hb := (List.cons_prefix_cons.mp h).1
          exact absurd (hb ▸ List.mem_cons_self) hy
  | cons a x ih =>
      cases y with
      | nil =>
          have ha := (List.cons_prefix_cons.mp h).1
          exact absurd (ha ▸ List.mem_cons_self) hx
      | cons b y =>
          obtain ⟨rfl, htail⟩ := List.cons_prefix_cons.mp h
          obtain ⟨rfl, huv⟩ := ih (fun hm => hx (List.mem_cons_of_mem _ hm))
            (fun hm => hy (List.mem_cons_of_mem _ hm)) htail
          exact ⟨rfl, huv⟩

/-- The statement for a user's friends, in its words. -/
theorem FriendFactor.head_append (id : ℤ) (rest : List Byte) :
    (FriendFactor.generateSQL (fun _ => none) id).head ++ rest =
      ascii "SELECT guest FROM " ++ ((ascii "relation_" ++ intDigits (id.tmod 100)) ++
        32 :: (ascii "WHERE" ++ 32 :: ((ascii "host=" ++ intDigits id) ++ 32 :: rest))) := by
  simp [FriendFactor.generateSQL, Query.select, Properties.get, ascii]

/-- Only the friends of 7 are asked for in a statement that begins like theirs. -/
theorem eq_of_beginsLikeSeven {f : Factor} {q : Query} (hq : f.query (fun _ => none) = some q)
    {rest : List Byte} (h : headOfSeven <+: q.head ++ rest) : f = ⟨.friend, 7⟩ := by
  obtain ⟨type, id⟩ := f
  have hguest : (q.head ++ rest)[7]? = some 103 := by
    obtain ⟨t, ht⟩ := h
    rw [← ht, List.getElem?_append_left (by decide)]
    decide
  cases type with
  | user => cases hq
  | friend =>
      obtain rfl : FriendFactor.generateSQL (fun _ => none) id = q := Option.some.inj hq
      have hspace : ∀ (word : List Byte) (n : ℤ), (32 : Byte) ∉ word → (32 : Byte) ∉ word ++ intDigits n := by
        intro word n hword
        rw [List.mem_append, not_or]
        exact ⟨hword, not_mem_intDigits rfl (by decide) n⟩
      unfold headOfSeven at h
      rw [← List.append_nil (FriendFactor.generateSQL (fun _ => none) 7).head, FriendFactor.head_append,
        FriendFactor.head_append, List.prefix_append_right_inj] at h
      obtain ⟨-, h⟩ := word_of_prefix (hspace _ _ (by decide)) (hspace _ _ (by decide)) h
      obtain ⟨-, h⟩ := word_of_prefix (by decide) (by decide) h
      obtain ⟨hhost, -⟩ := word_of_prefix (hspace _ _ (by decide)) (hspace _ _ (by decide)) h
      rw [intDigits_injective (List.append_cancel_left hhost)]
  | _ =>
      obtain rfl := Option.some.inj hq
      simp [AppFactor.generateSQL, AppFanFactor.generateSQL, PageFactor.generateSQL,
        HighSchoolFactor.generateSQL, FollowFactor.generateSQL, MiniGroupFactor.generateSQL,
        XiaoZuFactor.generateSQL, MiniSiteFactor.generateSQL, CheWenFactor.generateSQL, Query.select,
        ascii] at hguest

/-- The database gives the rows that are asked for, whichever the factor. -/
theorem filters_friendsOfSeven (rows : List ℤ) (f : Factor) :
    Filters (friendsOfSeven rows) (fun _ => none) f := by
  intro q hq ids hids
  unfold friendsOfSeven
  by_cases h : headOfSeven <+: q.head
  · have hf : f = ⟨.friend, 7⟩ := eq_of_beginsLikeSeven hq (List.append_nil q.head ▸ h)
    subst hf
    obtain rfl : FriendFactor.generateSQL (fun _ => none) 7 = q := Option.some.inj hq
    obtain ⟨hlast, hasked⟩ := askedFor_inClause (FriendFactor.generateSQL (fun _ => none) 7).head
      (FriendFactor.generateSQL (fun _ => none) 7).column hids
    have hend : (FriendFactor.generateSQL (fun _ => none) 7).head.getLast? ≠ some 41 := by decide
    rw [if_pos h, if_pos (h.trans (List.prefix_append _ _)), if_pos hlast, if_neg hend, hasked,
      Option.map_some]
    congr 2
    funext id
    simp [intDigits_injective.eq_iff, mem_intSeq]
  · have hnot : ¬headOfSeven <+: q.head ++ inClause q.column ids := by
      intro hin
      have hf := eq_of_beginsLikeSeven hq hin
      subst hf
      obtain rfl : FriendFactor.generateSQL (fun _ => none) 7 = q := Option.some.inj hq
      exact h (List.prefix_refl _)
    rw [if_neg h, if_neg hnot]
    rfl

/-- Other factors have no ids there. -/
theorem ids_friendsOfSeven {f : Factor} (hf : f ≠ ⟨.friend, 7⟩) (rows rows' : List ℤ) :
    f.ids (friendsOfSeven rows) (fun _ => none) = f.ids (friendsOfSeven rows') (fun _ => none) := by
  unfold Factor.ids
  cases hq : f.query fun _ => none with
  | none => rfl
  | some q =>
      have hnot : ¬headOfSeven <+: q.head := fun h =>
        hf (eq_of_beginsLikeSeven hq (List.append_nil q.head ▸ h))
      dsimp only
      unfold friendsOfSeven
      rw [if_neg hnot, if_neg hnot]

/-- The friends of 7 but for 2 and those who are no friends. -/
theorem calculateIds_print_friendsOfSeven :
    let e : Expression := ⟨⟨.friend, 7⟩, [(.minus, ⟨.user, 2⟩), (.plus, ⟨.user, 9⟩), (.and, ⟨.friend, 7⟩)]⟩
    let db := friendsOfSeven [1, 2, 3]
    e.ids db (fun _ => none) = {1, 3} ∧
      ∃ t, Returns (tokenize e.print) (.ok t) ∧ t.factors = e.factors ∧ t.ops = e.rest.map Prod.fst ∧
        calculateIds db (fun _ => none) t.factors t.ops = some (e.ids db (fun _ => none)) :=
  ⟨by decide +kernel, calculateIds_print (by decide) fun f _ => filters_friendsOfSeven [1, 2, 3] f⟩

end Oce.FeedDispatcher
