import Oce.MessageHolder.Model.Holder

/-!
# The counts of the offline messages

An entry of the map is an action on the count of its user: a positive one adds, a zero wipes out
(`act`). Whatever way the entries of a run are split into statements, the table is left with the
action of the entry of each user (`stored_finish`). So what is owed to a user is the action of the
entry that is counted in, on that of the entry that is under way, on what is stored (`CountInv`).

An increment makes a zero a one, which adds to the count that the zero would have wiped out.
-/

set_option autoImplicit false

namespace Oce.MessageHolder

open Oce.Base

/-! ## Entries as actions -/

namespace CountSql

def rows : CountSql → List (ℤ × ℤ)
  | add rows => rows
  | put rows => rows

/-- Positive rows are added, and zeros are put. -/
def Sound : CountSql → Prop
  | add rows => ∀ r ∈ rows, 0 < r.2
  | put rows => ∀ r ∈ rows, r.2 = 0

end CountSql

/-- What an entry makes of a count. -/
def act (n count : ℤ) : ℤ := if 0 < n then count + n else if n = 0 then 0 else count

/-- What the entry of a user makes of it, if there is one. -/
def actOn (entry : Option ℤ) (count : ℤ) : ℤ := entry.elim count fun n => act n count

/-- What the rows of a user make of it, one after the other. -/
def actAll (userId : ℤ) (rows : List (ℤ × ℤ)) (count : ℤ) : ℤ :=
  (rows.filter fun r => r.1 = userId).foldl (fun count r => act r.2 count) count

/-- The count that the table has for a user. -/
def stored (table : OrdMap ℤ ℤ) (userId : ℤ) : ℤ := (table.find userId).getD 0

variable {userId count : ℤ} {rows : List (ℤ × ℤ)}

theorem act_nonneg (n : ℤ) (hcount : 0 ≤ count) : 0 ≤ act n count := by
  unfold act
  split_ifs <;> omega

theorem actAll_cons (r : ℤ × ℤ) :
    actAll userId (r :: rows) count =
      if r.1 = userId then actAll userId rows (act r.2 count) else actAll userId rows count := by
  unfold actAll
  by_cases hr : r.1 = userId
  · rw [List.filter_cons_of_pos (by simpa using hr), if_pos hr, List.foldl_cons]
  · rw [List.filter_cons_of_neg (by simpa using hr), if_neg hr]

theorem actAll_append (rows rows' : List (ℤ × ℤ)) :
    actAll userId (rows ++ rows') count = actAll userId rows' (actAll userId rows count) := by
  unfold actAll
  rw [List.filter_append, List.foldl_append]

/-- The order of rows of different users is nothing. -/
theorem actAll_perm {rows' : List (ℤ × ℤ)} (h : rows.Perm rows')
    (hone : (rows'.filter fun r => r.1 = userId).length ≤ 1) :
    actAll userId rows count = actAll userId rows' count := by
  have hfilter := h.filter fun r => decide (r.1 = userId)
  have hsame : (rows.filter fun r => r.1 = userId) = rows'.filter fun r => r.1 = userId := by
    cases hrows : rows'.filter fun r => r.1 = userId with
    | nil => exact (hrows ▸ hfilter).eq_nil
    | cons r l =>
        rw [hrows] at hone hfilter
        obtain rfl : l = [] := List.length_eq_zero_iff.mp (by
          rw [List.length_cons] at hone
          omega)
        exact List.perm_singleton.mp hfilter
  unfold actAll
  rw [hsame]

/-- In a map a user has the entry it has. -/
theorem actAll_entries (m : OrdMap ℤ ℤ) :
    actAll userId m.entries count = actOn (m.find userId) count := by
  unfold actAll
  rw [m.filter_key]
  cases m.find userId <;> rfl

/-! ## Statements -/

theorem stored_insert (table : OrdMap ℤ ℤ) (i v : ℤ) :
    stored (table.insert i v) userId = if userId = i then v else stored table userId := by
  unfold stored
  rw [OrdMap.find_insert]
  split_ifs <;> rfl

/-- Rows that are written one after the other, each as the action it is. -/
theorem stored_rows {value : OrdMap ℤ ℤ → ℤ × ℤ → ℤ}
    (h : ∀ r ∈ rows, ∀ table, value table r = act r.2 (stored table r.1)) (table : OrdMap ℤ ℤ) :
    stored (rows.foldl (fun t r => t.insert r.1 (value t r)) table) userId =
      actAll userId rows (stored table userId) := by
  induction rows generalizing table with
  | nil => rfl
  | cons r rows ih =>
      rw [List.foldl_cons, ih (fun r' hr' => h r' (List.mem_cons_of_mem r hr')), stored_insert,
        actAll_cons]
      by_cases hu : r.1 = userId
      · rw [if_pos hu.symm, if_pos hu, h r List.mem_cons_self, hu]
      · rw [if_neg (Ne.symm hu), if_neg hu]

/-- **A statement is the actions of its rows.** -/
theorem stored_run {sql : CountSql} (h : sql.Sound) (table : OrdMap ℤ ℤ) :
    stored (sql.run table) userId = actAll userId sql.rows (stored table userId) := by
  cases sql with
  | add rows =>
      refine stored_rows (fun r hr table => ?_) table
      have hpos : 0 < r.2 := h r hr
      rw [act, if_pos hpos]
      rfl
  | put rows =>
      refine stored_rows (fun r hr table => ?_) table
      have hzero : r.2 = 0 := h r hr
      rw [act, hzero, if_neg (lt_irrefl 0), if_pos rfl]

theorem stored_foldl {l : List CountSql} (h : ∀ sql ∈ l, sql.Sound) (table : OrdMap ℤ ℤ) :
    stored (l.foldl CountSql.run table) userId =
      actAll userId (l.flatMap CountSql.rows) (stored table userId) := by
  induction l generalizing table with
  | nil => rfl
  | cons sql l ih =>
      rw [List.foldl_cons, ih (fun sql' hsql => h sql' (List.mem_cons_of_mem sql hsql)),
        stored_run (h sql List.mem_cons_self), List.flatMap_cons, actAll_append]

/-! ## The loop over the map -/

/-- A statement with one row more, wherever it is then. -/
theorem Batch.rows_push (sql : List (ℤ × ℤ) → CountSql) (hsql : ∀ rows, (sql rows).rows = rows)
    (l : List CountSql) (b : Batch) (r : ℤ × ℤ) :
    ((if (b.push r).full then l ++ [sql (b.push r).rows] else l) ++
        (if (b.push r).full then { b.push r with count := 0 } else b.push r).rest sql).flatMap
          CountSql.rows =
      (l ++ b.rest sql).flatMap CountSql.rows ++ [r] := by
  have hpush : (b.push r).rows = (b.rest sql).flatMap CountSql.rows ++ [r] := by
    unfold Batch.push Batch.rest
    dsimp only
    split_ifs <;> simp [hsql]
  split_ifs with hfull
  · rw [Batch.rest, if_pos rfl, List.append_nil, List.flatMap_append, List.flatMap_append,
      List.append_assoc, ← hpush]
    simp [hsql]
  · have hcount : (b.push r).count ≠ 0 := Nat.succ_ne_zero b.count
    rw [Batch.rest, if_neg hcount, List.flatMap_append, List.flatMap_append, List.append_assoc,
      ← hpush]
    simp [hsql]

/-- A row more in a batch, which is sent when it is full. -/
theorem Batch.sound_push (sql : List (ℤ × ℤ) → CountSql) (P : ℤ → Prop)
    (hsql : ∀ rows, (sql rows).Sound ↔ ∀ r ∈ rows, P r.2) {l : List CountSql} {b : Batch}
    {r : ℤ × ℤ} (hl : ∀ s ∈ l, s.Sound) (hb : ∀ s ∈ b.rest sql, s.Sound) (hr : P r.2) :
    (∀ s ∈ if (b.push r).full then l ++ [sql (b.push r).rows] else l, s.Sound) ∧
      ∀ s ∈ (if (b.push r).full then { b.push r with count := 0 } else b.push r).rest sql,
        s.Sound := by
  have hpush : (sql (b.push r).rows).Sound := by
    rw [hsql]
    intro r' hr'
    unfold Batch.push at hr'
    unfold Batch.rest at hb
    dsimp only at hr'
    split_ifs at hr' hb with hcount
    · rwa [List.mem_singleton.mp hr']
    · rcases List.mem_append.mp hr' with hr' | hr'
      · exact (hsql b.rows).mp (hb _ List.mem_cons_self) r' hr'
      · rwa [List.mem_singleton.mp hr']
  split_ifs with hfull
  · refine ⟨fun s hs => ?_, fun s hs => by cases hs⟩
    rcases List.mem_append.mp hs with hs | hs
    · exact hl s hs
    · rwa [List.mem_singleton.mp hs]
  · refine ⟨hl, fun s hs => ?_⟩
    have hcount : (b.push r).count ≠ 0 := Nat.succ_ne_zero b.count
    rw [Batch.rest, if_neg hcount, List.mem_singleton] at hs
    rwa [hs]

namespace Flush

variable {f : Flush} {r : ℤ × ℤ}

theorem perm_swap (l l₁ l₂ : List (ℤ × ℤ)) : (l ++ l₁ ++ l₂).Perm (l ++ l₂ ++ l₁) := by
  rw [List.append_assoc, List.append_assoc]
  exact List.perm_append_comm.append_left l

/-- A round adds its row to what is sent. -/
theorem rows_round (hr : 0 ≤ r.2) :
    ((f.round r).finish.flatMap CountSql.rows).Perm (f.finish.flatMap CountSql.rows ++ [r]) := by
  have hfinish : ∀ f : Flush, f.finish.flatMap CountSql.rows =
      f.scheduled.flatMap CountSql.rows ++ (f.sql1.rest .add).flatMap CountSql.rows ++
        (f.sql2.rest .put).flatMap CountSql.rows := fun f => by
    rw [Flush.finish, List.flatMap_append, List.flatMap_append]
  unfold Flush.round
  split_ifs with hpos hzero
  · have hpush := Batch.rows_push .add (fun _ => rfl) f.scheduled f.sql1 r
    rw [List.flatMap_append, List.flatMap_append] at hpush
    rw [hfinish (f.add r), hfinish f]
    unfold Flush.add
    dsimp only
    rw [hpush]
    exact perm_swap _ _ _
  · have hpush := Batch.rows_push .put (fun _ => rfl) f.scheduled f.sql2 r
    rw [List.flatMap_append, List.flatMap_append] at hpush
    rw [hfinish (f.put r), hfinish f]
    unfold Flush.put
    dsimp only
    refine (perm_swap _ _ _).trans ?_
    rw [hpush, List.append_assoc _ _ [r]]
    refine (perm_swap _ _ _).trans ?_
    rw [← List.append_assoc]
  · omega

/-- A round sends sound statements. -/
theorem sound_round (h : ∀ sql ∈ f.finish, sql.Sound) : ∀ sql ∈ (f.round r).finish, sql.Sound := by
  have hscheduled : ∀ sql ∈ f.scheduled, sql.Sound := fun sql hsql =>
    h sql (List.mem_append_left _ (List.mem_append_left _ hsql))
  have hsql1 : ∀ sql ∈ f.sql1.rest .add, sql.Sound := fun sql hsql =>
    h sql (List.mem_append_left _ (List.mem_append_right _ hsql))
  have hsql2 : ∀ sql ∈ f.sql2.rest .put, sql.Sound := fun sql hsql =>
    h sql (List.mem_append_right _ hsql)
  unfold Flush.round
  split_ifs with hpos hzero
  · obtain ⟨hleft, hright⟩ := Batch.sound_push .add (fun n => 0 < n) (fun _ => Iff.rfl)
      hscheduled hsql1 hpos
    intro sql hsql
    rcases List.mem_append.mp hsql with hsql | hsql
    · exact (List.mem_append.mp hsql).elim (hleft sql) (hright sql)
    · exact hsql2 sql hsql
  · obtain ⟨hleft, hright⟩ := Batch.sound_push .put (fun n => n = 0) (fun _ => Iff.rfl)
      hscheduled hsql2 hzero
    intro sql hsql
    rcases List.mem_append.mp hsql with hsql | hsql
    · exact (List.mem_append.mp hsql).elim (hleft sql) (hsql1 sql)
    · exact hright sql hsql
  · exact h

/-- A count that is changed where it is cached. -/
theorem find_cached {cache cache' : OrdMap ℤ ℤ} {i : ℤ} {g : ℤ → ℤ}
    (hnone : cache.find i = none → cache' = cache)
    (hsome : ∀ c, cache.find i = some c → cache' = cache.insert i (g c)) :
    cache'.find userId =
      if i = userId then (cache.find userId).map g else cache.find userId := by
  by_cases hu : i = userId
  · subst hu
    cases hfind : cache.find i with
    | none => simp [hnone hfind, hfind]
    | some c => simp [hsome c hfind]
  · cases hfind : cache.find i with
    | none => simp [hnone hfind, hu]
    | some c => simp [hsome c hfind, hu, OrdMap.find_insert_ne _ _ (Ne.symm hu)]

theorem cache_round (hr : 0 ≤ r.2) :
    (f.round r).cache.find userId =
      if r.1 = userId then (f.cache.find userId).map fun c => asInt (act r.2 c)
      else f.cache.find userId := by
  have hinc : (incCached f.cache r.1 r.2).find userId =
      if r.1 = userId then (f.cache.find userId).map fun c => asInt (c + r.2)
      else f.cache.find userId :=
    find_cached (fun h => by rw [incCached, h]) fun c h => by rw [incCached, h]
  have hclean : (cleanCached f.cache r.1).find userId =
      if r.1 = userId then (f.cache.find userId).map fun _ => 0 else f.cache.find userId :=
    find_cached (fun h => by rw [cleanCached, h]) fun c h => by rw [cleanCached, h]
  unfold Flush.round
  split_ifs with hpos hu hzero hu hu
  · rw [Flush.add, hinc, if_pos hu]
    simp [act, hpos]
  · rw [Flush.add, hinc, if_neg hu]
  · rw [Flush.put, hclean, if_pos hu]
    have hwiped : asInt 0 = 0 := rfl
    simp [act, hzero, hwiped]
  · rw [Flush.put, hclean, if_neg hu]
  · omega
  · rfl

/-- **The loop**: its statements have the entries for rows, in some order. -/
theorem loop (l : List (ℤ × ℤ)) (hl : ∀ r ∈ l, 0 ≤ r.2) (hf : ∀ sql ∈ f.finish, sql.Sound) :
    ((l.foldl Flush.round f).finish.flatMap CountSql.rows).Perm
        (f.finish.flatMap CountSql.rows ++ l) ∧
      (∀ sql ∈ (l.foldl Flush.round f).finish, sql.Sound) ∧
      ∀ userId, (l.foldl Flush.round f).cache.find userId = (f.cache.find userId).map fun c =>
        (l.filter fun r => r.1 = userId).foldl (fun c r => asInt (act r.2 c)) c := by
  induction l generalizing f with
  | nil => exact ⟨by simp, hf, fun userId => by simp⟩
  | cons r l ih =>
      have hr := hl r List.mem_cons_self
      obtain ⟨hrows, hsound, hcache⟩ := ih (fun r' hr' => hl r' (List.mem_cons_of_mem r hr'))
        (sound_round hf)
      refine ⟨?_, hsound, fun userId => ?_⟩
      · rw [List.foldl_cons]
        refine hrows.trans (((rows_round hr).append_right l).trans ?_)
        rw [List.append_assoc]
        rfl
      · rw [List.foldl_cons, hcache, cache_round hr]
        by_cases hu : r.1 = userId
        · rw [if_pos hu, List.filter_cons_of_pos (by simpa using hu), Option.map_map]
          rfl
        · rw [if_neg hu, List.filter_cons_of_neg (by simpa using hu)]

end Flush

/-- What a run does to the cached count of a user. -/
def cachedOn (entry : Option ℤ) (count : ℤ) : ℤ := entry.elim count fun n => asInt (act n count)

/-- **A run does what the entries of the map say**, however many statements it makes of them. -/
theorem stored_finish {m : OrdMap ℤ ℤ} (hm : ∀ userId n, m.find userId = some n → 0 ≤ n)
    (cache : OrdMap ℤ ℤ) :
    let f := m.entries.foldl Flush.round ⟨.new, .new, [], cache⟩
    (∀ sql ∈ f.finish, sql.Sound) ∧
      (∀ userId table, stored (f.finish.foldl CountSql.run table) userId =
        actOn (m.find userId) (stored table userId)) ∧
      ∀ userId, f.cache.find userId = (cache.find userId).map (cachedOn (m.find userId)) := by
  intro f
  have hnil : (⟨.new, .new, [], cache⟩ : Flush).finish = [] := rfl
  obtain ⟨hrows, hsound, hcache⟩ := Flush.loop (f := ⟨.new, .new, [], cache⟩) m.entries
    (fun r hr => hm r.1 r.2 (m.mem_entries_iff.mp hr)) (fun sql hsql => by
      rw [hnil] at hsql
      cases hsql)
  rw [hnil, List.flatMap_nil, List.nil_append] at hrows
  refine ⟨hsound, fun userId table => ?_, fun userId => ?_⟩
  · have hone : (m.entries.filter fun r => r.1 = userId).length ≤ 1 := by
      rw [m.filter_key]
      cases m.find userId <;> simp
    rw [stored_foldl hsound, actAll_perm hrows hone, actAll_entries]
  · rw [hcache]
    congr 1
    funext c
    rw [m.filter_key]
    cases m.find userId <;> rfl

/-! ## Runs -/

namespace OfflineCounts

/-- What the table has for a user once the statements that are scheduled have run. -/
def settled (s : OfflineCounts) (userId : ℤ) : ℤ :=
  stored (s.scheduled.foldl CountSql.run s.table) userId

/-- And once the run that is under way has gone through its map. -/
def due (s : OfflineCounts) (userId : ℤ) : ℤ := actOn (s.countMap.find userId) (s.settled userId)

/-- Nothing is pending. -/
def Idle (s : OfflineCounts) : Prop :=
  s.offlineMsgCount.entries = [] ∧ s.countMap.entries = [] ∧ s.scheduled = []

/-- The table has for every user what is owed, and so has the cache where it has the user. -/
def Counted (s : OfflineCounts) : Prop :=
  ∀ userId, stored s.table userId = s.owed userId ∧
    ∀ count, s.cache.find userId = some count → count = s.owed userId

end OfflineCounts

/-- No increment comes behind a clean that is still in the map and has a count to wipe out, and
none makes more than an `int` of what is owed. -/
def CountOp.Kept (s : OfflineCounts) : CountOp → Prop
  | inc userId => (s.offlineMsgCount.find userId = some 0 → s.due userId = 0) ∧
      s.owed userId + 1 < 2 ^ 31
  | _ => True

/-- What is owed to a user is what its entry makes of what is due; the cache has what is settled. -/
structure CountInv (s : OfflineCounts) : Prop where
  owed : ∀ userId, s.owed userId = actOn (s.offlineMsgCount.find userId) (s.due userId)
  cached : ∀ userId count, s.cache.find userId = some count → count = s.settled userId
  counting : ∀ userId n, s.offlineMsgCount.find userId = some n → 0 ≤ n
  taken : ∀ userId n, s.countMap.find userId = some n → 0 ≤ n
  settled_nonneg : ∀ userId, 0 ≤ s.settled userId
  due_lt : ∀ userId, s.due userId < 2 ^ 31
  owed_lt : ∀ userId, s.owed userId < 2 ^ 31

variable {s : OfflineCounts}

theorem CountInv.due_nonneg (h : CountInv s) (userId : ℤ) : 0 ≤ s.due userId := by
  unfold OfflineCounts.due
  cases hfind : s.countMap.find userId with
  | none => exact h.settled_nonneg userId
  | some n => exact act_nonneg n (h.settled_nonneg userId)

/-- The entry after an increment. -/
theorem CountInv.act_inc (h : CountInv s) {userId : ℤ} (hkept : (CountOp.inc userId).Kept s) :
    ∃ n, (s.incOfflineMsgCount userId).offlineMsgCount = s.offlineMsgCount.insert userId n ∧ 0 < n ∧
      act n (s.due userId) = s.owed userId + 1 := by
  obtain ⟨hclean, hint⟩ := hkept
  have howed := h.owed userId
  have hdue := h.due_nonneg userId
  unfold OfflineCounts.incOfflineMsgCount
  dsimp only
  cases hfind : s.offlineMsgCount.find userId with
  | none =>
      rw [hfind] at howed
      refine ⟨1, rfl, by omega, ?_⟩
      rw [act, if_pos (by omega), howed]
      rfl
  | some n =>
      have hn := h.counting userId n hfind
      rw [hfind] at howed hclean
      have hact : s.owed userId = act n (s.due userId) := howed
      rcases hn.lt_or_eq with hpos | rfl
      · -- what is counted in is no more than what is owed
        rw [act, if_pos hpos] at hact
        have hnext : asInt (n + 1) = n + 1 := asInt_of_isInt ⟨by omega, by omega⟩
        refine ⟨n + 1, congrArg (s.offlineMsgCount.insert userId) hnext, by omega, ?_⟩
        rw [act, if_pos (by omega), hact]
        omega
      · rw [act, if_neg (by omega), if_pos rfl] at hact
        refine ⟨1, rfl, by omega, ?_⟩
        rw [act, if_pos (by omega), hclean rfl, hact]

theorem CountInv.inc (h : CountInv s) {userId : ℤ} (hkept : (CountOp.inc userId).Kept s) :
    CountInv (s.incOfflineMsgCount userId) := by
  obtain ⟨n, hentry, hpos, hact⟩ := h.act_inc hkept
  have hdue : ∀ i, (s.incOfflineMsgCount userId).due i = s.due i := fun i => rfl
  have howed : ∀ i, (s.incOfflineMsgCount userId).owed i =
      if i = userId then s.owed userId + 1 else s.owed i := fun i =>
    Function.update_apply s.owed userId (s.owed userId + 1) i
  refine ⟨fun i => ?_, h.cached, fun i m hi => ?_, h.taken, h.settled_nonneg, h.due_lt, fun i => ?_⟩
  · rw [howed, hdue, hentry, OrdMap.find_insert]
    split_ifs with hi
    · rw [hi]
      exact hact.symm
    · exact h.owed i
  · rw [hentry, OrdMap.find_insert] at hi
    split_ifs at hi
    · rw [← Option.some.inj hi]
      exact hpos.le
    · exact h.counting i m hi
  · rw [howed]
    split_ifs
    · exact hkept.2
    · exact h.owed_lt i

theorem CountInv.clean (h : CountInv s) (userId : ℤ) : CountInv (s.cleanOfflineMsgCount userId) := by
  have hentry : (s.cleanOfflineMsgCount userId).offlineMsgCount =
      s.offlineMsgCount.insert userId 0 := rfl
  have hdue : ∀ i, (s.cleanOfflineMsgCount userId).due i = s.due i := fun i => rfl
  have howed : ∀ i, (s.cleanOfflineMsgCount userId).owed i = if i = userId then 0 else s.owed i :=
    fun i => Function.update_apply s.owed userId 0 i
  refine ⟨fun i => ?_, h.cached, fun i m hi => ?_, h.taken, h.settled_nonneg, h.due_lt, fun i => ?_⟩
  · rw [howed, hdue, hentry, OrdMap.find_insert]
    split_ifs with hi
    · rfl
    · exact h.owed i
  · rw [hentry, OrdMap.find_insert] at hi
    split_ifs at hi
    · rw [← Option.some.inj hi]
    · exact h.counting i m hi
  · rw [howed]
    split_ifs
    · decide
    · exact h.owed_lt i

/-- A run takes over what is owed. -/
theorem CountInv.pop (h : CountInv s) : CountInv s.popOfflineMsgCountMap := by
  unfold OfflineCounts.popOfflineMsgCountMap
  split_ifs with hempty
  · have hdue : ∀ userId, s.due userId = s.settled userId := fun userId => by
      rw [OfflineCounts.due, OrdMap.find_eq_none_of_nil hempty]
      rfl
    have howed : ∀ userId, s.owed userId =
        actOn (s.offlineMsgCount.find userId) (s.settled userId) := fun userId => by
      rw [h.owed, hdue]
    exact ⟨howed, h.cached, fun _ _ hfind => (by cases hfind), h.counting, h.settled_nonneg,
      fun userId => (howed userId).symm.trans_lt (h.owed_lt userId), h.owed_lt⟩
  · exact h

/-- **A run settles what is due.** -/
theorem CountInv.process (h : CountInv s) : CountInv s.processOfflineMsgCount := by
  obtain ⟨-, hstored, hcache⟩ := stored_finish h.taken s.cache
  have hsettled : ∀ userId, s.processOfflineMsgCount.settled userId = s.due userId :=
    fun userId => by
      unfold OfflineCounts.settled OfflineCounts.processOfflineMsgCount
      dsimp only
      rw [List.foldl_append]
      exact hstored userId _
  have hdue : ∀ userId, s.processOfflineMsgCount.due userId = s.due userId := hsettled
  refine ⟨fun userId => ?_, fun userId count hfind => ?_, h.counting,
    fun _ _ hfind => (by cases hfind), fun userId => ?_, fun userId => ?_, h.owed_lt⟩
  · rw [hdue]
    exact h.owed userId
  · obtain ⟨c, hc, rfl⟩ := Option.map_eq_some_iff.mp ((hcache userId).symm.trans hfind)
    have hint : asInt (s.due userId) = s.due userId :=
      asInt_of_isInt ⟨by have := h.due_nonneg userId; omega, h.due_lt userId⟩
    rw [hsettled, h.cached userId c hc]
    unfold OfflineCounts.due at hint ⊢
    cases hentry : s.countMap.find userId with
    | none => rfl
    | some n =>
        rw [hentry] at hint
        exact hint
  · rw [hsettled]
    exact h.due_nonneg userId
  · rw [hdue]
    exact h.due_lt userId

/-- A statement runs. -/
theorem CountInv.runSql (h : CountInv s) : CountInv s.runSql := by
  unfold OfflineCounts.runSql
  cases hscheduled : s.scheduled with
  | nil => exact h
  | cons sql rest =>
      have hsettled : ∀ userId, OfflineCounts.settled
          { s with scheduled := rest, table := sql.run s.table } userId = s.settled userId :=
        fun userId => by
          unfold OfflineCounts.settled
          rw [hscheduled, List.foldl_cons]
      have hdue : ∀ userId, OfflineCounts.due
          { s with scheduled := rest, table := sql.run s.table } userId = s.due userId :=
        fun userId => by
          unfold OfflineCounts.due
          rw [hsettled]
      refine ⟨fun userId => ?_, fun userId count hfind => ?_, h.counting, h.taken, fun userId => ?_,
        fun userId => ?_, h.owed_lt⟩
      · rw [hdue]
        exact h.owed userId
      · rw [hsettled]
        exact h.cached userId count hfind
      · rw [hsettled]
        exact h.settled_nonneg userId
      · rw [hdue]
        exact h.due_lt userId

/-- When all statements have run, the table has what was settled. -/
theorem runSql_all (s : OfflineCounts) :
    runOps CountOp.step s (List.replicate s.scheduled.length .runSql) =
      { s with scheduled := [], table := s.scheduled.foldl CountSql.run s.table } := by
  obtain ⟨offlineMsgCount, countMap, scheduled, table, cache, owed⟩ := s
  induction scheduled generalizing table with
  | nil => rfl
  | cons sql rest ih => exact ih (sql.run table)

/-- **A clean that is lost.** If an increment comes behind a clean in the map that has a count to
wipe out, the next run leaves the table with what is not owed. -/
theorem clean_lost (h : CountInv s) {userId : ℤ}
    (hclean : s.offlineMsgCount.find userId = some 0) (hdue : s.due userId ≠ 0)
    (hrun : s.countMap.entries = []) :
    let t := runOps CountOp.step s [.inc userId, .pop, .process]
    let t' := runOps CountOp.step t (List.replicate t.scheduled.length .runSql)
    t'.Idle ∧ ¬ t'.Counted := by
  intro t t'
  have hentry : (s.incOfflineMsgCount userId).offlineMsgCount =
      s.offlineMsgCount.insert userId 1 := by
    unfold OfflineCounts.incOfflineMsgCount
    dsimp only
    rw [hclean]
    rfl
  have ht : t = (s.incOfflineMsgCount userId).popOfflineMsgCountMap.processOfflineMsgCount := rfl
  have hpop : (s.incOfflineMsgCount userId).popOfflineMsgCountMap =
      { s.incOfflineMsgCount userId with
        countMap := s.offlineMsgCount.insert userId 1, offlineMsgCount := .empty } := by
    have hsame : (s.incOfflineMsgCount userId).countMap.entries = [] := hrun
    unfold OfflineCounts.popOfflineMsgCountMap
    rw [if_pos hsame, hentry]
  rw [hpop] at ht
  have ht' : t' = { t with scheduled := [], table := t.scheduled.foldl CountSql.run t.table } :=
    runSql_all t
  refine ⟨?_, fun hcounted => ?_⟩
  · rw [ht', ht]
    exact ⟨rfl, rfl, rfl⟩
  · have hnonneg : ∀ i n, (s.offlineMsgCount.insert userId 1).find i = some n → 0 ≤ n := by
      intro i n hi
      rw [OrdMap.find_insert] at hi
      split_ifs at hi
      · rw [← Option.some.inj hi]
        decide
      · exact h.counting i n hi
    obtain ⟨-, hstored, -⟩ := stored_finish hnonneg s.cache
    have hsettled : stored t'.table userId = s.settled userId + 1 := by
      rw [ht', ht]
      unfold OfflineCounts.processOfflineMsgCount
      dsimp only
      rw [List.foldl_append]
      refine (hstored userId _).trans ?_
      rw [OrdMap.find_insert_self]
      rfl
    have howed : t'.owed userId = 1 := by
      have hzero := h.owed userId
      rw [hclean] at hzero
      have hone : t'.owed userId = s.owed userId + 1 := by
        rw [ht', ht]
        exact Function.update_self ..
      rw [hone, hzero]
      rfl
    have hwrong := (hcounted userId).1
    rw [hsettled, howed] at hwrong
    have hnone : s.due userId = s.settled userId := by
      rw [OfflineCounts.due, OrdMap.find_eq_none_of_nil hrun]
      rfl
    exact hdue (by omega)

theorem countInv_step (s : OfflineCounts) (a : CountOp) (h : CountInv s) (ha : a.Kept s) :
    CountInv (CountOp.step s a) := by
  cases a with
  | inc userId => exact h.inc ha
  | clean userId => exact h.clean userId
  | pop => exact h.pop
  | process => exact h.process
  | runSql => exact h.runSql

theorem settled_of_idle (h : s.Idle) (userId : ℤ) :
    s.settled userId = stored s.table userId ∧ s.due userId = stored s.table userId := by
  have hsettled : s.settled userId = stored s.table userId := by
    rw [OfflineCounts.settled, h.2.2]
    rfl
  refine ⟨hsettled, ?_⟩
  rw [OfflineCounts.due, OrdMap.find_eq_none_of_nil h.2.1, ← hsettled]
  rfl

theorem CountInv.counted (h : CountInv s) (hidle : s.Idle) : s.Counted := by
  intro userId
  obtain ⟨hsettled, hdue⟩ := settled_of_idle hidle userId
  have howed := h.owed userId
  rw [OrdMap.find_eq_none_of_nil hidle.1, hdue] at howed
  refine ⟨howed.symm, fun count hfind => ?_⟩
  rw [h.cached userId count hfind, hsettled]
  exact howed.symm

/-- A state with nothing pending and nothing wrong. -/
theorem countInv_of_counted (hidle : s.Idle) (hcounted : s.Counted)
    (hrange : ∀ userId, 0 ≤ s.owed userId ∧ s.owed userId < 2 ^ 31) : CountInv s := by
  have hsettled : ∀ userId, s.settled userId = s.owed userId := fun userId =>
    (settled_of_idle hidle userId).1.trans (hcounted userId).1
  have hdue : ∀ userId, s.due userId = s.owed userId := fun userId =>
    (settled_of_idle hidle userId).2.trans (hcounted userId).1
  refine ⟨fun userId => ?_, fun userId count hfind => ?_, fun userId n hfind => ?_,
    fun userId n hfind => ?_, fun userId => ?_, fun userId => ?_, fun userId => (hrange userId).2⟩
  · rw [OrdMap.find_eq_none_of_nil hidle.1, hdue]
    rfl
  · rw [hsettled]
    exact (hcounted userId).2 count hfind
  · rw [OrdMap.find_eq_none_of_nil hidle.1] at hfind
    cases hfind
  · rw [OrdMap.find_eq_none_of_nil hidle.2.1] at hfind
    cases hfind
  · rw [hsettled]
    exact (hrange userId).1
  · rw [hdue]
    exact (hrange userId).2

/-- **The counts of a run.** When nothing is pending, the table and the cache have what is owed, if
no increment came behind a clean in the map that had a count to wipe out. -/
theorem counts_exact {s₀ : OfflineCounts} (hidle : s₀.Idle) (hcounted : s₀.Counted)
    (hrange : ∀ userId, 0 ≤ s₀.owed userId ∧ s₀.owed userId < 2 ^ 31) {ops : List CountOp}
    (h : StepsMeet CountOp.step CountOp.Kept s₀ ops) (k : ℕ)
    (hk : (runOps CountOp.step s₀ (ops.take k)).Idle) :
    (runOps CountOp.step s₀ (ops.take k)).Counted :=
  (run_invariant_take countInv_step (countInv_of_counted hidle hcounted hrange) h k).counted hk

instance (s : OfflineCounts) : Decidable s.Idle := inferInstanceAs (Decidable (_ ∧ _ ∧ _))

instance (s : OfflineCounts) : ∀ a : CountOp, Decidable (a.Kept s)
  | .inc _ => inferInstanceAs (Decidable ((_ → _) ∧ _))
  | .clean _ | .pop | .process | .runSql => .isTrue trivial

/-- Three messages for user 7 are stored, and all users are cached. -/
def threeStored : OfflineCounts :=
  let table := OrdMap.empty.insert 7 3
  ⟨.empty, .empty, [], table, table, stored table⟩

/-- User 7 gets a message, looks while it is under way, and gets another in the next run. -/
def lookBetween : List CountOp :=
  [.inc 7, .pop, .clean 7, .process, .pop, .inc 7, .process, .runSql, .runSql, .pop, .process,
    .runSql]

theorem counts_exact_lookBetween :
    (runOps CountOp.step threeStored lookBetween).Idle ∧
      (runOps CountOp.step threeStored lookBetween).Counted := by
  have hcounted : threeStored.Counted := fun userId => ⟨rfl, fun count hfind => by
    have hstored : threeStored.owed userId = (threeStored.cache.find userId).getD 0 := rfl
    rw [hstored, hfind]
    rfl⟩
  have hrange : ∀ userId, 0 ≤ threeStored.owed userId ∧ threeStored.owed userId < 2 ^ 31 := by
    intro userId
    have howed : threeStored.owed userId = if userId = 7 then 3 else 0 := stored_insert _ _ _
    rw [howed]
    split_ifs <;> decide
  have hmeets : StepsMeet CountOp.step CountOp.Kept threeStored lookBetween := by decide
  have hidle : (runOps CountOp.step threeStored lookBetween).Idle := by decide
  exact ⟨hidle, counts_exact (by decide) hcounted hrange hmeets lookBetween.length hidle⟩

/-- User 7 has two stored messages, looks, and gets another before the next run: the clean is
lost, and the table has 3 where 1 is owed. -/
theorem counts_lag :
    ∃ ops : List CountOp, (runOps CountOp.step .new ops).Idle ∧
      ¬ (runOps CountOp.step .new ops).Counted := by
  refine ⟨[.inc 7, .inc 7, .pop, .process, .runSql, .clean 7, .inc 7, .pop, .process, .runSql],
    by decide, fun hcounted => ?_⟩
  have hwrong := (hcounted 7).1
  revert hwrong
  decide

end Oce.MessageHolder
