import Oce.Base.Run
import Oce.Buddy.Analysis.Relations
import Oce.Buddy.Model.Replicas

/-!
# The replicas of a user converge

`isMainCache` tests the context key the wrong way round, so the main copy checks its own
recorder and the replicas check nothing: a replica that gets its updates in another order
than the main copy never notices, and the main copy reloads all replicas at every second
update, whatever tasks are still on their way. A reload itself takes a call for each replica, twice,
and another update in between finds some copies removed and others loaded. `ShardOp.InOrder` excludes
all of it. Under it either no reload is under way and each replica is behind the main copy by exactly
the updates it has still to get, or one reload is and nothing else (`Shard.Behind`).
-/

set_option autoImplicit false

namespace Oce.Buddy

open Oce.Base BuddyStore

/-- The change that the task makes in the user's holder. -/
def UpdateRelationTask.edit (task : UpdateRelationTask) : BuddyRelation → BuddyRelation :=
  sideEdit task.relation task.remote task.biblock task.oper.state

/-- The reload has made all its calls. -/
def ReloadTask.Done : ReloadTask → Prop
  | remove _ => False
  | load _ seq => seq = []

instance (task : ReloadTask) : Decidable task.Done :=
  match task with
  | .remove _ => inferInstanceAs (Decidable False)
  | .load _ _ => inferInstanceAs (Decidable (_ = _))

namespace Shard

/-- All calls of all update tasks have been made. -/
def Delivered (s : Shard) : Prop := ∀ task ∈ s.tasks, task.seq = []

/-- No reload is under way. -/
def Reloaded (s : Shard) : Prop := ∀ task ∈ s.reloads, task.Done

instance (s : Shard) : Decidable s.Delivered :=
  inferInstanceAs (Decidable (∀ task ∈ s.tasks, task.seq = []))

instance (s : Shard) : Decidable s.Reloaded :=
  inferInstanceAs (Decidable (∀ task ∈ s.reloads, task.Done))

/-- Once everything is delivered, every replica has the lists of the main copy or has
answered `CHECKERROR`. -/
def Converged (s : Shard) : Prop :=
  s.Delivered → s.Reloaded → ∀ main ∈ s.copies[0]?, ∀ i : ℕ, ∀ cache ∈ s.copies[i]?,
    i ∈ s.answered ∨ (cache s.userId).map (·.hbr) = (main s.userId).map (·.hbr)

/-- The changes that replica `i` has still to get, in the order of the tasks. -/
def pending (i : ℕ) (tasks : List UpdateRelationTask) : List (BuddyRelation → BuddyRelation) :=
  (tasks.filter fun task => i ∈ task.seq).map UpdateRelationTask.edit

/-- The copies other than the given ones all have these lists. -/
def Loaded (s : Shard) (r : BuddyRelation) (seq : List ℕ) : Prop :=
  ∀ i : ℕ, ∀ cache ∈ s.copies[i]?, i ∉ seq → ∃ h ∈ cache s.userId, h.hbr = r

/-- Every copy comes to the same lists by the changes it has still to get. -/
def Awaits (s : Shard) : Prop := ∃ r, ∀ i : ℕ, ∀ cache ∈ s.copies[i]?, ∃ h ∈ cache s.userId,
  (pending i s.tasks).foldl (fun r edit => edit r) h.hbr = r

/-- The one reload that is under way, `k`, has loaded all copies but those it has still to load. -/
structure Reloading (s : Shard) (k : ℕ) : Prop where
  lt : k < s.reloads.length
  others : ∀ j task, s.reloads[j]? = some task → j ≠ k → task.Done
  loaded : ∀ obj seq, s.reloads[k]? = some (.load obj seq) → s.Loaded obj seq

/-- No reload is under way and the copies await the same; or one is, and no call of a task is left. The
main copy awaits nothing. -/
structure Behind (s : Shard) : Prop where
  nodup : ∀ task ∈ s.tasks, task.seq.Nodup ∧ 0 ∉ task.seq
  concerns : ∀ task ∈ s.tasks, sideId task.relation task.remote task.oper.state = s.userId
  phase : s.Reloaded ∧ s.Awaits ∨ s.Delivered ∧ ∃ k, s.Reloading k

end Shard

/-- The operation is about this user. -/
def ShardOp.Concerns (userId : ℤ) : ShardOp → Prop
  | update relation oper _ remote _ => sideId relation remote oper.state = userId
  | call _ _ | reload _ _ => True

/-- An update is made when no reload is under way, and one that will be answered by a reload when no
call is left; a replica gets the updates in the order in which they were made. -/
def ShardOp.InOrder (s : Shard) : ShardOp → Prop
  | update _ _ _ _ _ => s.Reloaded ∧ (s.Delivered ∨
      ∀ main ∈ s.copies[0]?, (main s.userId).any (·.checkStateRecorder .null) = true)
  | call k _ => ∀ task ∈ s.tasks[k]?, ∀ i ∈ task.seq.head?, ∀ j < k, ∀ earlier ∈ s.tasks[j]?,
      i ∉ earlier.seq
  | reload _ _ => True

instance (s : Shard) (op : ShardOp) : Decidable (op.InOrder s) :=
  match op with
  | .update _ _ _ _ _ => inferInstanceAs (Decidable (s.Reloaded ∧ (s.Delivered ∨
      ∀ main ∈ s.copies[0]?, (main s.userId).any (·.checkStateRecorder .null) = true)))
  | .call k _ => inferInstanceAs (Decidable (∀ task ∈ s.tasks[k]?, ∀ i ∈ task.seq.head?, ∀ j < k,
      ∀ earlier ∈ s.tasks[j]?, i ∉ earlier.seq))
  | .reload _ _ => inferInstanceAs (Decidable True)

namespace Shard

variable {s : Shard} {create : ℤ → BuddyRelation} {i k : ℕ}

/-- Copies that have the same lists, with nothing under way. -/
theorem Behind.ofLoaded {r : BuddyRelation} (htasks : s.tasks = []) (hreloads : s.reloads = [])
    (h : s.Loaded r []) : s.Behind := by
  refine ⟨?_, ?_, .inl ⟨?_, r, ?_⟩⟩
  · rw [htasks]
    exact fun _ ht => nomatch ht
  · rw [htasks]
    exact fun _ ht => nomatch ht
  · unfold Reloaded
    rw [hreloads]
    exact fun _ ht => nomatch ht
  · intro i cache hcache
    rw [htasks]
    exact h i cache hcache List.not_mem_nil

/-- Nothing is pending for a copy that no task has still to reach. -/
theorem pending_eq_nil {tasks : List UpdateRelationTask} (h : ∀ task ∈ tasks, i ∉ task.seq) :
    pending i tasks = [] := by
  unfold pending
  rw [List.map_eq_nil_iff, List.filter_eq_nil_iff]
  intro task htask
  simpa using h task htask

/-- Nothing is pending when everything is delivered. -/
theorem pending_of_delivered (h : s.Delivered) (i : ℕ) : pending i s.tasks = [] :=
  pending_eq_nil fun task htask => by rw [h task htask]; exact List.not_mem_nil

/-- When all is delivered, the copies agree. -/
theorem Awaits.converged (h : s.Awaits) (hdel : s.Delivered) {main cache : BuddyCache}
    (hmain : main ∈ s.copies[0]?) (hcache : cache ∈ s.copies[i]?) :
    (cache s.userId).map (·.hbr) = (main s.userId).map (·.hbr) := by
  obtain ⟨r, hcopies⟩ := h
  obtain ⟨h₀, hmem₀, heq₀⟩ := hcopies 0 main hmain
  obtain ⟨h', hmem', heq⟩ := hcopies i cache hcache
  rw [pending_of_delivered hdel] at heq₀ heq
  rw [Option.mem_def.mp hmem₀, Option.mem_def.mp hmem']
  exact congrArg some (heq.trans heq₀.symm)

/-- A reload that has made all its calls has loaded every copy. -/
theorem Reloading.awaits (h : s.Reloading k) (hdel : s.Delivered) (hdone : s.Reloaded) : s.Awaits := by
  have hk := h.lt
  have hget := List.getElem?_eq_getElem hk
  have hd := hdone _ (List.getElem_mem hk)
  cases htask : s.reloads[k] with
  | remove seq =>
      rw [htask] at hd
      exact hd.elim
  | load obj seq =>
      rw [htask] at hd hget
      have hseq : seq = [] := hd
      subst hseq
      refine ⟨obj, fun i cache hcache => ?_⟩
      obtain ⟨h', hmem, heq⟩ := h.loaded obj [] hget i cache hcache List.not_mem_nil
      exact ⟨h', hmem, by rw [pending_of_delivered hdel]; exact heq⟩

theorem Behind.awaits (h : s.Behind) (hdone : s.Reloaded) : s.Awaits := by
  rcases h.phase with ⟨-, hawaits⟩ | ⟨hdel, k, hreloading⟩
  · exact hawaits
  · exact hreloading.awaits hdel hdone

theorem Behind.converged (h : s.Behind) : s.Converged :=
  fun hdel hdone _ hmain _ _ hcache => .inr ((h.awaits hdone).converged hdel hmain hcache)

/-! ## Pending changes -/

/-- A replica that a call does not reach has the same changes to get. -/
theorem pending_set_of_ne {tasks : List UpdateRelationTask} {task task' : UpdateRelationTask}
    (hk : tasks[k]? = some task) (hedit : task'.edit = task.edit)
    (hseq : i ∈ task'.seq ↔ i ∈ task.seq) : pending i (tasks.set k task') = pending i tasks := by
  induction tasks generalizing k with
  | nil => rfl
  | cons head tasks ih =>
      unfold pending at ih ⊢
      cases k with
      | zero =>
          rw [List.getElem?_cons_zero, Option.some_inj] at hk
          subst hk
          rw [List.set_cons_zero, List.filter_cons, List.filter_cons]
          by_cases hmem : i ∈ head.seq
          · simp [hseq, hmem, hedit]
          · simp [hseq, hmem]
      | succ k =>
          rw [List.getElem?_cons_succ] at hk
          have hih := ih hk
          rw [List.set_cons_succ, List.filter_cons, List.filter_cons]
          split
          · rw [List.map_cons, List.map_cons, hih]
          · exact hih

/-- The change that is brought to a replica is the first one it has to get, if the call is
in order. -/
theorem pending_set_self {tasks : List UpdateRelationTask} {task task' : UpdateRelationTask}
    (hk : tasks[k]? = some task) (hi : i ∈ task.seq) (hi' : i ∉ task'.seq)
    (hfirst : ∀ j < k, ∀ earlier ∈ tasks[j]?, i ∉ earlier.seq) :
    pending i tasks = task.edit :: pending i (tasks.set k task') := by
  induction tasks generalizing k with
  | nil => cases hk
  | cons head tasks ih =>
      unfold pending at ih ⊢
      cases k with
      | zero =>
          rw [List.getElem?_cons_zero, Option.some_inj] at hk
          subst hk
          rw [List.set_cons_zero, List.filter_cons_of_pos (by simpa using hi), List.map_cons,
            List.filter_cons_of_neg (by simpa using hi')]
      | succ k =>
          rw [List.getElem?_cons_succ] at hk
          have hhead : i ∉ head.seq := hfirst 0 (Nat.succ_pos k) head rfl
          have hih := ih hk fun j hj earlier hearlier =>
            hfirst (j + 1) (Nat.succ_lt_succ hj) earlier hearlier
          rw [List.set_cons_succ, List.filter_cons_of_neg (by simpa using hhead),
            List.filter_cons_of_neg (by simpa using hhead), hih]

/-! ## Cache calls -/

/-- Only the main copy looks at its recorder. -/
theorem assignStateRecorder_eq (h : BuddyRelationHolders) (ship : Relationship) (state : BuddyState)
    (isLocal main remote biblock : Bool) :
    assignStateRecorder h ship state isLocal .null (buildContext .request main remote biblock) =
      h.setStateRecorder ⟨recordedId ship state isLocal,
        if main && !h.checkStateRecorder .null then .checkError else state⟩ := by
  unfold assignStateRecorder
  cases main with
  | false => rfl
  | true =>
      cases hcheck : h.checkStateRecorder .null with
      | true => rfl
      | false => rfl

/-- What a cache call does to a copy. -/
theorem cacheCall_cached (create : ℤ → BuddyRelation) {cache : BuddyCache} {h : BuddyRelationHolders}
    (hmem : h ∈ cache s.userId) {relation : Relationship} {oper : Operation} {remote : Bool}
    (hid : sideId relation remote oper.state = s.userId) (main biblock : Bool) :
    let answer := cacheCall cache create oper.state relation .null
      (buildContext .request main remote biblock)
    (∃ h' ∈ answer.cache s.userId, h'.hbr = sideEdit relation remote biblock oper.state h.hbr) ∧
      (answer.hsr.laststate = .checkError ↔ (main && !h.checkStateRecorder .null) = true) := by
  have hstate : oper.state ≠ .checkError := by cases oper <;> decide
  rw [cacheCall_eq, hid]
  unfold cacheUpdate
  rw [Option.mem_def.mp hmem]
  dsimp only
  rw [assignStateRecorder_eq]
  refine ⟨⟨_, Function.update_self _ _ _, rfl⟩, ?_⟩
  show (if main && !h.checkStateRecorder .null then BuddyState.checkError else oper.state) = .checkError ↔ _
  cases main && !h.checkStateRecorder .null with
  | false => exact iff_of_false hstate (by decide)
  | true => exact iff_of_true rfl rfl

/-! ## One step -/

/-- An update in order. -/
theorem Behind.updateRelation (h : s.Behind) {relation : Relationship} {oper : Operation}
    {biblock remote : Bool} (hid : sideId relation remote oper.state = s.userId)
    (horder : (ShardOp.update relation oper biblock remote create).InOrder s) :
    (s.updateRelation relation oper biblock remote create).Behind := by
  obtain ⟨hdone, horder⟩ := horder
  obtain ⟨r, hcopies⟩ := h.awaits hdone
  unfold Shard.updateRelation
  cases hmain : s.copies[0]? with
  | none => exact h
  | some cache =>
      dsimp only
      obtain ⟨h₀, hmem₀, heq₀⟩ := hcopies 0 cache hmain
      rw [pending_eq_nil fun task htask => (h.nodup task htask).2] at heq₀
      have hr : h₀.hbr = r := heq₀
      subst hr
      obtain ⟨⟨h', hmem', hedit⟩, hcheck⟩ :=
        cacheCall_cached create hmem₀ hid true biblock
      generalize cacheCall cache create oper.state relation .null
        (buildContext .request true remote biblock) = answer at hmem' hcheck ⊢
      split
      · rename_i herror
        -- the answer is a reload, and no call is left
        have hdel : s.Delivered := by
          refine horder.resolve_right fun hfresh => ?_
          have hset := hfresh cache hmain
          rw [Option.mem_def.mp hmem₀] at hset
          have hcheck' := hcheck.mp herror
          simp only [Option.any_some] at hset
          rw [hset] at hcheck'
          cases hcheck'
        refine ⟨h.nodup, h.concerns, .inr ⟨hdel, s.reloads.length, ?_, ?_, ?_⟩⟩
        · show _ < (s.reloads ++ [_]).length
          simp
        · intro j task htask hne
          have htask' : (s.reloads ++ [_])[j]? = some task := htask
          rcases List.mem_append.mp (List.mem_of_getElem? htask') with hmem | hmem
          · exact hdone task hmem
          · have hlt : j < s.reloads.length := by
              have hlt := (List.getElem?_eq_some_iff.mp htask').1
              simp only [List.length_append, List.length_singleton] at hlt
              omega
            rw [List.getElem?_append_left hlt] at htask'
            exact hdone task (List.mem_of_getElem? htask')
        · intro obj seq htask
          have htask' : (s.reloads ++ [ReloadTask.remove s.replicas])[s.reloads.length]? =
            some (.load obj seq) := htask
          rw [List.getElem?_concat_length] at htask'
          cases htask'
      · -- the update is made, and each other copy has it to get
        have hseq : (s.replicas.erase 0).Nodup ∧ 0 ∉ s.replicas.erase 0 :=
          ⟨List.nodup_range.erase 0, List.Nodup.not_mem_erase List.nodup_range⟩
        refine ⟨?_, ?_, .inl ⟨hdone, sideEdit relation remote biblock oper.state h₀.hbr, ?_⟩⟩
        · intro task htask
          rcases List.mem_append.mp htask with htask | htask
          · exact h.nodup task htask
          · rw [List.mem_singleton.mp htask]
            exact hseq
        · intro task htask
          rcases List.mem_append.mp htask with htask | htask
          · exact h.concerns task htask
          · rw [List.mem_singleton.mp htask]
            exact hid
        · intro i cache' hcache'
          have hget : (s.copies.set 0 answer.cache)[i]? = some cache' := hcache'
          show ∃ h ∈ cache' s.userId, (pending i (s.tasks ++ [_])).foldl _ h.hbr = _
          by_cases hi : i = 0
          · subst hi
            rw [List.getElem?_set_self (List.getElem?_eq_some_iff.mp hmain).1, Option.some_inj] at hget
            subst hget
            refine ⟨h', hmem', ?_⟩
            rw [pending_eq_nil]
            · exact hedit
            · intro task htask
              rcases List.mem_append.mp htask with htask | htask
              · exact (h.nodup task htask).2
              · rw [List.mem_singleton.mp htask]
                exact hseq.2
          · rw [List.getElem?_set_ne (Ne.symm hi)] at hget
            obtain ⟨h'', hmem'', heq⟩ := hcopies i cache' hget
            refine ⟨h'', hmem'', ?_⟩
            have hreach : i ∈ s.replicas.erase 0 := by
              have hnodup : s.replicas.Nodup := List.nodup_range
              rw [hnodup.mem_erase_iff]
              exact ⟨hi, List.mem_range.mpr (List.getElem?_eq_some_iff.mp hget).1⟩
            unfold pending at heq ⊢
            rw [List.filter_append, List.map_append, List.foldl_append, heq, List.filter_singleton]
            simp [hreach, UpdateRelationTask.edit]

/-- A call in order. -/
theorem Behind.handle (h : s.Behind) (horder : (ShardOp.call k create).InOrder s) :
    (s.handle k create).Behind := by
  unfold Shard.handle
  cases htask : s.tasks[k]? with
  | none => exact h
  | some task =>
      dsimp only
      have hin : task ∈ s.tasks := List.mem_of_getElem? htask
      cases hseq : task.seq with
      | nil => exact h
      | cons i seq =>
          dsimp only
          -- a call is left, so no reload is under way
          obtain ⟨hdone, r, hcopies⟩ : s.Reloaded ∧ s.Awaits := by
            refine h.phase.resolve_right fun ⟨hdel, _⟩ => ?_
            rw [hdel task hin] at hseq
            cases hseq
          have hnodup := h.nodup task hin
          rw [hseq, List.nodup_cons] at hnodup
          have hnodup' : ∀ t ∈ s.tasks.set k { task with seq := seq }, t.seq.Nodup ∧ 0 ∉ t.seq := by
            intro t ht
            rcases List.mem_or_eq_of_mem_set ht with ht | rfl
            · exact h.nodup t ht
            · exact ⟨hnodup.1.2, fun hmem => hnodup.2 (List.mem_cons_of_mem _ hmem)⟩
          have hconcerns' : ∀ t ∈ s.tasks.set k { task with seq := seq },
              sideId t.relation t.remote t.oper.state = s.userId := by
            intro t ht
            rcases List.mem_or_eq_of_mem_set ht with ht | rfl
            · exact h.concerns t ht
            · exact h.concerns task hin
          have hother : ∀ j, j ≠ i →
              pending j (s.tasks.set k { task with seq := seq }) = pending j s.tasks := by
            intro j hj
            refine pending_set_of_ne htask rfl ?_
            rw [hseq, List.mem_cons]
            simp [hj]
          cases hcache : s.copies[i]? with
          | none =>
              refine ⟨hnodup', hconcerns', .inl ⟨hdone, r, ?_⟩⟩
              intro j cache hj
              have hji : j ≠ i := by
                rintro rfl
                have hj' : s.copies[j]? = some cache := hj
                rw [hcache] at hj'
                cases hj'
              obtain ⟨h', hmem', heq⟩ := hcopies j cache hj
              exact ⟨h', hmem', by rw [← heq]; exact congrArg (List.foldl _ h'.hbr) (hother j hji)⟩
          | some cache =>
              dsimp only
              obtain ⟨h', hmem', heq⟩ := hcopies i cache hcache
              obtain ⟨⟨h₁, hmem₁, hedit⟩, hcheck⟩ :=
                cacheCall_cached create hmem' (h.concerns task hin) false task.biblock
              generalize cacheCall cache create task.oper.state task.relation .null
                (buildContext .request false task.remote task.biblock) = answer at hmem₁ hcheck ⊢
              rw [if_neg (by rw [hcheck]; simp)]
              refine ⟨hnodup', hconcerns', .inl ⟨hdone, r, ?_⟩⟩
              intro j cache' hj
              have hj' : (s.copies.set i answer.cache)[j]? = some cache' := hj
              by_cases hji : j = i
              · subst hji
                rw [List.getElem?_set_self (List.getElem?_eq_some_iff.mp hcache).1,
                  Option.some_inj] at hj'
                subst hj'
                refine ⟨h₁, hmem₁, ?_⟩
                have hfirst := horder task htask j (by rw [hseq]; rfl)
                have hset : pending j s.tasks =
                    task.edit :: pending j (s.tasks.set k { task with seq := seq }) :=
                  pending_set_self htask (by rw [hseq]; simp) hnodup.1.1 hfirst
                rw [← heq, hset, hedit]
                rfl
              · rw [List.getElem?_set_ne (Ne.symm hji)] at hj'
                obtain ⟨h'', hmem'', heq'⟩ := hcopies j cache' hj'
                exact ⟨h'', hmem'', by rw [← heq']; exact congrArg (List.foldl _ h''.hbr) (hother j hji)⟩

/-- A copy that is put to the user is the new one, and the others are as they were. -/
theorem Loaded.put {r : BuddyRelation} {seq : List ℕ} (h : s.Loaded r (i :: seq)) :
    (s.put i (some ⟨s.userId, r, .null⟩)).Loaded r seq := by
  intro j cache hcache hj
  unfold Shard.put at hcache
  dsimp only at hcache
  by_cases hij : i = j
  · subst hij
    rw [List.getElem?_modify_eq] at hcache
    obtain ⟨old, -, rfl⟩ := Option.map_eq_some_iff.mp hcache
    exact ⟨_, Function.update_self _ _ _, rfl⟩
  · rw [List.getElem?_modify_ne _ _ hij] at hcache
    refine h j cache hcache ?_
    rw [List.mem_cons]
    exact not_or.mpr ⟨fun he => hij he.symm, hj⟩

/-- The one reload under way takes its next step. -/
theorem Reloading.step {t : Shard} {task task' : ReloadTask} (h : s.Reloading k)
    (hk : s.reloads[i]? = some task) (hnot : ¬ task.Done) (hreloads : t.reloads = s.reloads.set i task')
    (hloaded : ∀ obj seq, task' = .load obj seq → t.Loaded obj seq) : t.Reloading k := by
  have hik : i = k := by
    by_contra hne
    exact hnot (h.others i task hk hne)
  subst hik
  refine ⟨?_, ?_, ?_⟩
  · rw [hreloads, List.length_set]
    exact h.lt
  · intro j task'' hget hne
    rw [hreloads, List.getElem?_set_ne (Ne.symm hne)] at hget
    exact h.others j task'' hget hne
  · intro obj seq hget
    rw [hreloads, List.getElem?_set_self h.lt, Option.some_inj] at hget
    exact hloaded obj seq hget

/-- A step of a reload. -/
theorem Behind.reload (h : s.Behind) (k : ℕ) : (s.reload k create).Behind := by
  have hreloading : ∀ {task : ReloadTask} {t : Shard}, s.reloads[k]? = some task → ¬ task.Done →
      (∀ j, s.Reloading j → t.Reloading j) → t.tasks = s.tasks → t.userId = s.userId → t.Behind := by
    intro task t hget hnot hstep htasks huser
    refine ⟨by rw [htasks]; exact h.nodup, by rw [htasks, huser]; exact h.concerns, .inr ?_⟩
    rcases h.phase with ⟨hdone, -⟩ | ⟨hdel, j, hj⟩
    · exact absurd (hdone task (List.mem_of_getElem? hget)) hnot
    · unfold Delivered
      rw [htasks]
      exact ⟨hdel, j, hstep j hj⟩
  unfold Shard.reload
  cases hget : s.reloads[k]? with
  | none => exact h
  | some task =>
      cases task with
      | remove seq =>
          cases seq with
          | nil =>
              refine hreloading hget id (fun j hj => hj.step hget id rfl ?_) rfl rfl
              intro obj seq heq i cache hcache hi
              cases heq
              exact absurd (List.mem_range.mpr (List.getElem?_eq_some_iff.mp hcache).1) hi
          | cons i seq =>
              refine hreloading hget id (fun j hj => hj.step hget id rfl ?_) rfl rfl
              exact fun obj seq heq => nomatch heq
      | load obj seq =>
          cases seq with
          | nil => exact h
          | cons i seq =>
              have hnot : ¬ (ReloadTask.load obj (i :: seq)).Done := fun he => nomatch he
              refine hreloading hget hnot (fun j hj => hj.step hget hnot rfl ?_) rfl rfl
              intro obj' seq' heq
              cases heq
              have hjk : k = j := by
                by_contra hne
                exact hnot (hj.others k _ hget hne)
              subst hjk
              exact (hj.loaded obj (i :: seq) hget).put

/-- No step is about another user. -/
theorem userId_step (s : Shard) (op : ShardOp) : (op.step s).userId = s.userId := by
  cases op with
  | update relation oper biblock remote create =>
      show (s.updateRelation relation oper biblock remote create).userId = _
      unfold Shard.updateRelation
      split
      · rfl
      · dsimp only
        split <;> rfl
  | call k create =>
      show (s.handle k create).userId = _
      unfold Shard.handle
      split
      · rfl
      · split
        · rfl
        · split
          · rfl
          · dsimp only
            split <;> rfl
  | reload k create =>
      show (s.reload k create).userId = _
      unfold Shard.reload
      split <;> rfl

theorem Behind.step {op : ShardOp} (h : s.Behind) (hop : op.Concerns s.userId)
    (horder : op.InOrder s) : (op.step s).Behind := by
  cases op with
  | update relation oper biblock remote create => exact h.updateRelation hop horder
  | call k create => exact h.handle horder
  | reload k create => exact h.reload k

end Shard

namespace Shard

variable {s : Shard}

/-- A user without relations on two servers. -/
def pair : Shard where
  userId := 1
  copies := [fun id => if id = 1 then some ⟨1, .empty, .null⟩ else none,
    fun id => if id = 1 then some ⟨1, .empty, .null⟩ else none]
  tasks := []
  reloads := []
  answered := []

theorem loaded_pair : pair.Loaded .empty [] := by
  intro i cache hcache _
  have hcases : cache 1 = some ⟨1, .empty, .null⟩ := by
    rcases i with _ | _ | i
    · cases hcache
      rfl
    · cases hcache
      rfl
    · cases hcache
  exact ⟨_, hcases, rfl⟩

/-- A replica that has not answered differs from the main copy. -/
theorem not_converged_of (i : ℕ) (hdel : s.Delivered) (hdone : s.Reloaded)
    (h : ∃ main ∈ s.copies[0]?, ∃ cache ∈ s.copies[i]?,
      i ∉ s.answered ∧ (cache s.userId).map (·.hbr) ≠ (main s.userId).map (·.hbr)) : ¬ s.Converged := by
  obtain ⟨main, hmain, cache, hcache, hans, hne⟩ := h
  intro hconv
  rcases hconv hdel hdone main hmain i cache hcache with hans' | hsame
  · exact hans hans'
  · exact hne hsame

/-- User 1 asks user 2, who is loaded without relations on the server of user 1. -/
def asks : ShardOp := .update ⟨1, 2⟩ .addApply false false fun _ => .empty

/-- User 2 accepts. -/
def accepted : ShardOp := .update ⟨1, 2⟩ .acceptApply false true fun _ => .empty

/-- The five steps of a reload of both copies, with what the loader makes of the rows. -/
def reloadSteps (k : ℕ) (r : BuddyRelation) : List ShardOp := List.replicate 5 (.reload k fun _ => r)

/-- Users 1 and 2 are friends. -/
def friends : BuddyRelation := BuddyRelation.empty.addFriend 2

end Shard

open Shard

/-- The request reaches the replica after the reload that the acceptance has caused. -/
def lateRequest : List ShardOp := [asks, accepted] ++ reloadSteps 0 friends ++ [.call 0 fun _ => .empty]

/-- User 1 removes his friend while the reload that the acceptance has caused has both copies removed;
the loads of the two reloads cross. -/
def crossedReloads : List ShardOp :=
  [asks, .call 0 fun _ => .empty, accepted] ++ List.replicate 3 (.reload 0 fun _ => friends) ++
    [.update ⟨1, 2⟩ .removeFriend false false fun _ => .empty] ++
    List.replicate 4 (.reload 1 fun _ => .empty) ++ List.replicate 2 (.reload 0 fun _ => friends) ++
    [.reload 1 fun _ => .empty]

end Oce.Buddy
