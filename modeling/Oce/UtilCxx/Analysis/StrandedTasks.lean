import Oce.UtilCxx.Model.ThreadPool

/-!
# No task is stranded in the pool

A worker that has decided to exit is counted in `_poolSize` until it takes the lock again,
so a call that puts its command into the queue then sees a pool that is not empty and
leaves, and nobody takes the command. `Attended` is the condition that this does not
happen, nor that the last worker of a pool of several exits with commands in the queue.
Under it the queue is empty, a worker has not decided to exit, or the pool is empty and a
call has still to make a worker (`Inv.watched`).
-/

set_option autoImplicit false

namespace Oce.UtilCxx

open Oce.Base ThreadPoolExecutor

variable {τ : Type*}

namespace ThreadPoolExecutor

/-- A worker has not decided to exit. -/
def Undecided (p : ThreadPoolExecutor τ) : Prop :=
  ∃ i : ℕ, ∃ w, p.workers[i]? = some w ∧ w ≠ .workerDone

/-- A call has to look at the pool again. -/
def Rechecks (p : ThreadPoolExecutor τ) : Prop :=
  ∃ i : ℕ, ∃ c ∈ p.calls[i]?, c.1 = .check ∨ c.1 = .ensureQueuedTaskHandled

/-- When all calls have returned and commands are left in the queue, some worker has not
decided to exit, and there are never more workers than the maximum. -/
def NoneStranded (p : ThreadPoolExecutor τ) : Prop :=
  ((∀ c ∈ p.calls, c.1 = .returned) → p.queue ≠ [] → p.Undecided) ∧
    p.workers.length ≤ p.maximumPoolSize

end ThreadPoolExecutor

/-- A command is put into the queue while some worker has not decided to exit, or, where the
pool is looked at again, while the pool is empty; and a worker that `workerCanExit` lets go leaves
an empty queue or another worker that has not decided to exit. -/
def PoolOp.Attended (p : ThreadPoolExecutor τ) : PoolOp τ → Prop
  | execute _ => True
  | call i _ => ∀ c ∈ p.calls[i]?,
      (c.1 = .push → p.poolSize = 0 ∨ p.Undecided) ∧ (c.1 = .pushOnly → p.Undecided)
  | worker i _ => p.workers[i]? = some .workerCanExit → p.canExit = true → p.queue = [] ∨
      ∃ j : ℕ, j ≠ i ∧ ∃ w, p.workers[j]? = some w ∧ w ≠ .workerDone

/-- The invariant of the pool. -/
structure PoolInv (p : ThreadPoolExecutor τ) : Prop where
  size : p.poolSize = p.workers.length
  maximum : p.poolSize ≤ p.maximumPoolSize
  core : max p.corePoolSize 1 ≤ p.maximumPoolSize
  watched : p.queue = [] ∨ p.Undecided ∨ p.poolSize = 0 ∧ p.Rechecks

variable {p : ThreadPoolExecutor τ}

theorem PoolInv.new {core max : ℕ} (hmax : 1 ≤ max) :
    PoolInv (ThreadPoolExecutor.new (τ := τ) core max) where
  size := rfl
  maximum := Nat.zero_le _
  core := by
    unfold ThreadPoolExecutor.new
    dsimp only
    split
    · omega
    · omega
  watched := Or.inl rfl

/-! ## Calls -/

theorem undecided_addThread (firstTask : Option τ) : (p.addThread firstTask).Undecided := by
  refine ⟨p.workers.length, firstTask.elim .getTask .runTask, ?_, ?_⟩
  · simp [addThread]
  · cases firstTask with
    | none => exact fun h => nomatch h
    | some task => exact fun h => nomatch h

/-- A worker that is added fits below the maximum. -/
theorem PoolInv.addThread (h : PoolInv p) (hlt : p.poolSize < p.maximumPoolSize)
    (firstTask : Option τ) : PoolInv (p.addThread firstTask) where
  size := by
    have hsize := h.size
    simp [ThreadPoolExecutor.addThread, hsize]
  maximum := hlt
  core := h.core
  watched := Or.inr (Or.inl (undecided_addThread firstTask))

/-- A call that makes a step leaves the others where they are. -/
theorem rechecks_set {q : ThreadPoolExecutor τ} (hcalls : q.calls = p.calls) {i : ℕ} {c : Call × τ}
    (hc : p.calls[i]? = some c) (hnot : ¬ (c.1 = .check ∨ c.1 = .ensureQueuedTaskHandled))
    (h : p.Rechecks) (c' : Call × τ) :
    ({ q with calls := q.calls.set i c' } : ThreadPoolExecutor τ).Rechecks := by
  obtain ⟨j, d, hd, hat⟩ := h
  have hji : i ≠ j := by
    rintro rfl
    rw [Option.mem_def, hc, Option.some_inj] at hd
    exact hnot (hd ▸ hat)
  refine ⟨j, d, ?_, hat⟩
  rw [hcalls, List.getElem?_set_ne hji]
  exact hd

theorem rechecks_self {q : ThreadPoolExecutor τ} {i : ℕ} (hi : i < q.calls.length) {c : Call × τ}
    (hc : c.1 = .check ∨ c.1 = .ensureQueuedTaskHandled) :
    ({ q with calls := q.calls.set i c } : ThreadPoolExecutor τ).Rechecks := by
  refine ⟨i, c, ?_, hc⟩
  rw [List.getElem?_set_self hi]
  rfl

/-- A call that changes nothing but where it is, and has not to look again. -/
theorem PoolInv.move (h : PoolInv p) {i : ℕ} {c : Call × τ} (hc : p.calls[i]? = some c)
    (hnot : ¬ (c.1 = .check ∨ c.1 = .ensureQueuedTaskHandled)) (c' : Call × τ) :
    PoolInv { p with calls := p.calls.set i c' } where
  size := h.size
  maximum := h.maximum
  core := h.core
  watched := h.watched.imp_right fun hw => hw.imp_right fun ⟨h0, hre⟩ =>
    ⟨h0, rechecks_set rfl hc hnot hre c'⟩

/-- Nobody looks at the calls of a pool some worker of which has not decided to exit. -/
theorem PoolInv.recall (h : PoolInv p) (hw : p.queue = [] ∨ p.Undecided) (calls : List (Call × τ)) :
    PoolInv { p with calls := calls } :=
  ⟨h.size, h.maximum, h.core, hw.elim Or.inl fun hu => Or.inr (Or.inl hu)⟩

/-- **A step of a call.** -/
theorem PoolInv.call (h : PoolInv p) {i : ℕ} {poolFirst : Bool}
    (hatt : (PoolOp.call i poolFirst).Attended p) : PoolInv ((PoolOp.call i poolFirst).step p) := by
  unfold PoolOp.step
  dsimp only
  cases hc : p.calls[i]? with
  | none => exact h
  | some r =>
      obtain ⟨c, command⟩ := r
      obtain ⟨hi, -⟩ := List.getElem?_eq_some_iff.mp hc
      obtain ⟨hpush, hpushOnly⟩ := hatt _ hc
      dsimp only at hpush hpushOnly ⊢
      cases c with
      | start => exact h.move hc (by simp) _
      | addIfUnderCorePoolSize =>
          simp only [callStep]
          split
          · rename_i hlt
            have hcore := h.core
            exact (h.addThread (by omega) (some command)).recall
              (Or.inr (undecided_addThread _)) _
          · exact h.move hc (by simp) _
      | compare q n =>
          cases q <;> cases n <;> exact h.move hc (by simp) _
      | push =>
          refine ⟨h.size, h.maximum, h.core, Or.inr ?_⟩
          rcases hpush rfl with h0 | hu
          · exact Or.inr ⟨h0, rechecks_self (q := p.pushBack command) hi (Or.inl rfl)⟩
          · exact Or.inl hu
      | check =>
          rcases h.watched with hq | hu | ⟨h0, -⟩
          · exact h.recall (Or.inl hq) _
          · exact h.recall (Or.inr hu) _
          · refine ⟨h.size, h.maximum, h.core, Or.inr (Or.inr ⟨h0, ?_⟩)⟩
            refine rechecks_self (q := p) hi (Or.inr ?_)
            exact if_pos h0
      | ensureQueuedTaskHandled =>
          simp only [callStep]
          split
          · rename_i hlt
            have hcore := h.core
            exact (h.addThread (by omega) none).recall (Or.inr (undecided_addThread _)) _
          · rename_i hnot
            rcases h.watched with hq | hu | ⟨h0, -⟩
            · exact h.recall (Or.inl hq) _
            · exact h.recall (Or.inr hu) _
            · -- an empty pool gets a worker when there is a command
              by_cases hq : p.queue = []
              · exact h.recall (Or.inl hq) _
              · exact absurd ⟨by omega, hq⟩ hnot
      | addIfUnderMaximumPoolSize =>
          simp only [callStep]
          split
          · rename_i hlt
            exact (h.addThread hlt (some command)).recall (Or.inr (undecided_addThread _)) _
          · exact h.move hc (by simp) _
      | pushOnly => exact ⟨h.size, h.maximum, h.core, Or.inr (Or.inl (hpushOnly rfl))⟩
      | returned => exact h.move hc (by simp) _

/-! ## Workers -/

/-- A worker that goes on has not decided to exit. -/
theorem PoolInv.goOn (h : PoolInv p) {i : ℕ} (hi : i < p.workers.length) (w : Worker τ)
    (hw : w ≠ .workerDone) (queue : List τ) (waitPoolSize : ℕ) :
    PoolInv { p with
      queue := queue, waitPoolSize := waitPoolSize, workers := p.workers.set i w } where
  size := by
    rw [List.length_set]
    exact h.size
  maximum := h.maximum
  core := h.core
  watched := Or.inr (Or.inl ⟨i, w, by simp [hi], hw⟩)

/-- **A step of a worker.** -/
theorem PoolInv.worker (h : PoolInv p) {i : ℕ} {gotit : Bool}
    (hatt : (PoolOp.worker i gotit).Attended p) : PoolInv ((PoolOp.worker i gotit).step p) := by
  unfold PoolOp.step
  dsimp only
  cases hc : p.workers[i]? with
  | none => exact h
  | some w =>
      obtain ⟨hi, -⟩ := List.getElem?_eq_some_iff.mp hc
      dsimp only
      cases w with
      | runTask task => exact h.goOn hi .getTask (fun he => nomatch he) p.queue p.waitPoolSize
      | getTask =>
          simp only [workerStep]
          split
          · exact h.goOn hi (.runTask _) (fun he => nomatch he) _ p.waitPoolSize
          · rename_i hq
            exact h.goOn hi (.waitforNewTask _) (fun he => nomatch he) p.queue (p.waitPoolSize + 1)
      | waitforNewTask timed =>
          simp only [workerStep]
          refine h.goOn hi _ ?_ p.queue _
          split <;> exact fun he => nomatch he
      | workerCanExit =>
          simp only [workerStep]
          by_cases hexit : p.canExit = true
          · rw [if_pos hexit]
            refine ⟨by rw [List.length_set]; exact h.size, h.maximum, h.core, ?_⟩
            rcases hatt hc hexit with hq | ⟨j, hj, w, hw, hne⟩
            · exact Or.inl hq
            · refine Or.inr (Or.inl ⟨j, w, ?_, hne⟩)
              rw [List.getElem?_set_ne (Ne.symm hj)]
              exact hw
          · -- the worker is not let go and takes the next task
            rw [if_neg hexit]
            exact h.goOn hi .getTask (fun he => nomatch he) p.queue p.waitPoolSize
      | workerDone =>
          simp only [workerStep]
          have hsize := h.size
          have hmax := h.maximum
          refine ⟨by rw [List.length_eraseIdx_of_lt hi, hsize], by dsimp only; omega, h.core, ?_⟩
          rcases h.watched with hq | ⟨j, w, hw, hne⟩ | ⟨h0, hre⟩
          · exact Or.inl hq
          · right
            left
            rcases Nat.lt_trichotomy j i with hlt | rfl | hgt
            · exact ⟨j, w, by rw [List.getElem?_eraseIdx_of_lt hlt]; exact hw, hne⟩
            · rw [hc, Option.some_inj] at hw
              exact absurd hw.symm hne
            · refine ⟨j - 1, w, ?_, hne⟩
              rw [List.getElem?_eraseIdx_of_ge (by omega), Nat.sub_add_cancel (by omega)]
              exact hw
          · -- an empty pool has no worker
            omega

/-! ## Whole runs -/

/-- **The step lemma.** -/
theorem PoolInv.step (h : PoolInv p) {op : PoolOp τ} (hatt : op.Attended p) : PoolInv (op.step p) := by
  cases op with
  | call i poolFirst => exact h.call hatt
  | worker i gotit => exact h.worker hatt
  | execute command =>
      cases command with
      | none => exact h
      | some command =>
          refine ⟨h.size, h.maximum, h.core, h.watched.imp_right fun hw => hw.imp_right ?_⟩
          rintro ⟨h0, j, c, hc, hat⟩
          refine ⟨h0, j, c, ?_, hat⟩
          obtain ⟨hj, -⟩ := List.getElem?_eq_some_iff.mp hc
          show (p.calls ++ [(Call.start, command)])[j]? = some c
          rw [List.getElem?_append_left hj]
          exact hc

/-- What the invariant is for. -/
theorem PoolInv.noneStranded (h : PoolInv p) : p.NoneStranded := by
  refine ⟨fun hreturned hq => ?_, h.size ▸ h.maximum⟩
  rcases h.watched with hempty | hu | ⟨-, i, c, hc, hat⟩
  · exact absurd hempty hq
  · exact hu
  · have hret := hreturned c (List.mem_of_getElem? hc)
    rw [hret] at hat
    rcases hat with he | he
    · cases he
    · cases he

/-- **In every run that keeps to the condition no task is stranded, and there are never more
workers than the maximum.** -/
theorem no_task_stranded {core max : ℕ} (hmax : 1 ≤ max) {ops : List (PoolOp τ)}
    (hops : StepsMeet PoolOp.step (fun p op => op.Attended p) (.new core max) ops) :
    (runOps PoolOp.step (.new core max) ops).NoneStranded :=
  (run_invariant (fun _ _ h hatt => h.step hatt) (PoolInv.new hmax) hops).noneStranded

/-- A second command is put into the queue while the only worker runs the first one. -/
def secondWaits : List (PoolOp ℕ) :=
  [.execute (some 1), .call 0 false, .call 0 false, .call 0 true, .call 0 false, .call 0 false,
    .execute (some 2), .call 1 true, .call 1 true, .call 1 false, .call 1 false, .call 1 false,
    .call 1 false, .worker 0 false, .worker 0 false]

theorem no_task_stranded_secondWaits :
    (runOps PoolOp.step (.new 0 1) secondWaits).NoneStranded := by
  refine no_task_stranded (Nat.le_refl 1) ?_
  have hother : ∀ {p : ThreadPoolExecutor ℕ} {i : ℕ} {b : Bool} {c : Call × ℕ},
      p.calls[i]? = some c → c.1 ≠ .push → c.1 ≠ .pushOnly → (PoolOp.call i b).Attended p := by
    intro p i b c hc h1 h2 d hd
    rw [Option.mem_def, hc, Option.some_inj] at hd
    exact ⟨fun h => absurd (hd ▸ h) h1, fun h => absurd (hd ▸ h) h2⟩
  refine ⟨trivial, hother rfl ?_ ?_, hother rfl ?_ ?_, hother rfl ?_ ?_, hother rfl ?_ ?_,
    hother rfl ?_ ?_, trivial, hother rfl ?_ ?_, hother rfl ?_ ?_, hother rfl ?_ ?_,
    hother rfl ?_ ?_, fun c hc => ?_, hother rfl ?_ ?_,
    fun h => absurd h (by decide), fun h => absurd h (by decide), trivial⟩
  all_goals try decide
  cases hc
  exact ⟨fun _ => Or.inr ⟨0, .runTask 1, rfl, by decide⟩, fun h => nomatch h⟩

/-- The only worker decides to exit, a second command is put into the queue, and the call
returns since the worker still counts. -/
def exitDecided : List (PoolOp ℕ) :=
  [.execute (some 1), .call 0 false, .call 0 false, .call 0 false, .call 0 false, .call 0 false,
    .worker 0 false, .worker 0 false, .worker 0 false, .worker 0 false,
    .execute (some 2), .call 1 false, .call 1 false, .call 1 false, .call 1 false, .call 1 false,
    .call 1 false, .worker 0 false]

theorem task_stranded : ¬ (runOps PoolOp.step (.new 0 1) exitDecided).NoneStranded := by
  intro h
  obtain ⟨i, w, hw, -⟩ := h.1 (by decide) (by decide)
  cases hw

end Oce.UtilCxx
