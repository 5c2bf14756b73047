import Oce.UtilCxx.Model.TaskManager

/-!
# One executor for a level, one timer for a channel

A call that has found nothing under the read lock puts its new executor, or its new timer, into the
map without another look. `Alone` is the condition that nobody has been there in the meantime, and,
for a pool of one worker, that a call which starts a worker for its own task leaves no task behind in
the queue; a task is there when the last worker had decided to exit before it came. Under it the calls
that name a level act on one executor (`OneEach`), and a level whose pool sizes are one runs its tasks
one after the other in the order in which they came (`Serial`).
-/

set_option autoImplicit false

namespace Oce.UtilCxx

open Oce.Base ThreadPoolExecutor

variable {τ : Type*}

variable {k : ℕ} {place : ManagerPlace} {l : ℤ}

/-- The level that a call names. -/
def ManagerCall.level : ManagerCall τ → Option ℤ
  | execute level _ | config level _ => some level
  | schedule _ => none

/-- The channel that a call names. -/
def ManagerCall.channel : ManagerCall τ → Option ℤ
  | schedule timer => some timer.channel
  | _ => none

/-- The call has an executor that is not in the map yet. -/
def ManagerPlace.inserts : ManagerPlace → Bool
  | insert _ => true
  | _ => false

namespace TaskManager

/-- The calls that name a level act on one executor, a call of `config` as well as those that bring
a task; and the timers of a channel are given to one timer. -/
structure OneEach (m : TaskManager τ) : Prop where
  executor : ∀ level j k, (level, j) ∈ m.acted → (level, k) ∈ m.acted → j = k
  timer : ∀ channel j k, (channel, j) ∈ m.scheduled → (channel, k) ∈ m.scheduled → j = k

/-- Worker `a` of executor `i` runs a task of the level. -/
def RunsAt (m : TaskManager τ) (level : ℤ) (i a : ℕ) : Prop :=
  ∃ p task, m.executors.objects[i]? = some (level, p) ∧ p.workers[a]? = some (.runTask task)

/-- No two tasks of the level run at once, and they start in the order in which they came. -/
structure Serial (m : TaskManager τ) (level : ℤ) : Prop where
  oneAtOnce : ∀ i a j b, m.RunsAt level i a → m.RunsAt level j b → i = j ∧ a = b
  inOrder : m.started level <+: m.submitted level

/-- The executors of the level have the pool sizes (1, 1) when a task has come to them. -/
def HasSizesOne (m : TaskManager τ) (level : ℤ) : Prop :=
  ∀ q ∈ m.executors.objects, q.1 = level → q.2.calls ≠ [] →
    q.2.corePoolSize = 1 ∧ q.2.maximumPoolSize = 1

end TaskManager

/-- A call that puts an executor or a timer into the map finds none there; and, in a pool of the sizes
(1, 1), a call that starts a worker for its task finds the queue empty. -/
def ManagerOp.Alone (m : TaskManager τ) : ManagerOp τ → Prop
  | step i => ∀ c ∈ m.calls[i]?,
      (c.2.inserts = true → ∀ level ∈ c.1.level, m.executors.current level = none) ∧
        (c.2 = .create → ∀ channel ∈ c.1.channel, m.timers.current channel = none)
  | poolCall executor i poolFirst => ∀ q ∈ m.executors.objects[executor]?,
      q.2.corePoolSize = 1 ∧ q.2.maximumPoolSize = 1 →
        (PoolOp.call i poolFirst).startsWorker q.2 ≠ [] → q.2.queue = []
  | _ => True

instance (m : TaskManager τ) (op : ManagerOp τ) : Decidable (op.Alone m) := by
  cases op <;> unfold ManagerOp.Alone <;> infer_instance

instance (m : TaskManager τ) (level : ℤ) : Decidable (m.HasSizesOne level) := by
  unfold TaskManager.HasSizesOne
  infer_instance

/-! ## One pool -/

/-- What holds of the executor of a level whose pool sizes are one. -/
structure PoolSerial (p : ThreadPoolExecutor τ) (submitted started : List τ) : Prop where
  size : p.poolSize = p.workers.length
  one : p.workers.length ≤ 1
  order : submitted = started ++ p.queue
  fresh : p.calls = [] → p.workers = [] ∧ p.queue = []

namespace PoolSerial

variable {p : ThreadPoolExecutor τ} {submitted started : List τ}

theorem new (core max : ℕ) : PoolSerial (ThreadPoolExecutor.new core max : ThreadPoolExecutor τ) [] [] :=
  ⟨rfl, Nat.zero_le _, rfl, fun _ => ⟨rfl, rfl⟩⟩

/-- Calls may come and go on. -/
theorem withCalls (h : PoolSerial p submitted started) {calls : List (Call × τ)} (hcalls : calls ≠ []) :
    PoolSerial { p with calls := calls } submitted started :=
  ⟨h.size, h.one, h.order, fun he => absurd he hcalls⟩

/-- An empty pool gets its worker. -/
theorem addThread (h : PoolSerial p submitted started) (hroom : p.poolSize < 1) (hcalls : p.calls ≠ [])
    (firstTask : Option τ) (htask : firstTask = none ∨ p.queue = []) :
    PoolSerial (p.addThread firstTask) (submitted ++ firstTask.toList)
      (started ++ firstTask.toList) where
  size := by
    have hsize := h.size
    simp [ThreadPoolExecutor.addThread, hsize]
  one := by
    have hsize := h.size
    simp only [ThreadPoolExecutor.addThread, List.length_append, List.length_singleton]
    omega
  order := by
    have horder := h.order
    rcases htask with rfl | hq
    · simpa [ThreadPoolExecutor.addThread] using horder
    · simp [ThreadPoolExecutor.addThread, horder, hq]
  fresh he := absurd he hcalls

theorem pushBack (h : PoolSerial p submitted started) (hcalls : p.calls ≠ []) (command : τ) :
    PoolSerial (p.pushBack command) (submitted ++ [command]) started where
  size := h.size
  one := h.one
  order := by
    rw [h.order]
    simp [ThreadPoolExecutor.pushBack]
  fresh he := absurd he hcalls

/-- **A step of a call inside the pool.** -/
theorem call (h : PoolSerial p submitted started) (i : ℕ) (poolFirst : Bool)
    (hsizes : p.calls ≠ [] → p.corePoolSize = 1 ∧ p.maximumPoolSize = 1)
    (halone : p.corePoolSize = 1 ∧ p.maximumPoolSize = 1 →
      (PoolOp.call i poolFirst).startsWorker p ≠ [] → p.queue = []) :
    PoolSerial ((PoolOp.call i poolFirst).step p)
      (submitted ++ (PoolOp.call i poolFirst).startsWorker p ++ (PoolOp.call i poolFirst).queues p)
      (started ++ (PoolOp.call i poolFirst).startsWorker p) := by
  cases hc : p.calls[i]? with
  | none => simpa [PoolOp.step, PoolOp.startsWorker, PoolOp.queues, hc] using h
  | some r =>
      obtain ⟨c, command⟩ := r
      have hcalls : p.calls ≠ [] := fun he => by simp [he] at hc
      obtain ⟨hcore, hmax⟩ := hsizes hcalls
      have hset (x : Call × τ) : p.calls.set i x ≠ [] := by simpa using hcalls
      simp only [PoolOp.step, hc]
      have hstay (hs : (PoolOp.call i poolFirst).startsWorker p = [])
          (hq : (PoolOp.call i poolFirst).queues p = []) (x : Call × τ) :
          PoolSerial { p with calls := p.calls.set i x }
            (submitted ++ (PoolOp.call i poolFirst).startsWorker p ++
              (PoolOp.call i poolFirst).queues p)
            (started ++ (PoolOp.call i poolFirst).startsWorker p) := by
        rw [hs, hq]
        simpa using h.withCalls (hset x)
      have hown (hs : (PoolOp.call i poolFirst).startsWorker p = [command])
          (hq : (PoolOp.call i poolFirst).queues p = []) (hroom : p.poolSize < 1) (x : Call × τ) :
          PoolSerial { p.addThread (some command) with calls := p.calls.set i x }
            (submitted ++ (PoolOp.call i poolFirst).startsWorker p ++
              (PoolOp.call i poolFirst).queues p)
            (started ++ (PoolOp.call i poolFirst).startsWorker p) := by
        have hempty := halone ⟨hcore, hmax⟩ (by simp [hs])
        rw [hs, hq]
        simpa using (h.addThread hroom hcalls (some command) (Or.inr hempty)).withCalls (hset x)
      cases c with
      | start | check | returned =>
          exact hstay (by simp [PoolOp.startsWorker, hc]) (by simp [PoolOp.queues, hc]) _
      | compare q n =>
          cases q <;> cases n <;>
            exact hstay (by simp [PoolOp.startsWorker, hc]) (by simp [PoolOp.queues, hc]) _
      | push | pushOnly =>
          have hs : (PoolOp.call i poolFirst).startsWorker p = [] := by simp [PoolOp.startsWorker, hc]
          have hq : (PoolOp.call i poolFirst).queues p = [command] := by simp [PoolOp.queues, hc]
          simp only [callStep]
          rw [hs, hq]
          simpa using (h.pushBack hcalls command).withCalls (hset _)
      | ensureQueuedTaskHandled =>
          have hs : (PoolOp.call i poolFirst).startsWorker p = [] := by simp [PoolOp.startsWorker, hc]
          have hq : (PoolOp.call i poolFirst).queues p = [] := by simp [PoolOp.queues, hc]
          simp only [callStep]
          split
          · rename_i hroom
            rw [hs, hq]
            simpa using (h.addThread (by omega) hcalls none (Or.inl rfl)).withCalls (hset _)
          · exact hstay hs hq _
      | addIfUnderCorePoolSize | addIfUnderMaximumPoolSize =>
          have hq : (PoolOp.call i poolFirst).queues p = [] := by simp [PoolOp.queues, hc]
          simp only [callStep]
          split
          · rename_i hroom
            exact hown (by simp [PoolOp.startsWorker, hc, hroom]) hq (by omega) _
          · rename_i hroom
            exact hstay (by simp [PoolOp.startsWorker, hc, hroom]) hq _

/-- **A step of a worker.** -/
theorem worker (h : PoolSerial p submitted started) (i : ℕ) (gotit : Bool) :
    PoolSerial ((PoolOp.worker i gotit).step p) submitted
      (started ++ (PoolOp.worker i gotit).takes p) := by
  cases hw : p.workers[i]? with
  | none => simpa [PoolOp.step, PoolOp.takes, hw] using h
  | some w =>
      have hi := (List.getElem?_eq_some_iff.mp hw).1
      have hcalls : p.calls ≠ [] := fun he => by simp [(h.fresh he).1] at hw
      simp only [PoolOp.step, hw]
      -- a worker that goes on takes nothing or the first task of the queue
      have hgo (taken queue : List τ) (hq : p.queue = taken ++ queue) (w' : Worker τ) (n : ℕ) :
          PoolSerial { p with queue := queue, waitPoolSize := n, workers := p.workers.set i w' }
            submitted (started ++ taken) :=
        ⟨by simpa using h.size, by simpa using h.one, by simp [h.order, hq],
          fun he => absurd he hcalls⟩
      cases w with
      | getTask =>
          have htakes : (PoolOp.worker i gotit).takes p = p.queue.take 1 := by
            simp [PoolOp.takes, hw]
          rw [htakes]
          simp only [workerStep]
          cases hq : p.queue with
          | nil => simpa [hq] using hgo [] [] (by simp [hq]) _ (p.waitPoolSize + 1)
          | cons task queue => exact hgo [task] queue hq _ p.waitPoolSize
      | workerDone =>
          have hsize := h.size
          have hone := h.one
          have htakes : (PoolOp.worker i gotit).takes p = [] := by simp [PoolOp.takes, hw]
          rw [htakes]
          refine ⟨?_, ?_, by simpa [workerStep] using h.order, fun he => absurd he hcalls⟩
          · simp only [workerStep, List.length_eraseIdx_of_lt hi, hsize]
          · simp only [workerStep, List.length_eraseIdx_of_lt hi]
            omega
      | runTask task | waitforNewTask timed | workerCanExit =>
          have htakes : (PoolOp.worker i gotit).takes p = [] := by simp [PoolOp.takes, hw]
          rw [htakes]
          exact hgo [] p.queue rfl _ _

end PoolSerial

/-! ## The sizes -/

section Sizes

variable {p : ThreadPoolExecutor τ}

@[simp] theorem addThreads_calls (n : ℕ) : (p.addThreads n).calls = p.calls := by
  induction n generalizing p with
  | zero => rfl
  | succ n ih =>
      unfold addThreads
      split
      · rw [ih]
        rfl
      · rfl

@[simp] theorem addThreads_corePoolSize (n : ℕ) : (p.addThreads n).corePoolSize = p.corePoolSize := by
  induction n generalizing p with
  | zero => rfl
  | succ n ih =>
      unfold addThreads
      split
      · rw [ih]
        rfl
      · rfl

/-- The sizes may change as long as no task has come; afterwards a core size of one stays. -/
theorem PoolSerial.setCorePoolSize {submitted started : List τ} (h : PoolSerial p submitted started)
    {c : ℕ} (hsame : p.calls ≠ [] → p.corePoolSize = c) :
    PoolSerial (p.setCorePoolSize c) submitted started := by
  have hnone : min (-asInt (p.corePoolSize - c)).toNat p.queue.length = 0 := by
    by_cases hcalls : p.calls = []
    · simp [(h.fresh hcalls).2]
    · simp [hsame hcalls, asInt]
  unfold ThreadPoolExecutor.setCorePoolSize
  dsimp only
  rw [hnone]
  exact ⟨h.size, h.one, h.order, h.fresh⟩

theorem PoolSerial.setMaximumPoolSize {submitted started : List τ}
    (h : PoolSerial p submitted started) (n : ℕ) :
    PoolSerial (p.setMaximumPoolSize n) submitted started := by
  unfold ThreadPoolExecutor.setMaximumPoolSize
  split
  · exact h
  · exact ⟨h.size, h.one, h.order, h.fresh⟩

/-- A task comes to the executor. -/
theorem PoolSerial.execute {submitted started : List τ} (h : PoolSerial p submitted started)
    (task : τ) : PoolSerial ((PoolOp.execute (some task)).step p) submitted started :=
  h.withCalls (by simp)

end Sizes

/-! ## The two maps -/

/-- The maps lead to every executor and every timer there is, and what calls have acted on is what
the maps lead to. -/
structure Registered (m : TaskManager τ) : Prop where
  executors : m.executors.Unique
  timers : m.timers.Unique
  acted : ∀ a ∈ m.acted, m.executors.current a.1 = some a.2
  scheduled : ∀ a ∈ m.scheduled, m.timers.current a.1 = some a.2

/-- A call that has its executor has the one of its level. -/
def Located (m : TaskManager τ) (c : ManagerCall τ × ManagerPlace) : Prop :=
  ∀ level ∈ c.1.level, ∀ k, c.2 = .act k ∨ c.2 = .setMaximum k →
    m.executors.current level = some k

/-- What leads to an executor goes on to lead there. -/
def KeepsLeading (m m' : TaskManager τ) : Prop :=
  ∀ level k, m.executors.current level = some k → m'.executors.current level = some k

variable {m : TaskManager τ}

theorem Located.mono {m' : TaskManager τ} (hkeep : KeepsLeading m m')
    {c : ManagerCall τ × ManagerPlace} (h : Located m c) : Located m' c :=
  fun level hl k hk => hkeep level k (h level hl k hk)

/-- The scheduler has nothing to do with the levels. -/
theorem scheduleStep_levels (timer : TimerTask τ) (place : ManagerPlace) :
    (m.scheduleStep timer place).1.executors = m.executors ∧
      (m.scheduleStep timer place).1.submitted = m.submitted ∧
        (m.scheduleStep timer place).1.started = m.started := by
  cases place with
  | locate =>
      unfold TaskManager.scheduleStep
      cases m.timers.current timer.channel <;> exact ⟨rfl, rfl, rfl⟩
  | _ => exact ⟨rfl, rfl, rfl⟩

@[simp] theorem poolStep_calls (executor : ℕ) (op : PoolOp τ) :
    (m.poolStep executor op).calls = m.calls := by
  unfold TaskManager.poolStep
  split <;> rfl

namespace Registered

theorem actOn (h : Registered m) {level : ℤ} (hk : m.executors.current level = some k)
    (f : ThreadPoolExecutor τ → ThreadPoolExecutor τ) : Registered (m.actOn level k f) where
  executors := h.executors.modify k f
  timers := h.timers
  acted a ha := by
    rcases List.mem_append.mp ha with hold | hnew
    · exact h.acted a hold
    · rw [List.mem_singleton.mp hnew]
      exact hk
  scheduled := h.scheduled

/-- An executor that goes into the map where there is none. -/
theorem insert (h : Registered m) {level : ℤ} (hnone : m.executors.current level = none)
    (p : ThreadPoolExecutor τ) :
    Registered { m with executors := m.executors.create level p } where
  executors := h.executors.create hnone p
  timers := h.timers
  acted a ha := Registry.current_create hnone (h.acted a ha)
  scheduled := h.scheduled

/-- **A step of `locateExecutor`.** -/
theorem locateExecutor (h : Registered m) {level : ℤ}
    (hins : place.inserts = true → m.executors.current level = none)
    (hloc : ∀ k, place = .act k ∨ place = .setMaximum k → m.executors.current level = some k) :
    Registered (m.locateExecutor level place).1 ∧
      KeepsLeading m (m.locateExecutor level place).1 ∧
      ∀ k, (m.locateExecutor level place).2 = .act k ∨
          (m.locateExecutor level place).2 = .setMaximum k →
        (m.locateExecutor level place).1.executors.current level = some k := by
  cases place with
  | locate =>
      refine ⟨h, fun _ _ hk => hk, fun k hk => ?_⟩
      cases hcur : m.executors.current level with
      | none => simp [TaskManager.locateExecutor, hcur] at hk
      | some j => simpa [TaskManager.locateExecutor, hcur] using hk
  | create => exact ⟨h, fun _ _ hk => hk, fun k hk => by simp [TaskManager.locateExecutor] at hk⟩
  | insert config =>
      have hnone := hins rfl
      refine ⟨h.insert hnone _, fun _ _ hk => Registry.current_create hnone hk, fun k hk => ?_⟩
      have hlen : m.executors.objects.length = k := by
        simpa [TaskManager.locateExecutor] using hk
      simp [TaskManager.locateExecutor, Registry.create, hlen]
  | act executor | setMaximum executor | returned => exact ⟨h, fun _ _ hk => hk, hloc⟩

/-- A timer's channel is made once. -/
theorem scheduleStep (h : Registered m) (timer : TimerTask τ)
    (hnew : place = .create → m.timers.current timer.channel = none) :
    Registered (m.scheduleStep timer place).1 := by
  cases place with
  | locate =>
      unfold TaskManager.scheduleStep
      cases hcur : m.timers.current timer.channel with
      | none => exact h
      | some i =>
          dsimp only
          refine ⟨h.executors, h.timers.modify i (· ++ [timer]), h.acted, fun a ha => ?_⟩
          rcases List.mem_append.mp ha with hold | hadd
          · exact h.scheduled a hold
          · rw [List.mem_singleton.mp hadd]
            exact hcur
  | create =>
      have hnone := hnew rfl
      refine ⟨h.executors, h.timers.create hnone _, h.acted, fun a ha => ?_⟩
      rcases List.mem_append.mp ha with hold | hadd
      · exact Registry.current_create hnone (h.scheduled a hold)
      · rw [List.mem_singleton.mp hadd]
        simp [TaskManager.scheduleStep, Registry.create]
  | insert | act | setMaximum | returned => exact h

/-- **A step of a call.** -/
theorem callStep (h : Registered m) {c : ManagerCall τ} (hloc : Located m (c, place))
    (hins : place.inserts = true → ∀ level ∈ c.level, m.executors.current level = none)
    (hnew : place = .create → ∀ channel ∈ c.channel, m.timers.current channel = none) :
    Registered (m.callStep c place).1 ∧ KeepsLeading m (m.callStep c place).1 ∧
      Located (m.callStep c place).1 (c, (m.callStep c place).2) := by
  cases c with
  | execute level task =>
      have hl := hloc level rfl
      cases place with
      | act k =>
          exact ⟨h.actOn (hl k (Or.inl rfl)) _, fun _ _ hk => hk, fun _ _ k hk => by
            simp [TaskManager.callStep, TaskManager.executeStep] at hk⟩
      | _ =>
          obtain ⟨hreg, hkeep, hlevel⟩ := h.locateExecutor (fun hi => hins hi level rfl) hl
          refine ⟨hreg, hkeep, fun l hll k hk => ?_⟩
          cases hll
          exact hlevel k hk
  | config level config =>
      have hl := hloc level rfl
      cases place with
      | act k =>
          have hk := hl k (Or.inl rfl)
          refine ⟨h.actOn hk _, fun _ _ hk => hk, fun l hll j hj => ?_⟩
          cases hll
          obtain rfl : k = j := by
            simpa [TaskManager.callStep, TaskManager.configStep] using hj
          exact hk
      | setMaximum k =>
          exact ⟨h.actOn (hl k (Or.inr rfl)) _, fun _ _ hk => hk, fun _ _ k hk => by
            simp [TaskManager.callStep, TaskManager.configStep] at hk⟩
      | _ =>
          simp only [TaskManager.callStep, TaskManager.configStep]
          split
          · exact ⟨h, fun _ _ hk => hk, fun _ _ k hk => by simp at hk⟩
          · obtain ⟨hreg, hkeep, hlevel⟩ := h.locateExecutor (fun hi => hins hi level rfl) hl
            refine ⟨hreg, hkeep, fun l hll k hk => ?_⟩
            cases hll
            exact hlevel k hk
  | schedule timer =>
      have hsame := (scheduleStep_levels (m := m) timer place).1
      refine ⟨h.scheduleStep timer fun hp => hnew hp _ rfl, fun level k hk => ?_, fun l hl => ?_⟩
      · rw [TaskManager.callStep, hsame]
        exact hk
      · cases hl

theorem poolStep (h : Registered m) (executor : ℕ) (op : PoolOp τ) :
    Registered (m.poolStep executor op) ∧ KeepsLeading m (m.poolStep executor op) := by
  unfold TaskManager.poolStep
  cases m.executors.objects[executor]? with
  | none => exact ⟨h, fun _ _ hk => hk⟩
  | some q =>
      dsimp only
      exact ⟨⟨h.executors.modify executor fun p => op.step p, h.timers, h.acted, h.scheduled⟩,
        fun _ _ hk => hk⟩

/-- What the maps are for. -/
theorem oneEach (h : Registered m) : m.OneEach where
  executor level j k hj hk := by
    have hj' : m.executors.current level = some j := h.acted _ hj
    have hk' : m.executors.current level = some k := h.acted _ hk
    exact Option.some.inj (hj'.symm.trans hk')
  timer channel j k hj hk := by
    have hj' : m.timers.current channel = some j := h.scheduled _ hj
    have hk' : m.timers.current channel = some k := h.scheduled _ hk
    exact Option.some.inj (hj'.symm.trans hk')

end Registered

/-! ## One level -/

/-- The executor of the level is serial, and nothing has come to a level that has none. -/
structure LevelSerial (m : TaskManager τ) (level : ℤ) : Prop where
  pool : ∀ (k : ℕ) p, m.executors.objects[k]? = some (level, p) →
    PoolSerial p (m.submitted level) (m.started level)
  unmade : m.executors.current level = none → m.submitted level = [] ∧ m.started level = []

namespace LevelSerial

variable {level : ℤ}

/-- What the levels are not about. -/
theorem congr {m' : TaskManager τ} (h : LevelSerial m level) (hexec : m'.executors = m.executors)
    (hsub : m'.submitted = m.submitted) (hsta : m'.started = m.started) : LevelSerial m' level := by
  refine ⟨fun k p hk => ?_, fun hnone => ?_⟩
  · rw [hexec] at hk
    rw [hsub, hsta]
    exact h.pool k p hk
  · rw [hexec] at hnone
    rw [hsub, hsta]
    exact h.unmade hnone

/-- An executor is made for a level that has none. -/
theorem insert (h : LevelSerial m level) (core max : ℕ) (hnone : m.executors.current l = none) :
    LevelSerial { m with executors := m.executors.create l (.new core max) } level := by
  refine ⟨fun k p hk => ?_, fun hcur => h.unmade ?_⟩
  · rcases Registry.create_objects hk with hold | ⟨-, hnew⟩
    · exact h.pool k p hold
    · cases hnew
      obtain ⟨hsub, hsta⟩ := h.unmade hnone
      rw [hsub, hsta]
      exact .new core max
  · cases hold : m.executors.current level with
    | none => rfl
    | some k =>
        have hkeep := Registry.current_create (o := (.new core max : ThreadPoolExecutor τ)) hnone hold
        rw [hkeep] at hcur
        cases hcur

/-- One executor is changed, and what it submits and starts is noted. -/
theorem modify (h : LevelSerial m level) {m' : TaskManager τ}
    {f : ThreadPoolExecutor τ → ThreadPoolExecutor τ}
    (hexec : m'.executors = m.executors.modify k f)
    (hother : ∀ (j : ℕ) p, j ≠ k → m.executors.objects[j]? = some (level, p) →
      m'.submitted level = m.submitted level ∧ m'.started level = m.started level)
    (hself : ∀ p, m.executors.objects[k]? = some (level, p) →
      PoolSerial p (m.submitted level) (m.started level) →
        PoolSerial (f p) (m'.submitted level) (m'.started level))
    (hunmade : m.executors.current level = none →
      m'.submitted level = m.submitted level ∧ m'.started level = m.started level) :
    LevelSerial m' level := by
  refine ⟨fun j p hj => ?_, fun hnone => ?_⟩
  · rw [hexec, Registry.modify_objects, Option.map_eq_some_iff] at hj
    obtain ⟨q, hq, hp⟩ := hj
    split at hp
    · rename_i hkj
      subst hkj
      obtain ⟨l, p'⟩ := q
      cases hp
      exact hself p' hq (h.pool k p' hq)
    · rename_i hkj
      subst hp
      obtain ⟨hsub, hsta⟩ := hother j p (Ne.symm hkj) hq
      rw [hsub, hsta]
      exact h.pool j p hq
  · have hcur : m.executors.current level = none := by rw [hexec] at hnone; exact hnone
    obtain ⟨hsub, hsta⟩ := hunmade hcur
    rw [hsub, hsta]
    exact h.unmade hcur

/-- **A step of an executor.** -/
theorem poolStep (h : LevelSerial m level) (hreg : Registered m) {executor : ℕ} {op : PoolOp τ}
    (hop : ∀ p submitted started, m.executors.objects[executor]? = some (level, p) →
      PoolSerial p submitted started → PoolSerial (op.step p)
        (submitted ++ op.startsWorker p ++ op.queues p) (started ++ op.startsWorker p ++ op.takes p)) :
    LevelSerial (m.poolStep executor op) level := by
  unfold TaskManager.poolStep
  cases hq : m.executors.objects[executor]? with
  | none => exact h
  | some q =>
      obtain ⟨l, p⟩ := q
      dsimp only
      by_cases hl : l = level
      · subst hl
        have hlead := hreg.executors.leads executor _ hq
        refine h.modify (f := fun p => op.step p) rfl (fun j q hj hjq => ?_) (fun p' hp' hser => ?_) fun hnone => ?_
        · exact absurd (hreg.executors.eq hjq hq rfl) hj
        · obtain rfl : p = p' := by
            rw [hq] at hp'
            cases hp'
            rfl
          simpa using hop p _ _ hq hser
        · rw [hnone] at hlead
          cases hlead
      · have hsame (g : ℤ → List τ) (x : List τ) : Function.update g l x level = g level :=
          Function.update_of_ne (Ne.symm hl) x g
        refine h.modify (f := fun p => op.step p) rfl (fun _ _ _ _ => ⟨hsame _ _, hsame _ _⟩)
          (fun p' hp' _ => ?_) fun _ => ⟨hsame _ _, hsame _ _⟩
        rw [hq] at hp'
        cases hp'
        exact absurd rfl hl

/-- A call acts on an executor, and no task is handed to a worker or a queue. -/
theorem actOn (h : LevelSerial m level) {f : ThreadPoolExecutor τ → ThreadPoolExecutor τ}
    (hf : ∀ p, m.executors.objects[k]? = some (level, p) →
      PoolSerial p (m.submitted level) (m.started level) →
        PoolSerial (f p) (m.submitted level) (m.started level)) :
    LevelSerial (m.actOn l k f) level :=
  h.modify rfl (fun _ _ _ _ => ⟨rfl, rfl⟩) hf fun _ => ⟨rfl, rfl⟩

theorem locateExecutor (h : LevelSerial m level)
    (hins : place.inserts = true → m.executors.current l = none) :
    LevelSerial (m.locateExecutor l place).1 level := by
  cases place with
  | insert config => exact h.insert _ _ (hins rfl)
  | locate | create | act | setMaximum | returned => exact h

/-- **A step of a call.** The sizes of the level are one before and after it. -/
theorem callStep (h : LevelSerial m level) {c : ManagerCall τ}
    (hins : place.inserts = true → ∀ l ∈ c.level, m.executors.current l = none)
    (hone : m.HasSizesOne level) (hone' : (m.callStep c place).1.HasSizesOne level) :
    LevelSerial (m.callStep c place).1 level := by
  cases c with
  | execute l task =>
      cases place with
      | act k => exact h.actOn fun p _ hp => hp.execute task
      | _ => exact h.locateExecutor fun hi => hins hi l rfl
  | config l config =>
      cases place with
      | act k =>
          refine h.actOn fun p hk hp => hp.setCorePoolSize fun hcalls => ?_
          have hcore := (hone _ (List.mem_of_getElem? hk) rfl hcalls).1
          have hk' : (m.callStep (.config l config) (.act k)).1.executors.objects[k]? =
              some (level, p.setCorePoolSize (toSize config.core)) := by
            simp only [TaskManager.callStep, TaskManager.configStep, TaskManager.actOn,
              Registry.modify_objects, hk]
            simp
          have hcore' := (hone' _ (List.mem_of_getElem? hk') rfl
            (by simpa [ThreadPoolExecutor.setCorePoolSize] using hcalls)).1
          rw [hcore]
          simpa [ThreadPoolExecutor.setCorePoolSize] using hcore'.symm
      | setMaximum k => exact h.actOn fun p _ hp => hp.setMaximumPoolSize _
      | _ =>
          simp only [TaskManager.callStep, TaskManager.configStep]
          split
          · exact h
          · exact h.locateExecutor fun hi => hins hi l rfl
  | schedule timer =>
      obtain ⟨hexec, hsub, hsta⟩ := scheduleStep_levels (m := m) timer place
      exact h.congr hexec hsub hsta

/-- What the level's executor is for. -/
theorem serial (h : LevelSerial m level) (hreg : Registered m) : m.Serial level where
  oneAtOnce := by
    rintro i a j b ⟨p, t, hi, ha⟩ ⟨q, u, hj, hb⟩
    obtain rfl : i = j := hreg.executors.eq hi hj rfl
    rw [hi] at hj
    cases hj
    have hone := (h.pool i p hi).one
    have hlt := (List.getElem?_eq_some_iff.mp ha).1
    have hlt' := (List.getElem?_eq_some_iff.mp hb).1
    exact ⟨rfl, by omega⟩
  inOrder := by
    cases hcur : m.executors.current level with
    | none =>
        rw [(h.unmade hcur).2]
        exact List.nil_prefix
    | some k =>
        obtain ⟨p, hp⟩ := hreg.executors.made level k hcur
        rw [(h.pool k p hp).order]
        exact List.prefix_append _ _

end LevelSerial

/-! ## Whole runs -/

/-- The calls that have their executor have the one of their level. -/
structure ManagerInv (m : TaskManager τ) : Prop extends Registered m where
  located : ∀ c ∈ m.calls, Located m c

theorem ManagerInv.new : ManagerInv (TaskManager.new : TaskManager τ) where
  executors := Registry.unique_empty
  timers := Registry.unique_empty
  acted a ha := by cases ha
  scheduled a ha := by cases ha
  located c hc := by cases hc

/-- The maps are not about the calls and the sizes to come. -/
theorem Registered.recall (h : Registered m) (calls : List (ManagerCall τ × ManagerPlace)) :
    Registered { m with calls := calls } :=
  ⟨h.executors, h.timers, h.acted, h.scheduled⟩

/-- **The step lemma of the maps.** -/
theorem ManagerInv.next (h : ManagerInv m) {op : ManagerOp τ} (halone : op.Alone m) :
    ManagerInv (op.next m) := by
  cases op with
  | call c =>
      refine ⟨h.toRegistered.recall _, fun d hd => ?_⟩
      rcases List.mem_append.mp hd with hold | hnew
      · exact h.located d hold
      · rw [List.mem_singleton.mp hnew]
        exact fun _ _ k hk => by simp at hk
  | setConfig config =>
      exact ⟨⟨h.executors, h.timers, h.acted, h.scheduled⟩, fun d hd => h.located d hd⟩
  | step i =>
      unfold ManagerOp.next
      cases hc : m.calls[i]? with
      | none => simpa [hc] using h
      | some r =>
          obtain ⟨c, place⟩ := r
          simp only [hc]
          have hmem := List.mem_of_getElem? hc
          obtain ⟨hins, hnew⟩ := halone (c, place) hc
          obtain ⟨hreg, hkeep, hloc⟩ := h.toRegistered.callStep (h.located _ hmem) hins hnew
          refine ⟨hreg.recall _, fun d hd => ?_⟩
          rcases List.mem_or_eq_of_mem_set hd with hold | rfl
          · exact Located.mono hkeep (h.located d hold)
          · exact hloc
  | poolCall executor i poolFirst =>
      obtain ⟨hreg, hkeep⟩ := h.toRegistered.poolStep executor (.call i poolFirst)
      exact ⟨hreg, fun d hd => Located.mono hkeep (h.located d (by simpa [ManagerOp.next] using hd))⟩
  | poolWorker executor i gotit =>
      obtain ⟨hreg, hkeep⟩ := h.toRegistered.poolStep executor (.worker i gotit)
      exact ⟨hreg, fun d hd => Located.mono hkeep (h.located d (by simpa [ManagerOp.next] using hd))⟩

/-- **The step lemma of a level.** -/
theorem LevelSerial.next {level : ℤ} (h : LevelSerial m level) (hinv : ManagerInv m)
    {op : ManagerOp τ} (halone : op.Alone m) (hone : m.HasSizesOne level)
    (hone' : (op.next m).HasSizesOne level) : LevelSerial (op.next m) level := by
  cases op with
  | call c => exact h.congr rfl rfl rfl
  | setConfig config => exact h.congr rfl rfl rfl
  | step i =>
      unfold ManagerOp.next at hone' ⊢
      cases hc : m.calls[i]? with
      | none => simpa [hc] using h
      | some r =>
          obtain ⟨c, place⟩ := r
          simp only [hc] at hone' ⊢
          exact (h.callStep (halone (c, place) hc).1 hone hone').congr rfl rfl rfl
  | poolCall executor i poolFirst =>
      refine h.poolStep hinv.toRegistered fun p submitted started hp hser => ?_
      have hstep := hser.call i poolFirst (hone _ (List.mem_of_getElem? hp) rfl) (halone _ hp)
      simpa [PoolOp.takes] using hstep
  | poolWorker executor i gotit =>
      refine h.poolStep hinv.toRegistered fun p submitted started hp hser => ?_
      simpa [PoolOp.startsWorker, PoolOp.queues] using hser.worker i gotit

/-- **In every run whose steps meet the condition the calls that name a level act on one executor and
the timers of a channel on one timer; and a level whose pool sizes are one when its tasks come never
runs two of them at once, and runs them in their order.** -/
theorem one_executor_per_level {ops : List (ManagerOp τ)}
    (hops : StepsMeet ManagerOp.next (fun m op => op.Alone m) .new ops) :
    (runOps ManagerOp.next .new ops).OneEach ∧
      ∀ level, StepsMeet ManagerOp.next (fun m op => (op.next m).HasSizesOne level) .new ops →
        (runOps ManagerOp.next .new ops).Serial level := by
  refine ⟨(run_invariant (fun _ _ h ha => h.next ha) ManagerInv.new hops).oneEach, fun level hsizes => ?_⟩
  have hstart : LevelSerial (TaskManager.new : TaskManager τ) level :=
    ⟨fun k p hk => (nomatch hk), fun _ => ⟨rfl, rfl⟩⟩
  have hnone : (TaskManager.new : TaskManager τ).HasSizesOne level := fun q hq => by cases hq
  obtain ⟨hinv, hlevel, -⟩ := @run_invariant _ _ ManagerOp.next _
    (fun m => ManagerInv m ∧ LevelSerial m level ∧ m.HasSizesOne level)
    (fun _ _ ⟨hinv, hlevel, hone⟩ ⟨halone, hone'⟩ =>
      ⟨hinv.next halone, hlevel.next hinv halone hone hone', hone'⟩)
    _ ⟨ManagerInv.new, hstart, hnone⟩ _ (hops.and hsizes)
  exact hlevel.serial hinv.toRegistered

/-- A level is configured, and two tasks come to it one after the other. -/
def configuredFirst : List (ManagerOp ℕ) :=
  [.call (.config 7 ⟨1, 1⟩), .step 0, .step 0, .step 0, .step 0, .step 0, .call (.execute 7 1),
    .step 1, .step 1, .poolCall 0 0 false, .poolCall 0 0 false, .call (.execute 7 2), .step 2,
    .step 2, .poolCall 0 1 false, .poolCall 0 1 false, .poolCall 0 1 false, .poolCall 0 1 false,
    .poolWorker 0 0 false, .poolWorker 0 0 false]

set_option maxRecDepth 16000 in
theorem one_executor_per_level_configuredFirst :
    (runOps ManagerOp.next .new configuredFirst).OneEach ∧
      (runOps ManagerOp.next .new configuredFirst).Serial 7 := by
  obtain ⟨heach, hserial⟩ := one_executor_per_level
    (show StepsMeet ManagerOp.next (fun m op => op.Alone m) .new configuredFirst by decide)
  exact ⟨heach, hserial 7 (by decide)⟩

/-! ## What goes wrong -/

/-- The sizes are (1, 1) for all levels; two threads bring the first two tasks of a level, and neither
finds an executor. -/
def firstUses : List (ManagerOp ℕ) :=
  [.setConfig ⟨1, 1⟩, .call (.execute 7 1), .call (.execute 7 2), .step 0, .step 1, .step 0, .step 0,
    .step 1, .step 1, .step 0, .step 1, .poolCall 0 0 false, .poolCall 0 0 false,
    .poolCall 1 0 false, .poolCall 1 0 false]

/-- The worker of a level has run the first task and has decided to exit when the second comes, and
the third comes when it is gone. -/
def overtaken : List (ManagerOp ℕ) :=
  [.setConfig ⟨1, 1⟩, .call (.execute 7 1), .step 0, .step 0, .step 0, .step 0, .poolCall 0 0 false,
    .poolCall 0 0 false, .poolWorker 0 0 false, .poolWorker 0 0 false, .poolWorker 0 0 false,
    .poolWorker 0 0 false, .call (.execute 7 2), .step 1, .step 1, .poolCall 0 1 false,
    .poolCall 0 1 false, .poolCall 0 1 false, .poolCall 0 1 false, .poolCall 0 1 false,
    .poolCall 0 1 false, .poolWorker 0 0 false, .call (.execute 7 3), .step 2, .step 2,
    .poolCall 0 2 false, .poolCall 0 2 false]

set_option maxRecDepth 16000 in
/-- Two tasks of the level run at once on two executors of one worker; and a task runs before another
that came to the same executor earlier. -/
theorem two_executors_at_once :
    (¬ (runOps ManagerOp.next .new firstUses).OneEach ∧
      (runOps ManagerOp.next .new firstUses).RunsAt 7 0 0 ∧
      (runOps ManagerOp.next .new firstUses).RunsAt 7 1 0 ∧
      StepsMeet ManagerOp.next (fun m op => (op.next m).HasSizesOne 7) .new firstUses) ∧
      (runOps ManagerOp.next .new overtaken).started 7 = [1, 3] ∧
        (runOps ManagerOp.next .new overtaken).submitted 7 = [1, 2, 3] := by
  refine ⟨⟨fun h => ?_, ⟨_, 1, rfl, rfl⟩, ⟨_, 2, rfl, rfl⟩, by decide⟩, by decide, by decide⟩
  exact absurd (h.executor 7 0 1 (by decide) (by decide)) (by decide)

end Oce.UtilCxx
