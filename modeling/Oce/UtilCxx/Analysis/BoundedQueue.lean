import Oce.UtilCxx.Model.ThreadPool

/-!
# What the blocking queue strands

The elements leave the queue in the order they came in, each once, and there are never more than the
maximum (`BoundedFifo`); this needs nothing (`boundedFifo`). Two branches of the source go wrong. A
`popfrontByTime` that is notified pops without a look at the queue; and a thread that is woken and
finds that it cannot go on waits again without passing the notification on, which may have been
meant for another. `Passes` says that neither happens, and it is what the rest of the law needs, no
more and no less (`lawful_iff_passes`).
-/

set_option autoImplicit false

namespace Oce.UtilCxx

open Oce.Base

variable {τ : Type*}

variable {notified : Bool} {pick i : ℕ}

/-- The elements that a call has put into the queue. -/
def pushedBy : QueueCall τ × QueueReply τ → List τ
  | (.push elem, _) => [elem]
  | (.pushSeq seq, _) => seq
  | (.pushByTime elem, .flag true) => [elem]
  | (.pushSeqByTime seq, .flag true) => seq
  | _ => []

/-- The elements that a call has delivered. -/
def deliveredBy : QueueCall τ × QueueReply τ → List τ
  | (.popfront, .elem t _) => [t]
  | (.popfrontSeq _, .seq seq) => seq
  | (.popfrontByTime, .elem t _) => [t]
  | (.popfrontSeqByTime _, .seq seq) => seq
  | _ => []

namespace BlockingQueue

/-- What was pushed is what was delivered and, behind it, what is in the queue; there is room for
all of it. -/
structure BoundedFifo (b : BlockingQueue τ) : Prop where
  bounded : b.queue.length ≤ b.maxSize
  inOrder : b.done.flatMap pushedBy = b.done.flatMap deliveredBy ++ b.queue

/-- When no thread is on its way to the lock, no waiting thread could go on. -/
def StrandsNobody (b : BlockingQueue τ) : Prop :=
  b.woken = [] → ∀ c ∈ b.waiting, b.ready c = false

/-- The law of the queue. -/
structure Lawful (b : BlockingQueue τ) : Prop extends BoundedFifo b where
  neverEmpty : b.undefined = false
  strandsNobody : b.StrandsNobody

end BlockingQueue

/-- A notified `popfrontByTime` finds an element; and a thread that cannot go on is not the only one
awake while a waiting thread could. -/
def QueueOp.Passes (b : BlockingQueue τ) : QueueOp τ → Prop
  | resume i _ => ∀ r ∈ b.woken[i]?,
      (r = (.popfrontByTime, true) → b.queue ≠ []) ∧
        (r.1.timed = false → b.ready r.1 = false → b.woken.length = 1 →
          ∀ c ∈ b.waiting, b.ready c = false)
  | _ => True

open BlockingQueue

variable {b : BlockingQueue τ} {c : QueueCall τ}

/-! ## One call -/

/-- A pop takes the first element off, if there is one. -/
theorem popElem_eq {queue : List τ} {reply : QueueReply τ} (h : b.popElem = some (queue, reply)) :
    ∃ t, reply = .elem t queue.length ∧ b.queue = t :: queue := by
  unfold popElem at h
  cases hq : b.queue with
  | nil => simp [hq] at h
  | cons t rest =>
      simp only [hq, Option.some.injEq, Prod.mk.injEq] at h
      obtain ⟨rfl, rfl⟩ := h
      exact ⟨t, rfl, rfl⟩

/-- A pop of several takes a part off the front. -/
theorem popSeq_eq (b : BlockingQueue τ) (n : ℕ) :
    ∃ seq, (b.popSeq n).2 = .seq seq ∧ b.queue = seq ++ (b.popSeq n).1 :=
  ⟨_, rfl, (List.take_append_drop _ _).symm⟩

/-- The parts of a queue are no longer than the queue. -/
theorem length_le_of_append {seq queue : List τ} (hb : b.queue.length ≤ b.maxSize)
    (h : b.queue = seq ++ queue) : queue.length ≤ b.maxSize := by
  rw [h, List.length_append] at hb
  omega

theorem length_append_le {seq : List τ} (h : b.room seq.length = true) :
    (b.queue ++ seq).length ≤ b.maxSize := by
  rw [List.length_append]
  exact of_decide_eq_true h

/-- A call that acts keeps to the room and to the order. -/
theorem act_fifo (hb : b.queue.length ≤ b.maxSize) (hc : c.timed = true ∨ b.ready c = true)
    {queue : List τ} {reply : QueueReply τ} (h : b.act notified c = some (queue, reply)) :
    queue.length ≤ b.maxSize ∧ b.queue ++ pushedBy (c, reply) = deliveredBy (c, reply) ++ queue := by
  have hpop (hp : b.popElem = some (queue, reply)) :
      queue.length ≤ b.maxSize ∧ ∃ t, reply = .elem t queue.length ∧ b.queue = [t] ++ queue := by
    obtain ⟨t, hreply, hq⟩ := popElem_eq hp
    have hq' : b.queue = [t] ++ queue := hq
    exact ⟨length_le_of_append hb hq', t, hreply, hq'⟩
  have hseq (n : ℕ) (hp : b.popSeq n = (queue, reply)) :
      queue.length ≤ b.maxSize ∧ ∃ seq, reply = .seq seq ∧ b.queue = seq ++ queue := by
    obtain ⟨seq, hreply, hq⟩ := popSeq_eq b n
    rw [hp] at hreply hq
    exact ⟨length_le_of_append hb hq, seq, hreply, hq⟩
  have hpush (seq : List τ) (hp : b.pushIfRoom seq = (queue, reply)) :
      queue.length ≤ b.maxSize ∧ (reply = .flag true ∧ queue = b.queue ++ seq ∨
        reply = .flag false ∧ queue = b.queue) := by
    unfold pushIfRoom at hp
    split at hp
    · rename_i hroom
      cases hp
      exact ⟨length_append_le hroom, Or.inl ⟨rfl, rfl⟩⟩
    · cases hp
      exact ⟨hb, Or.inr ⟨rfl, rfl⟩⟩
  cases c with
  | push elem =>
      cases h
      have hroom : b.room 1 = true := hc.resolve_left (by simp [QueueCall.timed])
      exact ⟨length_append_le hroom, rfl⟩
  | pushSeq seq =>
      cases h
      have hroom : b.room seq.length = true := hc.resolve_left (by simp [QueueCall.timed])
      exact ⟨length_append_le hroom, rfl⟩
  | front =>
      obtain ⟨t, -, ht⟩ := Option.map_eq_some_iff.mp h
      cases ht
      exact ⟨hb, by simp [pushedBy, deliveredBy]⟩
  | popfront =>
      obtain ⟨hlen, t, rfl, hq⟩ := hpop h
      exact ⟨hlen, by simpa [pushedBy, deliveredBy] using hq⟩
  | popfrontSeq n =>
      obtain ⟨hlen, seq, rfl, hq⟩ := hseq n (Option.some.inj h)
      exact ⟨hlen, by simpa [pushedBy, deliveredBy] using hq⟩
  | pushByTime elem =>
      cases notified with
      | false =>
          cases h
          exact ⟨hb, by simp [pushedBy, deliveredBy]⟩
      | true =>
          obtain ⟨hlen, ⟨rfl, rfl⟩ | ⟨rfl, rfl⟩⟩ := hpush [elem] (Option.some.inj h)
          · exact ⟨hlen, rfl⟩
          · exact ⟨hlen, by simp [pushedBy, deliveredBy]⟩
  | pushSeqByTime seq =>
      cases notified with
      | false =>
          cases h
          exact ⟨hb, by simp [pushedBy, deliveredBy]⟩
      | true =>
          obtain ⟨hlen, ⟨rfl, rfl⟩ | ⟨rfl, rfl⟩⟩ := hpush seq (Option.some.inj h)
          · exact ⟨hlen, rfl⟩
          · exact ⟨hlen, by simp [pushedBy, deliveredBy]⟩
  | popfrontByTime =>
      cases notified with
      | false =>
          cases h
          exact ⟨hb, by simp [pushedBy, deliveredBy]⟩
      | true =>
          obtain ⟨hlen, t, rfl, hq⟩ := hpop h
          exact ⟨hlen, by simpa [pushedBy, deliveredBy] using hq⟩
  | popfrontSeqByTime n =>
      cases notified with
      | false =>
          cases h
          exact ⟨hb, by simp [pushedBy, deliveredBy]⟩
      | true =>
          obtain ⟨hlen, seq, rfl, hq⟩ := hseq n (Option.some.inj h)
          exact ⟨hlen, by simpa [pushedBy, deliveredBy] using hq⟩

/-- The only call that acts on what it has not looked at is a notified `popfrontByTime`. -/
theorem act_eq_none_iff {notified : Bool} (hc : c.timed = true ∨ b.ready c = true) :
    b.act notified c = none ↔ (c, notified) = (.popfrontByTime, true) ∧ b.queue = [] := by
  cases c with
  | front | popfront =>
      have hlen : 0 < b.queue.length :=
        of_decide_eq_true (hc.resolve_left (by simp [QueueCall.timed]))
      cases hq : b.queue with
      | nil => simp [hq] at hlen
      | cons t rest => simp [act, popElem, hq]
  | popfrontByTime =>
      cases notified with
      | false => simp [act]
      | true => cases hq : b.queue <;> simp [act, popElem, hq]
  | _ => simp [act]

/-! ## Waking and waiting -/

@[simp] theorem wakeUp_queue (i : ℕ) (n : Bool) : (b.wakeUp i n).queue = b.queue := by
  unfold wakeUp
  split <;> rfl

@[simp] theorem wakeUp_maxSize (i : ℕ) (n : Bool) : (b.wakeUp i n).maxSize = b.maxSize := by
  unfold wakeUp
  split <;> rfl

@[simp] theorem wakeUp_done (i : ℕ) (n : Bool) : (b.wakeUp i n).done = b.done := by
  unfold wakeUp
  split <;> rfl

@[simp] theorem wakeUp_undefined (i : ℕ) (n : Bool) : (b.wakeUp i n).undefined = b.undefined := by
  unfold wakeUp
  split <;> rfl

/-- Nothing is changed by a wake-up, or somebody is awake. -/
theorem wakeUp_eq_or (i : ℕ) (n : Bool) : b.wakeUp i n = b ∨ (b.wakeUp i n).woken ≠ [] := by
  unfold wakeUp
  cases b.waiting[i]? with
  | none => exact Or.inl rfl
  | some c => exact Or.inr (by simp)

/-- A notification wakes somebody, if anybody waits. -/
theorem woken_notify (h : (b.notify pick).woken = []) : (b.notify pick).waiting = [] := by
  cases hw : b.waiting with
  | nil =>
      have hsame : b.notify pick = b := by simp [notify, wakeUp, hw]
      rw [hsame, hw]
  | cons c rest =>
      have hlt : pick % b.waiting.length < b.waiting.length := Nat.mod_lt _ (by simp [hw])
      simp [notify, wakeUp, List.getElem?_eq_getElem hlt] at h

/-- Whoever is left waiting by a call that has acted was left by nobody: somebody is awake. -/
theorem strandsNobody_finish (hdef : (b.finish c notified pick).undefined = false) :
    (b.finish c notified pick).StrandsNobody := by
  intro hw d hd
  unfold finish at hdef hw hd
  cases hact : b.act notified c with
  | none => simp [hact] at hdef
  | some r =>
      simp only [hact] at hw hd
      rw [woken_notify hw] at hd
      cases hd

theorem undefined_finish (hdef : b.undefined = false) (hc : c.timed = true ∨ b.ready c = true)
    (pick : ℕ) :
    (b.finish c notified pick).undefined = false ↔
      ((c, notified) = (.popfrontByTime, true) → b.queue ≠ []) := by
  have hnone := @act_eq_none_iff _ b c notified hc
  unfold finish
  cases hact : b.act notified c with
  | none =>
      obtain ⟨hcall, hq⟩ := hnone.mp hact
      simp [hcall, hq]
  | some r =>
      have hnot : ¬ ((c, notified) = (.popfrontByTime, true) ∧ b.queue = []) :=
        fun h => by simp [hnone.mpr h] at hact
      simp only [notify, wakeUp_undefined, hdef, true_iff]
      exact not_and.mp hnot

/-! ## One step -/

namespace BlockingQueue

/-- The law looks at nothing but the room, the queue and the calls that have returned. -/
theorem BoundedFifo.congr {b' : BlockingQueue τ} (h : b.BoundedFifo) (hmax : b'.maxSize = b.maxSize)
    (hqueue : b'.queue = b.queue) (hdone : b'.done = b.done) : b'.BoundedFifo where
  bounded := by
    rw [hmax, hqueue]
    exact h.bounded
  inOrder := by
    rw [hdone, hqueue]
    exact h.inOrder

theorem BoundedFifo.finish (h : b.BoundedFifo) (pick : ℕ) (hc : c.timed = true ∨ b.ready c = true) :
    (b.finish c notified pick).BoundedFifo := by
  unfold BlockingQueue.finish
  cases hact : b.act notified c with
  | none => exact h.congr rfl rfl rfl
  | some r =>
      obtain ⟨queue, reply⟩ := r
      obtain ⟨hlen, hmove⟩ := act_fifo h.bounded hc hact
      refine BoundedFifo.congr (b := { b with queue := queue, done := b.done ++ [(c, reply)] })
        ⟨hlen, ?_⟩ (by simp [notify]) (by simp [notify]) (by simp [notify])
      calc (b.done ++ [(c, reply)]).flatMap pushedBy
          = b.done.flatMap deliveredBy ++ (b.queue ++ pushedBy (c, reply)) := by
            simp [List.flatMap_append, h.inOrder]
        _ = (b.done ++ [(c, reply)]).flatMap deliveredBy ++ queue := by
            rw [hmove]
            simp [List.flatMap_append]

/-- Every step keeps to the room and to the order. -/
theorem BoundedFifo.step (h : b.BoundedFifo) (op : QueueOp τ) : (op.step b).BoundedFifo := by
  unfold QueueOp.step
  split
  · exact h
  · cases op with
    | call c pick =>
        dsimp only
        split
        · exact h.congr rfl rfl rfl
        · rename_i hgo
          exact h.finish pick (Or.inr (by simpa using (not_or.mp hgo).2))
    | resume i pick =>
        cases hr : b.woken[i]? with
        | none => simpa [hr] using h
        | some r =>
            simp only [hr]
            split
            · exact h.congr rfl rfl rfl
            · rename_i hgo
              have hsame : ({ b with woken := b.woken.eraseIdx i } : BlockingQueue τ).BoundedFifo :=
                h.congr rfl rfl rfl
              exact hsame.finish pick ((not_and_or.mp hgo).imp (by simp) (by simp))
    | timeout i =>
        dsimp only
        split
        · exact h
        · split
          · exact h.congr (by simp) (by simp) (by simp)
          · exact h
    | spurious i => exact h.congr (by simp) (by simp) (by simp)

end BlockingQueue

/-- A call with a time limit does not wait for anything to hold. -/
theorem ready_of_timed (h : c.timed = true) : b.ready c = false := by
  cases c with
  | push | pushSeq | front | popfront | popfrontSeq => simp [QueueCall.timed] at h
  | _ => rfl

theorem strandsNobody_wakeUp (h : b.StrandsNobody) (i : ℕ) (n : Bool) :
    (b.wakeUp i n).StrandsNobody := by
  rcases wakeUp_eq_or (b := b) i n with hsame | hwoken
  · rw [hsame]
    exact h
  · exact fun hw => absurd hw hwoken

/-- A call that goes to sleep cannot go on; whether that strands another is seen when nobody else is
awake. -/
theorem strandsNobody_sleep_iff (hc : b.ready c = false) :
    (b.sleep c).StrandsNobody ↔ b.StrandsNobody := by
  refine ⟨fun h hw d hd => h hw d (List.mem_append_left _ hd), fun h hw d hd => ?_⟩
  rcases List.mem_append.mp hd with hold | hnew
  · exact h hw d hold
  · rw [List.mem_singleton] at hnew
    rw [hnew]
    exact hc

/-- What is asked of a woken thread that waits again. -/
theorem passes_of_waits (hr : b.woken[i]? = some (c, notified)) (htimed : c.timed = false)
    (hready : b.ready c = false) :
    (QueueOp.resume i pick).Passes b ↔
      (b.woken.length = 1 → ∀ d ∈ b.waiting, b.ready d = false) := by
  have hnot : ¬ (c, notified) = (.popfrontByTime, true) := by
    rintro he
    cases he
    cases htimed
  simp [QueueOp.Passes, hr, hnot, htimed, hready]

/-- What is asked of a woken thread that goes on. -/
theorem passes_of_goes (hr : b.woken[i]? = some (c, notified))
    (hc : c.timed = true ∨ b.ready c = true) :
    (QueueOp.resume i pick).Passes b ↔
      ((c, notified) = (.popfrontByTime, true) → b.queue ≠ []) := by
  have hback : ¬ (c.timed = false ∧ b.ready c = false) := by
    rintro ⟨ht, hn⟩
    simp [ht, hn] at hc
  simp only [QueueOp.Passes, hr, Option.mem_def, Option.some.injEq, forall_eq']
  exact and_iff_left fun ht hn => absurd ⟨ht, hn⟩ hback

/-- The thread that is awake alone is the last one. -/
theorem eraseIdx_eq_nil_of_lt {α : Type*} {l : List α} (hi : i < l.length) :
    l.eraseIdx i = [] ↔ l.length = 1 := by
  rw [← List.length_eq_zero_iff, List.length_eraseIdx_of_lt hi]
  omega

/-- **After a step the law holds exactly when the step has passed.** -/
theorem lawful_step_iff (h : b.Lawful) (op : QueueOp τ) : (op.step b).Lawful ↔ op.Passes b := by
  have hfifo : (op.step b).BoundedFifo := h.toBoundedFifo.step op
  suffices hiff : (op.step b).undefined = false ∧ (op.step b).StrandsNobody ↔ op.Passes b from
    ⟨fun hl => hiff.mp ⟨hl.neverEmpty, hl.strandsNobody⟩, fun hp =>
      ⟨hfifo, (hiff.mpr hp).1, (hiff.mpr hp).2⟩⟩
  have hdef := h.neverEmpty
  unfold QueueOp.step
  rw [if_neg (by simp [hdef])]
  cases op with
  | call c pick =>
      refine iff_of_true ?_ trivial
      dsimp only
      split
      · rename_i hwait
        have hc : b.ready c = false := hwait.elim ready_of_timed (by simp)
        exact ⟨hdef, (strandsNobody_sleep_iff hc).mpr h.strandsNobody⟩
      · rename_i hgo
        obtain ⟨htimed, hready⟩ := not_or.mp hgo
        have hfin : (b.finish c true pick).undefined = false := by
          rw [undefined_finish hdef (Or.inr (by simpa using hready))]
          rintro he
          cases he
          exact absurd rfl htimed
        exact ⟨hfin, strandsNobody_finish hfin⟩
  | resume i pick =>
      cases hr : b.woken[i]? with
      | none =>
          simp only [QueueOp.Passes, hr]
          exact iff_of_true ⟨hdef, h.strandsNobody⟩ (by simp)
      | some r =>
          obtain ⟨c, notified⟩ := r
          have hi := (List.getElem?_eq_some_iff.mp hr).1
          simp only [hr]
          generalize hb' : ({ b with woken := b.woken.eraseIdx i } : BlockingQueue τ) = b'
          have hdef' : b'.undefined = false := by rw [← hb', hdef]
          have hqueue : b'.queue = b.queue := by rw [← hb']
          have hready (d : QueueCall τ) : b'.ready d = b.ready d := by
            rw [← hb']
            rfl
          split
          · -- it waits again
            rename_i hwait
            have hc : b.ready c = false := by simpa [hready] using hwait.2
            have hsleep : (b'.sleep c).undefined = false := hdef'
            rw [passes_of_waits hr (by simpa using hwait.1) hc, and_iff_right hsleep,
              strandsNobody_sleep_iff ((hready c).trans hc), StrandsNobody, ← hb',
              eraseIdx_eq_nil_of_lt hi]
            exact Iff.rfl
          · -- it goes on
            rename_i hgo
            have hc : c.timed = true ∨ b.ready c = true :=
              (not_and_or.mp hgo).imp (by simp) (by simp [hready])
            rw [passes_of_goes hr hc, and_iff_left_of_imp strandsNobody_finish,
              undefined_finish hdef' (by rwa [hready]), hqueue]
  | timeout i =>
      refine iff_of_true ?_ trivial
      dsimp only
      split
      · exact ⟨hdef, h.strandsNobody⟩
      · split
        · exact ⟨by simpa using hdef, strandsNobody_wakeUp h.strandsNobody i false⟩
        · exact ⟨hdef, h.strandsNobody⟩
  | spurious i =>
      exact iff_of_true ⟨by simpa using hdef, strandsNobody_wakeUp h.strandsNobody i true⟩ trivial

/-! ## Whole runs -/

theorem boundedFifo_new (maxSize : ℕ) : (new maxSize : BlockingQueue τ).BoundedFifo :=
  ⟨Nat.zero_le _, rfl⟩

theorem lawful_new (maxSize : ℕ) : (new maxSize : BlockingQueue τ).Lawful :=
  ⟨boundedFifo_new maxSize, rfl, fun _ _ hc => by cases hc⟩

/-- **In every state of every run the elements have left the queue in the order they came in, each
once, and there are never more than the maximum.** -/
theorem boundedFifo (maxSize : ℕ) (ops : List (QueueOp τ)) :
    (runOps QueueOp.step (new maxSize) ops).BoundedFifo :=
  run_invariant_all (fun _ op h => h.step op) (boundedFifo_new maxSize) ops

/-- **The law holds in every state of a run exactly when every step passes.** -/
theorem lawful_iff_passes (maxSize : ℕ) (ops : List (QueueOp τ)) :
    (∀ k, (runOps QueueOp.step (new maxSize) (ops.take k)).Lawful) ↔
      StepsMeet QueueOp.step (fun b op => op.Passes b) (new maxSize) ops :=
  @forall_take_iff_stepsMeet _ _ QueueOp.step (fun b op => op.Passes b) Lawful Lawful (fun _ h => h)
    (fun _ op h => (lawful_step_iff h op).mpr) (fun _ op h => (lawful_step_iff h op).mp) _
    (lawful_new maxSize) ops

/-! ## What goes wrong -/

/-- Two consumers wait, an element wakes one of them, and a batch of two has to wait for it to go;
the one takes it and wakes the other instead of the batch, and the other finds nothing. -/
def wrongThreadWoken : List (QueueOp ℕ) :=
  [.call .popfront 0, .call .popfront 0, .call (.push 1) 0, .call (.pushSeq [2, 3]) 0,
    .resume 0 0, .resume 0 0]

/-- A timed pop is woken by an element, and somebody else is there first. -/
def othersFirst : List (QueueOp ℕ) :=
  [.call .popfrontByTime 0, .call (.push 1) 0, .call .popfront 0, .resume 0 0]

set_option maxRecDepth 8000 in
/-- The batch waits beside an empty queue and nobody will wake it; the timed pop takes from an empty
queue. -/
theorem pushSeq_stranded :
    ¬ (runOps QueueOp.step (new 2) wrongThreadWoken).StrandsNobody ∧
      (runOps QueueOp.step (new 2) othersFirst).undefined = true := by
  refine ⟨fun h => ?_, by decide⟩
  exact absurd (h (by decide) (.pushSeq [2, 3]) (by decide)) (by decide)

end Oce.UtilCxx
