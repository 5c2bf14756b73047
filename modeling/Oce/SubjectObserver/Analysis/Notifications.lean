import Mathlib.Data.List.Count
import Mathlib.Data.List.Nodup
import Oce.SubjectObserver.Model.Observer

/-!
# Which notifications reach their subscribers

A subscriber is told only if the topic that `update` or `get` finds has an earlier time than the one
that it puts there. Subscribing for the first time, `notifyall` and `fetch` all set that time, in whole
seconds; so of two calls in one second the second one tells nobody, and neither does one whose time
was read before that of a call which was quicker to put its topic. Where a call owes its state to
somebody and the time is not a later one, the notification is lost: it reaches everybody in the runs
in which that does not happen (`Passes`), and in no others (`reaches_iff_passes`).
-/

set_option autoImplicit false

namespace Oce.SubjectObserver

open Function Oce.Base

variable {κ ι σ : Type*}

/-- Nobody fails. -/
def ObserverOp.Answered : ObserverOp κ ι σ → Prop
  | resume _ failing _ => failing = []
  | handle _ fails => fails = false
  | _ => True

instance [DecidableEq ι] (op : ObserverOp κ ι σ) : Decidable op.Answered := by
  cases op <;> unfold ObserverOp.Answered <;> infer_instance

/-- A task makes a call that is answered. -/
def ObserverOp.Handles : ObserverOp κ ι σ → Prop
  | handle _ fails => fails = false
  | _ => False

variable [DecidableEq κ] [DecidableEq ι]

/-- The law of the observer. -/
structure SubjectObserverI.Reaches [DecidableEq σ] (s : SubjectObserverI κ ι σ) : Prop where
  /-- The tasks can be brought to their end. -/
  finishes : ∃ later : List (ObserverOp κ ι σ), (∀ op ∈ later, op.Handles) ∧
    (runOps ObserverOp.step s later).pending = []
  /-- When they are, in whatever order, all to whom a `notifyall` owed its state have been called with
  it, once each. -/
  notified : ∀ i c receives, s.calls[i]? = some c → c.kind = .notifyall →
    c.place = .returned receives → ∀ later : List (ObserverOp κ ι σ), (∀ op ∈ later, op.Handles) →
      (runOps ObserverOp.step s later).pending = [] →
        ∀ p ∈ c.due, (runOps ObserverOp.step s later).operas.count ⟨i, p, c.state⟩ = 1
  /-- All to whom a `fetch` owed its state have answered it, once each. -/
  fetched : ∀ (i : ℕ) c receives, s.calls[i]? = some c → c.kind = .fetch →
    c.place = .returned receives → ∀ p ∈ c.due, receives.count p = 1

/-- A call that owes its state to somebody finds an earlier topic. -/
def ObserverOp.Passes (s : SubjectObserverI κ ι σ) : ObserverOp κ ι σ → Prop
  | resume i _ _ =>
    match s.calls[i]? with
    | none => True
    | some c =>
      match c.place with
      | .put sbjt => c.due = [] ∨ s.isEarlier sbjt = true
      | _ => True
  | _ => True

instance (s : SubjectObserverI κ ι σ) (op : ObserverOp κ ι σ) : Decidable (op.Passes s) := by
  cases op <;> unfold ObserverOp.Passes <;> repeat' first | infer_instance | split

open SubjectObserverI

variable {s : SubjectObserverI κ ι σ} {c : ObserverCall κ ι σ} {i : ℕ}

/-! ## The tasks -/

/-- A call of a task is one that was pending. -/
theorem handle_perm (s : SubjectObserverI κ ι σ) (task : ℕ) :
    ((s.handle task false).operas ++ (s.handle task false).pending).Perm (s.operas ++ s.pending) := by
  unfold SubjectObserverI.handle
  cases ht : s.tasks[task]? with
  | none => exact .refl _
  | some t =>
      obtain ⟨hlt, hget⟩ := List.getElem?_eq_some_iff.mp ht
      cases hp : t.subscribers with
      | nil => simp [hp]
      | cons p rest =>
          obtain ⟨before, after, htasks, -, hset⟩ :=
            @List.exists_of_set _ task { t with subscribers := rest } s.tasks hlt
          rw [hget] at htasks
          have hops : t.operas = ⟨t.call, p, t.state⟩ :: rest.map fun p => ⟨t.call, p, t.state⟩ := by
            rw [NotifyTask.operas, hp, List.map_cons]
          have hold : s.pending = before.flatMap NotifyTask.operas ++
              ⟨t.call, p, t.state⟩ :: (rest.map (fun p => ⟨t.call, p, t.state⟩) ++
                after.flatMap NotifyTask.operas) := by
            rw [SubjectObserverI.pending, htasks, List.flatMap_append, List.flatMap_cons, hops,
              List.cons_append]
          simp only [hp, Bool.false_eq_true, if_false, SubjectObserverI.pending, hset,
            List.flatMap_append, List.flatMap_cons, List.append_assoc, List.singleton_append]
          rw [← SubjectObserverI.pending, hold]
          exact List.perm_middle.symm.append_left s.operas

/-- What the tasks do changes neither the topics nor the calls. -/
theorem handle_kept (s : SubjectObserverI κ ι σ) (task : ℕ) :
    (s.handle task false).topics = s.topics ∧ (s.handle task false).subscribers = s.subscribers ∧
      (s.handle task false).calls = s.calls := by
  unfold SubjectObserverI.handle
  split
  · exact ⟨rfl, rfl, rfl⟩
  · split <;> exact ⟨rfl, rfl, rfl⟩

/-- However the tasks go on, the calls that are made and those that are pending stay the same. -/
theorem runOps_handles_perm {later : List (ObserverOp κ ι σ)} (h : ∀ op ∈ later, op.Handles) :
    ((runOps ObserverOp.step s later).operas ++ (runOps ObserverOp.step s later).pending).Perm
      (s.operas ++ s.pending) := by
  induction later generalizing s with
  | nil => exact .refl _
  | cons op later ih =>
      have hrest := ih (s := op.step s) fun o ho => h o (List.mem_cons_of_mem _ ho)
      have hop := h op (by simp)
      cases op with
      | handle task fails =>
          cases hop
          exact hrest.trans (handle_perm s task)
      | _ => exact hop.elim

/-- When nothing is pending any more, everything that was has been called. -/
theorem count_later [DecidableEq σ] {later : List (ObserverOp κ ι σ)} (h : ∀ op ∈ later, op.Handles)
    (hpending : (runOps ObserverOp.step s later).pending = []) (o : Opera ι σ) :
    (runOps ObserverOp.step s later).operas.count o = (s.operas ++ s.pending).count o := by
  rw [← (runOps_handles_perm h).count_eq o, hpending, List.append_nil]

/-- A task that has somebody to call has one pending call less after it. -/
theorem exists_handle (h : s.pending ≠ []) :
    ∃ task, (s.handle task false).pending.length < s.pending.length := by
  obtain ⟨o, ho⟩ := List.exists_mem_of_ne_nil _ h
  obtain ⟨t, htasks, hot⟩ := List.mem_flatMap.mp ho
  obtain ⟨p, hp, -⟩ := List.mem_map.mp hot
  obtain ⟨task, htask⟩ := List.mem_iff_getElem?.mp htasks
  refine ⟨task, ?_⟩
  have hlen := (handle_perm s task).length_eq
  have hmore : (s.handle task false).operas.length = s.operas.length + 1 := by
    unfold SubjectObserverI.handle
    cases hsub : t.subscribers with
    | nil => rw [hsub] at hp; cases hp
    | cons p rest => simp [htask, hsub]
  rw [List.length_append, List.length_append] at hlen
  omega

theorem exists_finishes (s : SubjectObserverI κ ι σ) :
    ∃ later : List (ObserverOp κ ι σ), (∀ op ∈ later, op.Handles) ∧
      (runOps ObserverOp.step s later).pending = [] := by
  induction hn : s.pending.length using Nat.strongRecOn generalizing s with
  | ind n ih =>
      by_cases h : s.pending = []
      · exact ⟨[], by simp, h⟩
      · obtain ⟨task, hlt⟩ := exists_handle h
        obtain ⟨later, hlater, hend⟩ := ih _ (hn ▸ hlt) (s.handle task false) rfl
        refine ⟨.handle task false :: later, fun op hop => ?_, hend⟩
        rcases List.mem_cons.mp hop with rfl | hop
        · rfl
        · exact hlater op hop

/-! ## The topics and their subscribers -/

/-- The topic that a call has in its hands. -/
def CallPlace.held : CallPlace κ ι → Option (SbjTopic κ)
  | time sbjt | put sbjt => some sbjt
  | _ => none

/-- Subscribers are listed once, and those to whom a call owes its state are listed. -/
structure Listed (s : SubjectObserverI κ ι σ) : Prop where
  nodup : ∀ name sbjss, s.subscribers name = some sbjss → sbjss.Nodup
  topic : ∀ name sbjss, s.subscribers name = some sbjss → s.topics name ≠ none
  named : ∀ name sbjt, s.topics name = some sbjt → sbjt.name = name
  held : ∀ (i : ℕ) c sbjt, s.calls[i]? = some c → c.place.held = some sbjt → sbjt.name = c.name
  due : ∀ (i : ℕ) c p, s.calls[i]? = some c → p ∈ c.due →
    ∃ sbjss, s.subscribers c.name = some sbjss ∧ p ∈ sbjss

omit [DecidableEq κ] [DecidableEq ι] in
theorem listed_new (clock : ℤ) : Listed (SubjectObserverI.new clock : SubjectObserverI κ ι σ) where
  nodup _ _ h := by cases h
  topic _ _ h := by cases h
  named _ _ h := by cases h
  held _ _ _ h := by cases h
  due _ _ _ h := by cases h

omit [DecidableEq κ] [DecidableEq ι] in
/-- Neither the clock nor the tasks matter. -/
theorem Listed.congr {s' : SubjectObserverI κ ι σ} (h : Listed s) (htopics : s'.topics = s.topics)
    (hsubs : s'.subscribers = s.subscribers) (hcalls : s'.calls = s.calls) : Listed s' where
  nodup := hsubs ▸ h.nodup
  topic := hsubs ▸ htopics ▸ h.topic
  named := htopics ▸ h.named
  held := hcalls ▸ h.held
  due := hsubs ▸ hcalls ▸ h.due

/-- The subscribers of a topic after a subscription: those of before, and perhaps one more. -/
theorem subscribers_subscribe (s : SubjectObserverI κ ι σ) (name : κ) (p : SbjSubscriberPrx ι) :
    ∃ sbjss, (s.subscribe name p).subscribers = update s.subscribers name (some sbjss) ∧
      ((∀ old, s.subscribers name = some old → old.Nodup) → sbjss.Nodup) ∧
        ∀ old, s.subscribers name = some old → old ⊆ sbjss := by
  unfold SubjectObserverI.subscribe
  cases hsub : s.subscribers name with
  | none => exact ⟨_, rfl, fun _ => List.nodup_singleton _, fun _ h => by cases h⟩
  | some old =>
      by_cases hmem : p.withTimeout ∈ old
      · refine ⟨old, ?_, fun h => h old rfl, fun _ h => by cases h; exact fun _ hx => hx⟩
        simp only [hmem, if_true]
        rw [← hsub, update_eq_self]
      · refine ⟨old ++ [p.withTimeout], by simp [hmem], fun h => ?_, fun _ h => ?_⟩
        · exact List.nodup_append.mpr ⟨h old rfl, List.nodup_singleton _, fun a ha b hb hab =>
            hmem (List.mem_singleton.mp hb ▸ hab ▸ ha)⟩
        · cases h
          exact List.subset_append_left _ _

/-- A subscription puts the topic and the subscriber on each other's lists. -/
theorem Listed.subscribe (h : Listed s) (name : κ) (p : SbjSubscriberPrx ι) :
    Listed (s.subscribe name p) := by
  obtain ⟨sbjss, hsubs, hnodup, hmore⟩ := subscribers_subscribe s name p
  have htopics : (s.subscribe name p).topics = if s.topics name = none then
      update s.topics name (some ⟨name, s.clock⟩) else s.topics := rfl
  constructor
  · intro name' sbjss' h'
    rw [hsubs, update_apply] at h'
    split at h'
    · cases h'
      exact hnodup fun old => h.nodup name old
    · exact h.nodup name' sbjss' h'
  · intro name' sbjss' h'
    rw [hsubs, update_apply] at h'
    rw [htopics]
    by_cases hname : name' = name
    · subst hname
      split
      · simp
      · assumption
    · rw [if_neg hname] at h'
      have hold := h.topic name' sbjss' h'
      split
      · rwa [update_of_ne hname]
      · exact hold
  · intro name' sbjt h'
    rw [htopics] at h'
    split at h'
    · rw [update_apply] at h'
      split at h'
      · next hname =>
          cases h'
          exact hname.symm
      · exact h.named name' sbjt h'
    · exact h.named name' sbjt h'
  · exact h.held
  · intro i c q hc hq
    obtain ⟨old, hold, hmem⟩ := h.due i c q hc hq
    rw [hsubs, update_apply]
    split
    · next hname => exact ⟨sbjss, rfl, hmore old (hname ▸ hold) hmem⟩
    · exact ⟨old, hold, hmem⟩

/-- The call of before, with what it does not owe any more left out. -/
theorem calls_doUnsubscribe {name : κ} {p : SbjSubscriberPrx ι} {c' : ObserverCall κ ι σ}
    (h : (s.doUnsubscribe name p).calls[i]? = some c') :
    ∃ c, s.calls[i]? = some c ∧ c' = c.forget name p := by
  have hcalls : (s.doUnsubscribe name p).calls = s.calls.map (ObserverCall.forget name p) := rfl
  rw [hcalls, List.getElem?_map] at h
  obtain ⟨c, hc, rfl⟩ := Option.map_eq_some_iff.mp h
  exact ⟨c, hc, rfl⟩

theorem forget_kept (name : κ) (p : SbjSubscriberPrx ι) (c : ObserverCall κ ι σ) :
    (c.forget name p).kind = c.kind ∧ (c.forget name p).name = c.name ∧
      (c.forget name p).state = c.state ∧ (c.forget name p).place = c.place := by
  unfold ObserverCall.forget
  split <;> exact ⟨rfl, rfl, rfl, rfl⟩

theorem mem_due_forget {name : κ} {p q : SbjSubscriberPrx ι} {c : ObserverCall κ ι σ} :
    q ∈ (c.forget name p).due ↔ q ∈ c.due ∧ (c.name = name → q ≠ p) := by
  unfold ObserverCall.forget
  split
  · next hname => simp [hname]
  · next hname => simp [hname]

theorem subscribers_doUnsubscribe (s : SubjectObserverI κ ι σ) (name : κ) (p : SbjSubscriberPrx ι)
    (name' : κ) : (s.doUnsubscribe name p).subscribers name' =
      (s.subscribers name').map fun sbjss =>
        if name' = name then sbjss.filter (· ≠ p) else sbjss := by
  unfold SubjectObserverI.doUnsubscribe
  cases hsub : s.subscribers name with
  | none =>
      by_cases hname : name' = name
      · subst hname
        simp [hsub]
      · simp [hname]
  | some old =>
      by_cases hname : name' = name
      · subst hname
        simp [hsub]
      · simp [hname]

/-- A subscriber leaves the topic's list and the topic his. -/
theorem Listed.doUnsubscribe (h : Listed s) (name : κ) (p : SbjSubscriberPrx ι) :
    Listed (s.doUnsubscribe name p) := by
  constructor
  · intro name' sbjss h'
    rw [subscribers_doUnsubscribe] at h'
    obtain ⟨old, hold, rfl⟩ := Option.map_eq_some_iff.mp h'
    have hnodup := h.nodup name' old hold
    split
    · exact hnodup.filter _
    · exact hnodup
  · intro name' sbjss h'
    rw [subscribers_doUnsubscribe] at h'
    obtain ⟨old, hold, -⟩ := Option.map_eq_some_iff.mp h'
    exact h.topic name' old hold
  · exact h.named
  · intro i c' sbjt hc' hheld
    obtain ⟨c, hc, rfl⟩ := calls_doUnsubscribe hc'
    obtain ⟨-, hname, -, hplace⟩ := forget_kept name p c
    rw [hname]
    exact h.held i c sbjt hc (hplace ▸ hheld)
  · intro i c' q hc' hq
    obtain ⟨c, hc, rfl⟩ := calls_doUnsubscribe hc'
    obtain ⟨hqc, hqp⟩ := mem_due_forget.mp hq
    obtain ⟨old, hold, hmem⟩ := h.due i c q hc hqc
    rw [(forget_kept name p c).2.1, subscribers_doUnsubscribe, hold]
    refine ⟨_, rfl, ?_⟩
    split
    · next hname => exact List.mem_filter.mpr ⟨hmem, by simpa using hqp hname⟩
    · exact hmem

omit [DecidableEq ι] in
theorem Listed.putTopic (h : Listed s) (sbjt : SbjTopic κ) : Listed (s.putTopic sbjt) := by
  have htopics : (s.putTopic sbjt).topics = update s.topics sbjt.name (some sbjt) := rfl
  refine ⟨h.nodup, fun name sbjss h' => ?_, fun name sbjt' h' => ?_, h.held, h.due⟩
  · rw [htopics, update_apply]
    split
    · simp
    · exact h.topic name sbjss h'
  · rw [htopics, update_apply] at h'
    split at h'
    · next hname =>
        cases h'
        exact hname.symm
    · exact h.named name sbjt' h'

omit [DecidableEq κ] [DecidableEq ι] in
/-- The calls after one of them has gone to its next place. -/
theorem getElem?_modify_place {calls : List (ObserverCall κ ι σ)} (hc : calls[i]? = some c)
    {place : CallPlace κ ι} {j : ℕ} {d : ObserverCall κ ι σ}
    (h : (calls.modify i fun c => { c with place := place })[j]? = some d) :
    (j = i ∧ d = { c with place := place }) ∨ (j ≠ i ∧ calls[j]? = some d) := by
  by_cases hij : i = j
  · subst hij
    rw [List.getElem?_modify_eq, hc] at h
    cases h
    exact .inl ⟨rfl, rfl⟩
  · rw [List.getElem?_modify_ne _ _ hij] at h
    exact .inr ⟨Ne.symm hij, h⟩

omit [DecidableEq κ] [DecidableEq ι] in
theorem Listed.setPlace (h : Listed s) (hc : s.calls[i]? = some c) (place : CallPlace κ ι)
    (hheld : ∀ sbjt, place.held = some sbjt → sbjt.name = c.name) : Listed (s.setPlace i place) := by
  refine ⟨h.nodup, h.topic, h.named, fun j d sbjt hj hsbjt => ?_, fun j d p hj hp => ?_⟩
  · rcases getElem?_modify_place hc hj with ⟨rfl, rfl⟩ | ⟨-, hold⟩
    · exact hheld sbjt hsbjt
    · exact h.held j d sbjt hold hsbjt
  · rcases getElem?_modify_place hc hj with ⟨rfl, rfl⟩ | ⟨-, hold⟩
    · exact h.due j c p hc hp
    · exact h.due j d p hold hp

/-- A call is one of before, or the new one. -/
theorem getElem?_concat_cases {α : Type*} {l : List α} {a b : α} {j : ℕ}
    (h : (l ++ [a])[j]? = some b) : l[j]? = some b ∨ (j = l.length ∧ b = a) := by
  rcases Nat.lt_or_ge j l.length with hlt | hge
  · exact .inl (by rwa [List.getElem?_append_left hlt] at h)
  · rw [List.getElem?_append_right hge, List.getElem?_singleton] at h
    split at h
    · exact .inr ⟨by omega, (Option.some.inj h).symm⟩
    · cases h

theorem Listed.call (h : Listed s) (kind : CallKind) (name : κ) (state : σ) :
    Listed ((ObserverOp.call kind name state).step s) := by
  refine ⟨h.nodup, h.topic, h.named, fun j c' sbjt hj hsbjt => ?_, fun j c' p hj hp => ?_⟩
  · rcases getElem?_concat_cases hj with hold | ⟨-, rfl⟩
    · exact h.held j c' sbjt hold hsbjt
    · cases hsbjt
  · rcases getElem?_concat_cases hj with hold | ⟨-, rfl⟩
    · exact h.due j c' p hold hp
    · cases hsub : s.subscribers name with
      | none => simp [hsub] at hp
      | some sbjss => exact ⟨sbjss, hsub, by simpa [hsub] using hp⟩

/-! ## The calls of `opera` -/

variable [DecidableEq σ]

/-- A returned call has its calls of `opera`, made or pending, and the others have none yet. -/
structure Counted (calls : List (ObserverCall κ ι σ)) (operas : List (Opera ι σ)) : Prop where
  begun : ∀ o ∈ operas, o.call < calls.length
  returned : ∀ (i : ℕ) c, calls[i]? = some c → (∀ receives, c.place ≠ .returned receives) →
    ∀ o ∈ operas, o.call ≠ i
  notified : ∀ i c receives, calls[i]? = some c → c.kind = .notifyall →
    c.place = .returned receives → ∀ p ∈ c.due, operas.count ⟨i, p, c.state⟩ = 1
  fetched : ∀ (i : ℕ) c receives, calls[i]? = some c → c.kind = .fetch →
    c.place = .returned receives → ∀ p ∈ c.due, receives.count p = 1

omit [DecidableEq κ] in
theorem Counted.perm {calls : List (ObserverCall κ ι σ)} {operas operas' : List (Opera ι σ)}
    (h : Counted calls operas) (hperm : operas'.Perm operas) : Counted calls operas' where
  begun o ho := h.begun o (hperm.mem_iff.mp ho)
  returned i c hc hplace o ho := h.returned i c hc hplace o (hperm.mem_iff.mp ho)
  notified i c receives hc hkind hplace p hp := by
    rw [hperm.count_eq]
    exact h.notified i c receives hc hkind hplace p hp
  fetched := h.fetched

/-- What is not owed any more does not count. -/
theorem Counted.doUnsubscribe (h : Counted s.calls (s.operas ++ s.pending)) (name : κ)
    (p : SbjSubscriberPrx ι) : Counted (s.doUnsubscribe name p).calls (s.operas ++ s.pending) := by
  have hlen : (s.doUnsubscribe name p).calls.length = s.calls.length := List.length_map _
  refine ⟨fun o ho => hlen ▸ h.begun o ho, fun i c' hc' hplace => ?_,
    fun i c' receives hc' hkind hplace q hq => ?_, fun i c' receives hc' hkind hplace q hq => ?_⟩
  all_goals
    obtain ⟨c, hc, rfl⟩ := calls_doUnsubscribe hc'
    obtain ⟨hkind', -, hstate', hplace'⟩ := forget_kept name p c
  · exact h.returned i c hc (hplace' ▸ hplace)
  · rw [hstate']
    exact h.notified i c receives hc (hkind' ▸ hkind) (hplace' ▸ hplace) q (mem_due_forget.mp hq).1
  · exact h.fetched i c receives hc (hkind' ▸ hkind) (hplace' ▸ hplace) q (mem_due_forget.mp hq).1

omit [DecidableEq κ] in
theorem Counted.call {calls : List (ObserverCall κ ι σ)} {operas : List (Opera ι σ)}
    (h : Counted calls operas) {c : ObserverCall κ ι σ} (hc : c.place = .getSbjTopic) :
    Counted (calls ++ [c]) operas := by
  refine ⟨fun o ho => ?_, fun i d hd hplace o ho => ?_, fun i d receives hd hkind hplace => ?_,
    fun i d receives hd hkind hplace => ?_⟩
  · rw [List.length_append]
    exact Nat.lt_add_right 1 (h.begun o ho)
  · rcases getElem?_concat_cases hd with hold | ⟨rfl, rfl⟩
    · exact h.returned i d hold hplace o ho
    · exact Nat.ne_of_lt (h.begun o ho)
  · rcases getElem?_concat_cases hd with hold | ⟨-, rfl⟩
    · exact h.notified i d receives hold hkind hplace
    · rw [hc] at hplace
      cases hplace
  · rcases getElem?_concat_cases hd with hold | ⟨-, rfl⟩
    · exact h.fetched i d receives hold hkind hplace
    · rw [hc] at hplace
      cases hplace

omit [DecidableEq κ] in
/-- A call goes to its next place, and makes calls of `opera` if it returns there: one to each to whom
it owes its state. -/
theorem Counted.modify {calls : List (ObserverCall κ ι σ)} {operas : List (Opera ι σ)}
    (h : Counted calls operas) (hc : calls[i]? = some c) (hactive : ∀ r, c.place ≠ .returned r)
    (place : CallPlace κ ι) {told : List (SbjSubscriberPrx ι)} (htold : told.Nodup)
    (hstay : (∀ r, place ≠ .returned r) → told = [])
    (hreturn : ∀ r, place = .returned r → c.due ⊆ told ∧ (c.kind = .fetch → r = told)) :
    Counted (calls.modify i fun c => { c with place := place })
      (operas ++ told.map fun p => ⟨i, p, c.state⟩) := by
  have hi : i < calls.length := (List.getElem?_eq_some_iff.mp hc).1
  have hnew (o : Opera ι σ) (ho : o ∈ told.map fun p => ⟨i, p, c.state⟩) : o.call = i := by
    obtain ⟨p, -, rfl⟩ := List.mem_map.mp ho
    rfl
  have hone (r : List (SbjSubscriberPrx ι)) (hr : place = .returned r) (p : SbjSubscriberPrx ι)
      (hp : p ∈ c.due) : told.count p = 1 :=
    List.count_eq_one_of_mem htold ((hreturn r hr).1 hp)
  refine ⟨fun o ho => ?_, fun j d hd hplace o ho => ?_, fun j d receives hd hkind hplace p hp => ?_,
    fun j d receives hd hkind hplace p hp => ?_⟩
  · rw [List.length_modify]
    rcases List.mem_append.mp ho with ho | ho
    · exact h.begun o ho
    · exact hnew o ho ▸ hi
  · rcases getElem?_modify_place hc hd with ⟨rfl, rfl⟩ | ⟨hji, hold⟩
    · rw [hstay hplace, List.map_nil, List.append_nil] at ho
      exact h.returned j c hc hactive o ho
    · rcases List.mem_append.mp ho with ho | ho
      · exact h.returned j d hold hplace o ho
      · exact hnew o ho ▸ hji.symm
  · rw [List.count_append]
    rcases getElem?_modify_place hc hd with ⟨rfl, rfl⟩ | ⟨hji, hold⟩
    · have hzero : operas.count ⟨j, p, c.state⟩ = 0 :=
        List.count_eq_zero.mpr fun hmem => h.returned j c hc hactive _ hmem rfl
      have hinj : Injective fun p : SbjSubscriberPrx ι => (⟨j, p, c.state⟩ : Opera ι σ) :=
        fun p q hpq => congrArg Opera.subscriber hpq
      rw [hzero, Nat.zero_add, List.count_map_of_injective told _ hinj]
      exact hone receives hplace p hp
    · have hzero : (told.map fun p => (⟨i, p, c.state⟩ : Opera ι σ)).count ⟨j, p, d.state⟩ = 0 :=
        List.count_eq_zero.mpr fun hmem => hji (hnew _ hmem)
      rw [hzero, Nat.add_zero]
      exact h.notified j d receives hold hkind hplace p hp
  · rcases getElem?_modify_place hc hd with ⟨rfl, rfl⟩ | ⟨-, hold⟩
    · rw [(hreturn receives hplace).2 hkind]
      exact hone receives hplace p hp
    · exact h.fetched j d receives hold hkind hplace p hp

/-! ## One step -/

omit [DecidableEq ι] [DecidableEq σ] in
/-- An update adds a task if there is somebody to tell. -/
theorem update_eq (s : SubjectObserverI κ ι σ) (i : ℕ) (sbjt : SbjTopic κ) (state : σ) :
    s.update i sbjt state = { s.putTopic sbjt with
      tasks := s.tasks ++ ((s.told sbjt).map fun sbjss => ⟨i, sbjt, sbjss, state⟩).toList } := by
  unfold SubjectObserverI.update
  cases s.told sbjt with
  | none => simp [SubjectObserverI.putTopic]
  | some sbjss => rfl

omit [DecidableEq σ] in
/-- When nobody fails, everybody who is told is called once and answers. -/
theorem get_answered (s : SubjectObserverI κ ι σ) (i : ℕ) (sbjt : SbjTopic κ) (state : σ)
    (again : List (SbjSubscriberPrx ι)) :
    s.get i sbjt state [] again = ((s.told sbjt).getD [], { s.putTopic sbjt with
      operas := s.operas ++ ((s.told sbjt).getD []).map fun p => ⟨i, p, state⟩ }) := by
  unfold SubjectObserverI.get
  cases s.told sbjt with
  | none => simp [SubjectObserverI.putTopic]
  | some sbjss => simp

/-- What is left of a call that has put its topic. -/
structure Put (s s' : SubjectObserverI κ ι σ) (i : ℕ) (c : ObserverCall κ ι σ) (sbjt : SbjTopic κ)
    (receives : List (SbjSubscriberPrx ι)) : Prop where
  topics : s'.topics = (s.putTopic sbjt).topics
  subscribers : s'.subscribers = s.subscribers
  calls : s'.calls = s.calls.modify i fun c => { c with place := .returned receives }
  fetched : c.kind = .fetch → receives = (s.told sbjt).getD []
  operas : (s'.operas ++ s'.pending).Perm
    ((s.operas ++ s.pending) ++ ((s.told sbjt).getD []).map fun p => ⟨i, p, c.state⟩)

omit [DecidableEq σ] in
/-- A call stores its topic. -/
theorem callStep_put {sbjt : SbjTopic κ} (hplace : c.place = .put sbjt)
    (again : List (SbjSubscriberPrx ι)) :
    ∃ receives, Put s (s.callStep i c [] again) i c sbjt receives := by
  unfold SubjectObserverI.callStep
  cases hkind : c.kind with
  | notifyall =>
      simp only [hplace, update_eq]
      refine ⟨[], rfl, rfl, rfl, fun h => absurd (hkind.symm.trans h) (by decide), ?_⟩
      have hnew (told : Option (List (SbjSubscriberPrx ι))) :
          (told.map fun sbjss => (⟨i, sbjt, sbjss, c.state⟩ : NotifyTask κ ι σ)).toList.flatMap
            NotifyTask.operas = (told.getD []).map fun p => ⟨i, p, c.state⟩ := by
        cases told <;> simp [NotifyTask.operas]
      simp only [SubjectObserverI.setPlace, SubjectObserverI.pending, List.flatMap_append, hnew,
        SubjectObserverI.putTopic, List.append_assoc]
      exact .refl _
  | fetch =>
      simp only [hplace, get_answered]
      refine ⟨(s.told sbjt).getD [], rfl, rfl, rfl, fun _ => rfl, ?_⟩
      simp only [SubjectObserverI.setPlace, SubjectObserverI.pending, SubjectObserverI.putTopic,
        List.append_assoc]
      exact List.perm_append_comm.append_left s.operas

omit [DecidableEq κ] [DecidableEq ι] [DecidableEq σ] in
theorem told_nodup (h : Listed s) (sbjt : SbjTopic κ) : ((s.told sbjt).getD []).Nodup := by
  unfold SubjectObserverI.told
  split
  · cases hsub : s.subscribers sbjt.name with
    | none => exact List.nodup_nil
    | some sbjss => exact h.nodup _ _ hsub
  · exact List.nodup_nil

omit [DecidableEq κ] [DecidableEq ι] [DecidableEq σ] in
/-- A call that passes tells everybody to whom it owes its state. -/
theorem due_subset_told (h : Listed s) (hc : s.calls[i]? = some c) {sbjt : SbjTopic κ}
    (hplace : c.place = .put sbjt) (hpasses : c.due = [] ∨ s.isEarlier sbjt = true) :
    c.due ⊆ (s.told sbjt).getD [] := by
  intro p hp
  rcases hpasses with hnil | hearlier
  · simp [hnil] at hp
  · obtain ⟨sbjss, hsub, hmem⟩ := h.due i c p hc hp
    have hname := h.held i c sbjt hc (by rw [hplace]; rfl)
    rw [SubjectObserverI.told, if_pos hearlier, hname, hsub]
    exact hmem

omit [DecidableEq κ] in
theorem counted_nil : Counted ([] : List (ObserverCall κ ι σ)) [] where
  begun _ ho := by cases ho
  returned _ _ hc := by cases hc
  notified _ _ _ hc := by cases hc
  fetched _ _ _ hc := by cases hc

/-- The invariant. -/
structure Sound (s : SubjectObserverI κ ι σ) : Prop where
  listed : Listed s
  counted : Counted s.calls (s.operas ++ s.pending)

omit [DecidableEq κ] in
theorem sound_new (clock : ℤ) : Sound (SubjectObserverI.new clock : SubjectObserverI κ ι σ) where
  listed := listed_new clock
  counted := counted_nil

omit [DecidableEq κ] in
/-- A call that does not return goes on, and one that owes nothing returns without more. -/
theorem Sound.setPlace (h : Sound s) (hc : s.calls[i]? = some c)
    (hactive : ∀ r, c.place ≠ .returned r) {place : CallPlace κ ι}
    (hheld : ∀ sbjt, place.held = some sbjt → sbjt.name = c.name)
    (hreturn : ∀ r, place = .returned r → c.due = [] ∧ r = []) : Sound (s.setPlace i place) := by
  have hcounted := h.counted.modify hc hactive place List.nodup_nil (fun _ => rfl)
    fun r hr => ⟨by simp [(hreturn r hr).1], fun _ => (hreturn r hr).2⟩
  rw [List.map_nil, List.append_nil] at hcounted
  exact ⟨h.listed.setPlace hc place hheld, hcounted⟩

/-- One step of a call tells nobody twice. -/
theorem Sound.callStep (h : Sound s) (hc : s.calls[i]? = some c)
    (hpasses : ∀ sbjt, c.place = .put sbjt → c.due = [] ∨ s.isEarlier sbjt = true)
    (again : List (SbjSubscriberPrx ι)) : Sound (s.callStep i c [] again) := by
  cases hplace : c.place with
  | getSbjTopic =>
      unfold SubjectObserverI.callStep
      rw [hplace]
      cases htopic : s.topics c.name with
      | none =>
          -- without a topic there is nobody to be told
          have hdue : c.due = [] := List.eq_nil_iff_forall_not_mem.mpr fun p hp => by
            obtain ⟨sbjss, hsub, -⟩ := h.listed.due i c p hc hp
            exact h.listed.topic _ _ hsub htopic
          exact h.setPlace hc (by simp [hplace]) (fun _ hsbjt => by cases hsbjt)
            fun r hr => ⟨hdue, by cases hr; rfl⟩
      | some oldTopic =>
          refine h.setPlace hc (by simp [hplace]) (fun sbjt hsbjt => ?_) fun r hr => by cases hr
          cases hsbjt
          exact h.listed.named _ _ htopic
  | time sbjt =>
      unfold SubjectObserverI.callStep
      rw [hplace]
      refine h.setPlace hc (by simp [hplace]) (fun sbjt' hsbjt => ?_) fun r hr => by cases hr
      cases hsbjt
      exact h.listed.held i c sbjt hc (by rw [hplace]; rfl)
  | put sbjt =>
      obtain ⟨receives, hput⟩ := callStep_put (s := s) (i := i) hplace again
      constructor
      · have hlisted := (h.listed.putTopic sbjt).setPlace hc (.returned receives)
          fun sbjt' hsbjt => by cases hsbjt
        exact hlisted.congr hput.topics hput.subscribers hput.calls
      · have hdue := due_subset_told h.listed hc hplace (hpasses sbjt hplace)
        have hcounted := h.counted.modify hc (by simp [hplace]) (.returned receives)
          (told_nodup h.listed sbjt) (fun hstay => absurd rfl (hstay receives))
          fun r hr => ⟨hdue, fun hkind => by cases hr; exact hput.fetched hkind⟩
        rw [hput.calls]
        exact hcounted.perm hput.operas
  | returned receives =>
      unfold SubjectObserverI.callStep
      rw [hplace]
      exact h

/-- A step tells nobody twice. -/
theorem Sound.step (h : Sound s) {op : ObserverOp κ ι σ} (hop : op.Answered) (hpasses : op.Passes s) :
    Sound (op.step s) := by
  cases op with
  | tick seconds => exact ⟨h.listed.congr rfl rfl rfl, h.counted⟩
  | subscribe name p => exact ⟨h.listed.subscribe name p, h.counted⟩
  | unsubscribe name p => exact ⟨h.listed.doUnsubscribe name p, h.counted.doUnsubscribe name p⟩
  | call kind name state => exact ⟨h.listed.call kind name state, h.counted.call rfl⟩
  | resume i failing again =>
      cases hop
      cases hc : s.calls[i]? with
      | none => simpa only [ObserverOp.step, hc] using h
      | some c =>
          simp only [ObserverOp.step, hc]
          refine h.callStep hc (fun sbjt hplace => ?_) again
          simpa only [ObserverOp.Passes, hc, hplace] using hpasses
  | handle task fails =>
      cases hop
      obtain ⟨htopics, hsubs, hcalls⟩ := handle_kept s task
      refine ⟨h.listed.congr htopics hsubs hcalls, ?_⟩
      have hcounted := h.counted.perm (handle_perm s task)
      rw [← hcalls] at hcounted
      exact hcounted

theorem Sound.reaches (h : Sound s) : s.Reaches where
  finishes := exists_finishes s
  notified i c receives hc hkind hplace later hlater hpending p hp := by
    rw [count_later hlater hpending]
    exact h.counted.notified i c receives hc hkind hplace p hp
  fetched := h.counted.fetched

/-- A call that does not pass tells nobody. -/
theorem passes_of_reaches (h : Sound s) {op : ObserverOp κ ι σ} (hop : op.Answered)
    (hreaches : (op.step s).Reaches) : op.Passes s := by
  cases op with
  | resume i failing again =>
      cases hop
      cases hc : s.calls[i]? with
      | none => simp only [ObserverOp.Passes, hc]
      | some c =>
          simp only [ObserverOp.step, hc] at hreaches
          simp only [ObserverOp.Passes, hc]
          cases hplace : c.place with
          | put sbjt =>
              by_contra hlost
              obtain ⟨hdue, hearlier⟩ := not_or.mp hlost
              obtain ⟨p, hp⟩ := List.exists_mem_of_ne_nil _ hdue
              obtain ⟨receives, hput⟩ := callStep_put (s := s) (i := i) hplace again
              have htold : (s.told sbjt).getD [] = [] := by
                rw [SubjectObserverI.told, if_neg hearlier, Option.getD_none]
              have hafter : (s.callStep i c [] again).calls[i]? =
                  some { c with place := .returned receives } := by
                rw [hput.calls, List.getElem?_modify_eq, hc]
                rfl
              cases hkind : c.kind with
              | notifyall =>
                  obtain ⟨later, hlater, hpending⟩ := hreaches.finishes
                  have hone := hreaches.notified i _ receives hafter hkind rfl later hlater hpending
                    p hp
                  have hzero : (s.operas ++ s.pending).count ⟨i, p, c.state⟩ = 0 :=
                    List.count_eq_zero.mpr fun hmem =>
                      h.counted.returned i c hc (by simp [hplace]) _ hmem rfl
                  have hoperas := hput.operas
                  rw [htold, List.map_nil, List.append_nil] at hoperas
                  rw [count_later hlater hpending, hoperas.count_eq, hzero] at hone
                  cases hone
              | fetch =>
                  have hone := hreaches.fetched i _ receives hafter hkind rfl p hp
                  rw [hput.fetched hkind, htold, List.count_nil] at hone
                  cases hone
          | _ => trivial
  | _ => trivial

/-! ## Every run -/

/-- **The notifications.** In a run in which nobody fails, the law holds in every state if and only if
each call that owes its state to somebody finds an earlier topic. -/
theorem reaches_iff_passes (clock : ℤ) {ops : List (ObserverOp κ ι σ)}
    (hops : ∀ op ∈ ops, op.Answered) :
    (∀ k, (runOps ObserverOp.step (SubjectObserverI.new clock) (ops.take k)).Reaches) ↔
      StepsMeet ObserverOp.step (fun s op => op.Passes s) (SubjectObserverI.new clock) ops :=
  @forall_take_iff_stepsMeet_of _ _ ObserverOp.step (fun s op => op.Passes s) Sound
    SubjectObserverI.Reaches ObserverOp.Answered (fun _ h => h.reaches)
    (fun _ _ hop h hpasses => h.step hop hpasses)
    (fun _ _ hop h hreaches => passes_of_reaches h hop hreaches) _ (sound_new clock) ops hops

/-- Two notifications, so many seconds apart. -/
def notifiedTwice (seconds : ℕ) : List (ObserverOp ℕ ℕ ℕ) :=
  [.subscribe 1 ⟨7, some 50⟩, .tick 1, .call .notifyall 1 100, .resume 0 [] [], .resume 0 [] [],
    .resume 0 [] [], .tick seconds, .call .notifyall 1 200, .resume 1 [] [], .resume 1 [] [],
    .resume 1 [] [], .handle 0 false, .handle 1 false]

/-- A second apart, both reach the subscriber. -/
theorem reaches_iff_passes_apart : (∀ op ∈ notifiedTwice 1, op.Answered) ∧
    ∀ k, (runOps ObserverOp.step (SubjectObserverI.new 0) ((notifiedTwice 1).take k)).Reaches := by
  have hops : ∀ op ∈ notifiedTwice 1, op.Answered := by decide
  exact ⟨hops, (reaches_iff_passes 0 hops).mpr (by decide)⟩

/-- In the same second, the subscriber is never told of the second one. -/
theorem second_notification_lost : (∀ op ∈ notifiedTwice 0, op.Answered) ∧
    ¬ ∀ k, (runOps ObserverOp.step (SubjectObserverI.new 0) ((notifiedTwice 0).take k)).Reaches := by
  refine ⟨by decide, fun h => ?_⟩
  have hone := (h 13).notified 1 ⟨.notifyall, 1, 200, .returned [], [⟨7, some 50⟩]⟩ [] rfl rfl rfl []
    (by simp) rfl ⟨7, some 50⟩ (by simp)
  revert hone
  decide

end Oce.SubjectObserver
