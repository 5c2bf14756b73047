import Oce.IceExt.Model.SyncServantFactory

/-!
# One create for all that wait

`Inv` says what the map, the requests, the tasks and the calls know of each other: an entry of the
map leads to a request whose count is the number of the calls in it, and there is one for every
call that waits and every task that is under way. So a call finds the request that it was counted
in whenever it looks, and two creates for ids with the same key are the same create. What a call
returns was made for the id of its request, which is its own if no two ids share a key.
-/

set_option autoImplicit false

namespace Oce.IceExt.SyncServantFactory

open Function Oce.Base

variable {O : Type*}

/-- The calls that wait for a request. -/
def waiting (callers : List (Caller O)) (q : ℕ) : ℕ :=
  callers.countP fun c => c.waits && decide (c.request = q)

section Waiting

variable {callers : List (Caller O)} {c c' : Caller O} {i q : ℕ}

theorem waiting_append (c : Caller O) (q : ℕ) :
    waiting (callers ++ [c]) q = waiting callers q + waiting [c] q := List.countP_append

theorem waiting_singleton (hc : c.waits = true) (q : ℕ) :
    waiting [c] q = if c.request = q then 1 else 0 := by
  unfold waiting
  rw [List.countP_cons, List.countP_nil, hc, Bool.true_and, Nat.zero_add]
  by_cases hq : c.request = q
  · rw [if_pos hq, decide_eq_true hq, if_pos rfl]
  · rw [if_neg hq, decide_eq_false hq, if_neg Bool.false_ne_true]

theorem waiting_singleton_of_not (hc : c.waits = false) (q : ℕ) : waiting [c] q = 0 := by
  unfold waiting
  rw [List.countP_cons, List.countP_nil, hc, Bool.false_and]
  rfl

/-- One call is in another place. -/
theorem waiting_set (h : callers[i]? = some c) (c' : Caller O) (q : ℕ) :
    waiting (callers.set i c') q + waiting [c] q = waiting callers q + waiting [c'] q := by
  obtain ⟨hi, hc⟩ := List.getElem?_eq_some_iff.mp h
  unfold waiting
  rw [List.countP_set hi, hc, List.countP_singleton, List.countP_singleton]
  by_cases hp : (c.waits && decide (c.request = q)) = true
  · have hpos : 0 < callers.countP fun c => c.waits && decide (c.request = q) :=
      List.countP_pos_iff.mpr ⟨c, List.mem_of_getElem? h, hp⟩
    rw [if_pos hp]
    omega
  · rw [if_neg hp]
    omega

theorem waiting_map_notify (q : ℕ) : waiting (callers.map State.notify) q = waiting callers q := by
  unfold waiting
  rw [List.countP_map]
  refine congrFun (congrArg _ (funext fun c => ?_)) _
  obtain ⟨id, r, place⟩ := c
  cases place with
  | awake => rfl
  | asleep => rfl
  | returned o => rfl

theorem waiting_pos (hc : c ∈ callers) (hw : c.waits = true) : 0 < waiting callers c.request :=
  List.countP_pos_iff.mpr ⟨c, hc, by rw [hw, decide_eq_true rfl]; rfl⟩

theorem exists_of_waiting_pos (h : 0 < waiting callers q) :
    ∃ c ∈ callers, c.waits = true ∧ c.request = q := by
  obtain ⟨c, hc, hp⟩ := List.countP_pos_iff.mp h
  obtain ⟨hw, hq⟩ := Bool.and_eq_true_iff.mp hp
  exact ⟨c, hc, hw, of_decide_eq_true hq⟩

end Waiting

namespace State

variable {s : State O} {c : Caller O}

/-! ## The invariant -/

/-- What an entry of the map says. -/
structure Entry (s : State O) (k q : ℕ) : Prop where
  old : q < s.next
  key : requestKey (s.requests q).id = k
  count : (s.requests q).count = waiting s.callers q
  needed : 0 < waiting s.callers q

/-- What is known of a call. -/
structure Known (s : State O) (c : Caller O) : Prop where
  old : c.request < s.next
  key : requestKey (s.requests c.request).id = requestKey c.id
  entry : c.waits = true → s.requestMap (requestKey c.id) = some c.request
  asleep : c.place = .asleep → (s.requests c.request).finished = false
  returned : ∀ o, c.place = .returned o → ((s.requests c.request).id, o) ∈ s.made

/-- What is known of a request and its task. -/
structure Task (s : State O) (q : ℕ) (t : CreateTask) : Prop where
  task : s.tasks q = some t
  finished : (s.requests q).finished = true ↔ t = .done
  entry : t ≠ .done → s.requestMap (requestKey (s.requests q).id) = some q
  made : t = .created ∨ t = .done → ((s.requests q).id, (s.requests q).object) ∈ s.made

structure Inv (s : State O) : Prop where
  entry : ∀ k q, s.requestMap k = some q → Entry s k q
  known : ∀ c ∈ s.callers, Known s c
  task : ∀ q, q < s.next → ∃ t, Task s q t
  fresh : ∀ q, s.next ≤ q → s.tasks q = none

theorem inv_new : Inv (new : State O) where
  entry _ _ h := nomatch h
  known _ h := nomatch h
  task _ h := absurd h (Nat.not_lt_zero _)
  fresh _ _ := rfl

/-! ## One event -/

section Events

variable {s' : State O} {q : ℕ} {t : CreateTask}

/-- What is known of a call stays known when its request keeps what the call needs. -/
theorem Known.imp (h : Known s c) (hnext : s.next ≤ s'.next)
    (hid : (s'.requests c.request).id = (s.requests c.request).id)
    (hentry : c.waits = true → s.requestMap (requestKey c.id) = some c.request →
      s'.requestMap (requestKey c.id) = some c.request)
    (hfinished : c.place = .asleep →
      (s'.requests c.request).finished = (s.requests c.request).finished)
    (hmade : s.made ⊆ s'.made) : Known s' c where
  old := lt_of_lt_of_le h.old hnext
  key := by rw [hid, h.key]
  entry hw := hentry hw (h.entry hw)
  asleep hp := by rw [hfinished hp, h.asleep hp]
  returned o ho := by
    rw [hid]
    exact hmade (h.returned o ho)

theorem Task.imp (h : Task s q t) (htask : s'.tasks q = s.tasks q)
    (hid : (s'.requests q).id = (s.requests q).id)
    (hfinished : (s'.requests q).finished = (s.requests q).finished)
    (hobject : (s'.requests q).object = (s.requests q).object)
    (hentry : t ≠ .done → s.requestMap (requestKey (s.requests q).id) = some q →
      s'.requestMap (requestKey (s.requests q).id) = some q)
    (hmade : s.made ⊆ s'.made) : Task s' q t where
  task := by rw [htask, h.task]
  finished := by rw [hfinished, h.finished]
  entry ht := by
    rw [hid]
    exact hentry ht (h.entry ht)
  made ht := by
    rw [hid, hobject]
    exact hmade (h.made ht)

theorem Inv.lt_of_task (h : Inv s) (hq : s.tasks q = some t) : q < s.next := by
  by_contra hn
  rw [h.fresh q (Nat.le_of_not_lt hn)] at hq
  cases hq

theorem Inv.task_of (h : Inv s) (hq : s.tasks q = some t) : Task s q t := by
  obtain ⟨t', ht'⟩ := h.task q (h.lt_of_task hq)
  have htask := ht'.task
  rw [hq] at htask
  cases htask
  exact ht'

/-- What a new request has in common with the old one it has in common at every number. -/
theorem update_request {β : Type*} (f : Request O → β) {r : Request O} (hr : f r = f (s.requests q))
    (p : ℕ) : f (update s.requests q r p) = f (s.requests p) := by
  by_cases hp : p = q
  · rw [hp, update_self, hr]
  · rw [update_of_ne hp]

/-- A request in which only the count is another one. -/
theorem update_count (s : State O) (q : ℕ) (n : ℤ) (p : ℕ) :
    let r := update s.requests q
      ⟨(s.requests q).finished, n, (s.requests q).id, (s.requests q).object⟩ p
    r.id = (s.requests p).id ∧ r.finished = (s.requests p).finished ∧
      r.object = (s.requests p).object :=
  ⟨update_request Request.id (by rfl) p, update_request Request.finished (by rfl) p,
    update_request Request.object (by rfl) p⟩

/-- A request with an object. -/
theorem update_object (s : State O) (q : ℕ) (object : Option O) (p : ℕ) :
    let r := update s.requests q
      ⟨(s.requests q).finished, (s.requests q).count, (s.requests q).id, object⟩ p
    r.id = (s.requests p).id ∧ r.finished = (s.requests p).finished ∧
      r.count = (s.requests p).count :=
  ⟨update_request Request.id (by rfl) p, update_request Request.finished (by rfl) p,
    update_request Request.count (by rfl) p⟩

/-- A request that is finished. -/
theorem update_finished (s : State O) (q p : ℕ) :
    let r := update s.requests q
      ⟨true, (s.requests q).count, (s.requests q).id, (s.requests q).object⟩ p
    r.id = (s.requests p).id ∧ r.object = (s.requests p).object ∧
      r.count = (s.requests p).count :=
  ⟨update_request Request.id (by rfl) p, update_request Request.object (by rfl) p,
    update_request Request.count (by rfl) p⟩

/-- A call after its first step, in front of the loop. -/
def begun (s : State O) (id : ℤ) : State O :=
  let joined := s.join id
  { joined.2 with callers := joined.2.callers ++ [⟨id, joined.1, .awake⟩] }

theorem callers_join (s : State O) (id : ℤ) : (s.join id).2.callers = s.callers := by
  unfold join
  cases s.requestMap (requestKey id) with
  | none => rfl
  | some q => rfl

/-- A call begins like one that has been woken up. -/
theorem create_eq_resume (s : State O) (id : ℤ) :
    s.create id = (s.begun id).resume s.callers.length := by
  have hget : (s.begun id).callers[s.callers.length]? = some ⟨id, (s.join id).1, .awake⟩ := by
    show ((s.join id).2.callers ++ [_])[s.callers.length]? = _
    rw [callers_join, List.getElem?_concat_length]
  unfold resume
  rw [hget]
  dsimp only
  unfold create begun look
  dsimp only
  cases (s.join id).2.requestMap (requestKey id) with
  | none =>
      dsimp only
      rw [callers_join, List.set_append_right _ _ (Nat.le_refl _), Nat.sub_self]
      rfl
  | some q =>
      dsimp only
      by_cases hf : ((s.join id).2.requests q).finished = true
      · rw [if_pos hf, if_pos hf]
        dsimp only
        rw [callers_join, List.set_append_right _ _ (Nat.le_refl _), Nat.sub_self]
        rfl
      · rw [if_neg hf, if_neg hf]
        dsimp only
        rw [callers_join, List.set_append_right _ _ (Nat.le_refl _), Nat.sub_self]
        rfl

/-- A call joins the request of its key. -/
theorem Inv.begun_some (h : Inv s) {id : ℤ} (hmap : s.requestMap (requestKey id) = some q) :
    Inv (s.begun id) := by
  unfold State.begun join
  rw [hmap]
  have hq := h.entry _ q hmap
  dsimp only
  refine ⟨fun k p hp => ?_, fun c hc => ?_, fun p hp => ?_, h.fresh⟩
  · have he := h.entry k p hp
    refine ⟨he.old, ?_, ?_, ?_⟩
    · dsimp only
      rw [(update_count s q _ _).1]
      exact he.key
    · dsimp only
      rw [waiting_append, waiting_singleton rfl]
      by_cases hpq : p = q
      · rw [hpq, update_self, if_pos rfl, hq.count]
        rfl
      · rw [update_of_ne hpq, if_neg fun hqp => hpq hqp.symm, he.count]
        rfl
    · dsimp only
      rw [waiting_append]
      exact Nat.add_pos_left he.needed _
  · rcases List.mem_append.mp hc with hc | hc
    · exact (h.known c hc).imp (Nat.le_refl _) (update_count s q _ _).1 (fun _ he => he)
        (fun _ => (update_count s q _ _).2.1) (List.Subset.refl _)
    · rw [List.mem_singleton.mp hc]
      refine ⟨hq.old, ?_, fun _ => hmap, nofun, nofun⟩
      dsimp only
      rw [(update_count s q _ _).1]
      exact hq.key
  · obtain ⟨t, ht⟩ := h.task p hp
    exact ⟨t, ht.imp rfl (update_count s q _ _).1 ((update_count s q _ _).2.1)
      ((update_count s q _ _).2.2) (fun _ he => he) (List.Subset.refl _)⟩

/-- A call whose key has no request makes one. -/
theorem Inv.begun_none (h : Inv s) {id : ℤ} (hmap : s.requestMap (requestKey id) = none) :
    Inv (s.begun id) := by
  unfold State.begun join
  rw [hmap]
  dsimp only
  -- no call and no entry knows the number of the new request
  have hother : ∀ p, p < s.next → update s.requests s.next ⟨false, 1, id, none⟩ p =
      s.requests p := fun p hp => update_of_ne (Nat.ne_of_lt hp) _ _
  have hnone : waiting s.callers s.next = 0 := by
    refine Nat.eq_zero_of_not_pos fun hpos => ?_
    obtain ⟨c, hc, -, hreq⟩ := exists_of_waiting_pos hpos
    exact absurd (h.known c hc).old (by omega)
  have hkeep : ∀ k p, s.requestMap k = some p →
      update s.requestMap (requestKey id) (some s.next) k = some p := by
    intro k p hp
    rw [update_of_ne, hp]
    rintro rfl
    rw [hmap] at hp
    cases hp
  refine ⟨fun k p hp => ?_, fun c hc => ?_, fun p hp => ?_, fun p hp => ?_⟩
  · by_cases hk : k = requestKey id
    · subst hk
      dsimp only at hp
      rw [update_self] at hp
      cases hp
      refine ⟨Nat.lt_succ_self _, ?_, ?_, ?_⟩
      · dsimp only
        rw [update_self]
      · dsimp only
        rw [update_self, waiting_append, hnone, waiting_singleton rfl, if_pos rfl]
        rfl
      · dsimp only
        rw [waiting_append, waiting_singleton rfl, if_pos rfl]
        exact Nat.succ_pos _
    · dsimp only at hp
      rw [update_of_ne hk] at hp
      have he := h.entry k p hp
      refine ⟨Nat.lt_succ_of_lt he.old, ?_, ?_, ?_⟩
      · dsimp only
        rw [hother p he.old]
        exact he.key
      · dsimp only
        rw [hother p he.old, waiting_append, waiting_singleton rfl,
          if_neg (Nat.ne_of_gt he.old), Nat.add_zero]
        exact he.count
      · dsimp only
        rw [waiting_append]
        exact Nat.add_pos_left he.needed _
  · rcases List.mem_append.mp hc with hc | hc
    · have hold := (h.known c hc).old
      exact (h.known c hc).imp (Nat.le_succ _) (congrArg Request.id (hother _ hold))
        (fun _ he => hkeep _ _ he) (fun _ => congrArg Request.finished (hother _ hold))
        (List.Subset.refl _)
    · rw [List.mem_singleton.mp hc]
      refine ⟨Nat.lt_succ_self _, ?_, fun _ => update_self _ _ _, nofun, nofun⟩
      dsimp only
      rw [update_self]
  · by_cases hnext : p = s.next
    · subst hnext
      refine ⟨.queued, update_self _ _ _, ?_, fun _ => ?_, ?_⟩
      · dsimp only
        rw [update_self]
        exact ⟨nofun, nofun⟩
      · dsimp only
        rw [update_self]
        exact update_self _ _ _
      · rintro (ht | ht) <;> cases ht
    · have hlt : p < s.next := Nat.lt_of_le_of_ne (Nat.le_of_lt_succ hp) hnext
      obtain ⟨t, ht⟩ := h.task p hlt
      exact ⟨t, ht.imp (update_of_ne hnext _ _) (congrArg Request.id (hother p hlt))
        (congrArg Request.finished (hother p hlt)) (congrArg Request.object (hother p hlt))
        (fun _ he => hkeep _ _ he) (List.Subset.refl _)⟩
  · have hne : p ≠ s.next := fun he => absurd hp (by rw [he]; exact Nat.not_succ_le_self _)
    show update s.tasks s.next (some .queued) p = none
    rw [update_of_ne hne]
    exact h.fresh p (Nat.le_of_succ_le hp)

/-- **A call is counted in the request that the map leads to.** -/
theorem Inv.begun (h : Inv s) (id : ℤ) : Inv (s.begun id) := by
  cases hmap : s.requestMap (requestKey id) with
  | some q => exact h.begun_some hmap
  | none => exact h.begun_none hmap

theorem known_set {i : ℕ} {c' : Caller O} (hknown : ∀ d ∈ s.callers, Known s' d) (hc' : Known s' c') :
    ∀ d ∈ s.callers.set i c', Known s' d := by
  intro d hd
  rcases List.mem_or_eq_of_mem_set hd with hd | hd
  · exact hknown d hd
  · rw [hd]
    exact hc'

/-- A call that goes on waiting in another place, and nothing else. -/
theorem Inv.move (h : Inv s) {i : ℕ} (hi : s.callers[i]? = some c) {c' : Caller O}
    (hreq : c'.request = c.request) (hw : c.waits = true) (hw' : c'.waits = true)
    (hc' : Known s c') : Inv { s with callers := s.callers.set i c' } := by
  have hwaiting : ∀ q, waiting (s.callers.set i c') q = waiting s.callers q := by
    intro q
    have hset := waiting_set hi c' q
    rw [waiting_singleton hw, waiting_singleton hw', hreq] at hset
    exact Nat.add_right_cancel hset
  refine ⟨fun k q hq => ?_, ?_, fun q hq => ?_, h.fresh⟩
  · have he := h.entry k q hq
    refine ⟨he.old, he.key, ?_, ?_⟩
    · dsimp only
      rw [hwaiting]
      exact he.count
    · dsimp only
      rw [hwaiting]
      exact he.needed
  · intro d hd
    have hkeep : ∀ d, Known s d → Known { s with callers := s.callers.set i c' } d := fun d hd =>
      hd.imp (Nat.le_refl _) rfl (fun _ he => he) (fun _ => rfl) (List.Subset.refl _)
    exact known_set (fun d hd => hkeep d (h.known d hd)) (hkeep c' hc') d hd
  · obtain ⟨t, ht⟩ := h.task q hq
    exact ⟨t, ht.imp rfl rfl rfl rfl (fun _ he => he) (List.Subset.refl _)⟩

/-- The map after a call has left the request `q`: the last one takes its entry away. -/
def unmapped (s : State O) (q : ℕ) : ℕ → Option ℕ :=
  if (s.requests q).count - 1 ≤ 0 then
    update s.requestMap (requestKey (s.requests q).id) none
  else s.requestMap

/-- An entry stays as long as another call waits for its request. -/
theorem unmapped_stays {k p n : ℕ} (hq : s.requestMap (requestKey (s.requests q).id) = some q)
    (hcount : (s.requests q).count = n + 1) (hp : s.requestMap k = some p)
    (hpos : p = q → 0 < n) : s.unmapped q k = some p := by
  unfold unmapped
  by_cases hlast : (s.requests q).count - 1 ≤ 0
  · rw [if_pos hlast, update_of_ne, hp]
    rintro rfl
    rw [hq] at hp
    cases hp
    have := hpos rfl
    omega
  · rw [if_neg hlast]
    exact hp

theorem Inv.of_unmapped (h : Inv s) {k p n : ℕ} (hcount : (s.requests q).count = n + 1)
    (hp : s.unmapped q k = some p) : s.requestMap k = some p ∧ (p = q → 0 < n) := by
  unfold unmapped at hp
  by_cases hlast : (s.requests q).count - 1 ≤ 0
  · rw [if_pos hlast] at hp
    by_cases hkey : k = requestKey (s.requests q).id
    · rw [hkey, update_self] at hp
      cases hp
    · rw [update_of_ne hkey] at hp
      refine ⟨hp, fun hpq => absurd ?_ hkey⟩
      rw [← hpq]
      exact (h.entry k p hp).key.symm
  · rw [if_neg hlast] at hp
    exact ⟨hp, fun _ => by omega⟩

/-- **A call that finds its request finished leaves it, and the last one takes the entry away.** -/
theorem Inv.leave (h : Inv s) {i : ℕ} (hi : s.callers[i]? = some c) (hp : c.place = .awake)
    (hf : (s.requests c.request).finished = true) :
    Inv (s.resume i) ∧
      (s.resume i).callers =
        s.callers.set i { c with place := .returned (s.requests c.request).object } := by
  have hc := List.mem_of_getElem? hi
  have hw : c.waits = true := by
    unfold Caller.waits
    rw [hp]
  have hk := h.known c hc
  have hmap := hk.entry hw
  have he := h.entry _ _ hmap
  obtain ⟨t, ht⟩ := h.task _ hk.old
  have hdone := ht.finished.mp hf
  unfold resume
  rw [hi]
  dsimp only
  rw [hp]
  dsimp only
  unfold look
  rw [hmap]
  dsimp only
  rw [if_pos hf]
  refine ⟨?_, rfl⟩
  set c' : Caller O := { c with place := .returned (s.requests c.request).object } with hc'
  have hwaiting : ∀ q, waiting (s.callers.set i c') q + (if c.request = q then 1 else 0) =
      waiting s.callers q := by
    intro q
    have hset := waiting_set hi c' q
    rw [waiting_singleton hw, waiting_singleton_of_not (c := c') rfl] at hset
    exact hset
  have hown := hwaiting c.request
  rw [if_pos rfl] at hown
  have hcount := he.count
  have hleft : (s.requests c.request).count =
      ((waiting (s.callers.set i c') c.request : ℕ) : ℤ) + 1 := by omega
  have hstays : ∀ k q, s.requestMap k = some q → 0 < waiting (s.callers.set i c') q →
      s.unmapped c.request k = some q := fun k q hq hpos =>
    unmapped_stays (hk.key ▸ hmap) hleft hq fun hqc => hqc ▸ hpos
  refine ⟨fun k q hq => ?_, ?_, fun q hq => ?_, h.fresh⟩
  · obtain ⟨hq, hmore⟩ := h.of_unmapped hleft hq
    have hq' := h.entry k q hq
    have hwq := hwaiting q
    have hcountq := hq'.count
    have hneeded := hq'.needed
    refine ⟨hq'.old, ?_, ?_, ?_⟩
    · dsimp only
      rw [(update_count s _ _ _).1]
      exact hq'.key
    · dsimp only
      by_cases hqc : q = c.request
      · subst hqc
        rw [if_pos rfl] at hwq
        rw [update_self]
        dsimp only
        omega
      · rw [if_neg fun hcq => hqc hcq.symm] at hwq
        rw [update_of_ne hqc]
        omega
    · dsimp only
      by_cases hqc : q = c.request
      · rw [hqc]
        exact hmore hqc
      · rw [if_neg fun hcq => hqc hcq.symm] at hwq
        omega
  · intro d hd
    dsimp only at hd
    rcases List.mem_or_eq_of_mem_set hd with hd' | hd'
    · exact (h.known d hd').imp (Nat.le_refl _) (update_count s _ _ _).1
        (fun hwd he => hstays _ _ he (waiting_pos hd hwd)) (fun _ => (update_count s _ _ _).2.1)
        (List.Subset.refl _)
    · subst hd'
      refine ⟨hk.old, ?_, nofun, nofun, fun o ho => ?_⟩
      · dsimp only
        rw [(update_count s _ _ _).1]
        exact hk.key
      · cases ho
        dsimp only
        rw [(update_count s _ _ _).1]
        exact ht.made (.inr hdone)
  · obtain ⟨t', ht'⟩ := h.task q hq
    refine ⟨t', ht'.imp rfl (update_count s _ _ _).1 (update_count s _ _ _).2.1
      (update_count s _ _ _).2.2 (fun hnot hq => hstays _ _ hq ?_) (List.Subset.refl _)⟩
    have hqc : q ≠ c.request := by
      rintro rfl
      exact hnot (ht'.finished.mp hf)
    have hwq := hwaiting q
    rw [if_neg fun hcq => hqc hcq.symm] at hwq
    have hneeded := (h.entry _ _ hq).needed
    omega

/-- A call that waited goes on. -/
theorem Inv.resume (h : Inv s) (i : ℕ) : Inv (s.resume i) := by
  cases hi : s.callers[i]? with
  | none =>
      unfold State.resume
      rw [hi]
      exact h
  | some c =>
      cases hp : c.place with
      | asleep =>
          unfold State.resume
          rw [hi]
          dsimp only
          rw [hp]
          exact h
      | returned o =>
          unfold State.resume
          rw [hi]
          dsimp only
          rw [hp]
          exact h
      | awake =>
          by_cases hf : (s.requests c.request).finished = true
          · exact (h.leave hi hp hf).1
          · have hw : c.waits = true := by
              unfold Caller.waits
              rw [hp]
            have hk := h.known c (List.mem_of_getElem? hi)
            unfold State.resume
            rw [hi]
            dsimp only
            rw [hp]
            dsimp only
            unfold look
            rw [hk.entry hw]
            dsimp only
            rw [if_neg hf]
            refine h.move hi rfl hw rfl ⟨hk.old, hk.key, fun _ => hk.entry hw, fun _ => ?_, nofun⟩
            exact Bool.eq_false_of_not_eq_true hf

theorem Inv.wake (h : Inv s) (i : ℕ) : Inv (s.wake i) := by
  unfold State.wake
  cases hi : s.callers[i]? with
  | none => exact h
  | some c =>
      dsimp only
      cases hp : c.place with
      | awake => exact h
      | returned o => exact h
      | asleep =>
          have hw : c.waits = true := by
            unfold Caller.waits
            rw [hp]
          have hk := h.known c (List.mem_of_getElem? hi)
          exact h.move hi rfl hw rfl ⟨hk.old, hk.key, fun _ => hk.entry hw, nofun, nofun⟩

/-- A worker takes a request. -/
theorem Inv.handle (h : Inv s) (q : ℕ) : Inv (s.handle q) := by
  unfold State.handle
  cases hq : s.tasks q with
  | none => exact h
  | some t =>
      cases t with
      | creating => exact h
      | created => exact h
      | done => exact h
      | queued =>
          have htq := h.task_of hq
          refine ⟨fun k p hp => ?_, fun c hc => ?_, fun p hp => ?_, fun p hp => ?_⟩
          · have he := h.entry k p hp
            exact ⟨he.old, he.key, he.count, he.needed⟩
          · exact (h.known c hc).imp (Nat.le_refl _) rfl (fun _ he => he) (fun _ => rfl)
              (List.Subset.refl _)
          · by_cases hpq : p = q
            · subst hpq
              refine ⟨.creating, update_self _ _ _, ?_, fun _ => htq.entry nofun, ?_⟩
              · rw [htq.finished]
                exact ⟨nofun, nofun⟩
              · rintro (ht | ht) <;> cases ht
            · obtain ⟨t, ht⟩ := h.task p hp
              exact ⟨t, ht.imp (update_of_ne hpq _ _) rfl rfl rfl (fun _ he => he)
                (List.Subset.refl _)⟩
          · have hpq : p ≠ q := fun hpq => absurd (h.lt_of_task hq) (by rw [← hpq]; exact Nat.not_lt.mpr hp)
            show update s.tasks q (some .creating) p = none
            rw [update_of_ne hpq]
            exact h.fresh p hp

/-- What a creation puts where the waiting calls look. -/
theorem Inv.created (h : Inv s) (q : ℕ) (outcome : Option O) : Inv (s.created q outcome) := by
  unfold State.created
  cases hq : s.tasks q with
  | none => exact h
  | some t =>
      cases t with
      | queued => exact h
      | created => exact h
      | done => exact h
      | creating =>
          have htq := h.task_of hq
          have hreq := update_object s q outcome
          have hmade : s.made ⊆ s.made ++ [((s.requests q).id, outcome)] :=
            List.subset_append_left _ _
          refine ⟨fun k p hp => ?_, fun c hc => ?_, fun p hp => ?_, fun p hp => ?_⟩
          · have he := h.entry k p hp
            refine ⟨he.old, ?_, ?_, he.needed⟩
            · dsimp only
              rw [(hreq p).1]
              exact he.key
            · dsimp only
              rw [(hreq p).2.2]
              exact he.count
          · exact (h.known c hc).imp (Nat.le_refl _) (hreq _).1 (fun _ he => he)
              (fun _ => (hreq _).2.1) hmade
          · by_cases hpq : p = q
            · subst hpq
              refine ⟨.created, update_self _ _ _, ?_, fun _ => ?_, fun _ => ?_⟩
              · dsimp only
                rw [(hreq p).2.1, htq.finished]
                exact ⟨nofun, nofun⟩
              · dsimp only
                rw [(hreq p).1]
                exact htq.entry nofun
              · dsimp only
                rw [update_self]
                exact List.mem_append_right _ List.mem_cons_self
            · obtain ⟨t, ht⟩ := h.task p hp
              exact ⟨t, ht.imp (update_of_ne hpq _ _) (hreq p).1 (hreq p).2.1
                (congrArg Request.object (update_of_ne hpq _ _)) (fun _ he => he) hmade⟩
          · have hpq : p ≠ q := fun hpq => absurd (h.lt_of_task hq) (by rw [← hpq]; exact Nat.not_lt.mpr hp)
            show update s.tasks q (some .created) p = none
            rw [update_of_ne hpq]
            exact h.fresh p hp

theorem known_notify (h : Known s c) : Known s (notify c) := by
  obtain ⟨id, r, place⟩ := c
  cases place with
  | awake => exact h
  | returned o => exact h
  | asleep => exact ⟨h.old, h.key, h.entry, nofun, nofun⟩

theorem notify_not_asleep (c : Caller O) : (notify c).place ≠ .asleep := by
  obtain ⟨id, r, place⟩ := c
  cases place with
  | awake => exact nofun
  | returned o => exact nofun
  | asleep => exact nofun

/-- **The task finds its own request in the map, and wakes every call.** -/
theorem Inv.finish (h : Inv s) (q : ℕ) (unset : ℤ × ℤ) : Inv (s.finish q unset) := by
  unfold State.finish
  cases hq : s.tasks q with
  | none => exact h
  | some t =>
      cases t with
      | queued => exact h
      | creating => exact h
      | done => exact h
      | created =>
          have htq := h.task_of hq
          dsimp only
          rw [htq.entry nofun]
          dsimp only
          have hreq := update_finished s q
          refine ⟨fun k p hp => ?_, fun c hc => ?_, fun p hp => ?_, fun p hp => ?_⟩
          · have he := h.entry k p hp
            refine ⟨he.old, ?_, ?_, ?_⟩
            · dsimp only
              rw [(hreq p).1]
              exact he.key
            · dsimp only
              rw [(hreq p).2.2, waiting_map_notify]
              exact he.count
            · dsimp only
              rw [waiting_map_notify]
              exact he.needed
          · obtain ⟨d, hd, rfl⟩ := List.mem_map.mp hc
            exact (known_notify (h.known d hd)).imp (Nat.le_refl _) (hreq _).1 (fun _ he => he)
              (fun ha => absurd ha (notify_not_asleep d)) (List.Subset.refl _)
          · by_cases hpq : p = q
            · subst hpq
              refine ⟨.done, update_self _ _ _, ?_, fun hd => absurd rfl hd, fun _ => ?_⟩
              · dsimp only
                rw [update_self]
                exact ⟨fun _ => rfl, fun _ => rfl⟩
              · dsimp only
                rw [(hreq p).1, (hreq p).2.1]
                exact htq.made (.inl rfl)
            · obtain ⟨t, ht⟩ := h.task p hp
              exact ⟨t, ht.imp (update_of_ne hpq _ _) (hreq p).1
                (congrArg Request.finished (update_of_ne hpq _ _)) (hreq p).2.1
                (fun _ he => he) (List.Subset.refl _)⟩
          · have hpq : p ≠ q := fun hpq => absurd (h.lt_of_task hq) (by rw [← hpq]; exact Nat.not_lt.mpr hp)
            show update s.tasks q (some .done) p = none
            rw [update_of_ne hpq]
            exact h.fresh p hp

theorem Inv.step (h : Inv s) (e : Event O) : Inv (s.step e) := by
  cases e with
  | create id =>
      show Inv (s.create id)
      rw [create_eq_resume]
      exact (h.begun id).resume _
  | resume i => exact h.resume i
  | wake i => exact h.wake i
  | handle q => exact h.handle q
  | created q outcome => exact h.created q outcome
  | finish q unset => exact h.finish q unset

end Events

theorem inv_run (events : List (Event O)) : Inv (runOps step (new : State O) events) :=
  run_invariant_all (fun _ e h => h.step e) inv_new events

/-! ## What holds in every run -/

/-- One create for an id at a time; a call that has not returned waits for a task, and when that is
done the call is awake and returns when it gets the monitor; an entry of the map has a call
that waits. -/
structure Served (s : State O) : Prop where
  one : ∀ p q, s.tasks p = some .creating → s.tasks q = some .creating →
    (s.requests p).id = (s.requests q).id → p = q
  returns : ∀ i c, s.callers[i]? = some c → c.waits = true →
    ∃ t, s.tasks c.request = some t ∧ (t = .done → c.place = .awake ∧
      ∃ o, (s.resume i).callers = s.callers.set i { c with place := .returned o })
  needed : ∀ k q, s.requestMap k = some q → ∃ c ∈ s.callers, c.waits = true ∧ c.request = q

theorem Inv.served (h : Inv s) : Served s where
  one p q hp hq hid := by
    have hmap := (h.task_of hp).entry nofun
    rw [hid, (h.task_of hq).entry nofun] at hmap
    exact (Option.some.inj hmap).symm
  returns i c hi hw := by
    have hk := h.known c (List.mem_of_getElem? hi)
    obtain ⟨t, ht⟩ := h.task _ hk.old
    refine ⟨t, ht.task, fun hdone => ?_⟩
    have hf := ht.finished.mpr hdone
    have hawake : c.place = .awake := by
      cases hp : c.place with
      | awake => rfl
      | asleep =>
          rw [hk.asleep hp] at hf
          cases hf
      | returned o =>
          unfold Caller.waits at hw
          rw [hp] at hw
          cases hw
    exact ⟨hawake, _, (h.leave hi hawake hf).2⟩
  needed k q hq := exists_of_waiting_pos (h.entry k q hq).needed

/-- **Whatever the ids, one create serves all calls that wait for its request.** -/
theorem served_run (events : List (Event O)) : Served (runOps step (new : State O) events) :=
  (inv_run events).served

/-! ## Whose object a call returns -/

/-- Every call returns what has been made for its own id, or null where that has failed. -/
def Own (s : State O) : Prop := ∀ c ∈ s.callers, ∀ o, c.place = .returned o → (c.id, o) ∈ s.made

/-- A call begins when the map leads from its key to no request, or to one for its own id. -/
def Apart (s : State O) : Event O → Prop
  | .create id => ∀ q, s.requestMap (requestKey id) = some q → (s.requests q).id = id
  | _ => True

/-- The calls are counted in requests for their own ids. -/
def Joined (s : State O) : Prop := ∀ c ∈ s.callers, (s.requests c.request).id = c.id

theorem look_id (s : State O) (id : ℤ) (q : ℕ) :
    ((s.look id).2.requests q).id = (s.requests q).id := by
  unfold look
  cases s.requestMap (requestKey id) with
  | none => rfl
  | some p =>
      dsimp only
      by_cases hf : (s.requests p).finished = true
      · rw [if_pos hf]
        exact (update_count s p _ q).1
      · rw [if_neg hf]

theorem look_callers (s : State O) (id : ℤ) : (s.look id).2.callers = s.callers := by
  unfold look
  cases s.requestMap (requestKey id) with
  | none => rfl
  | some p =>
      dsimp only
      by_cases hf : (s.requests p).finished = true
      · rw [if_pos hf]
      · rw [if_neg hf]

/-- A request keeps its id. -/
theorem step_id (s : State O) (e : Event O) {q : ℕ} (hq : q < s.next) :
    ((s.step e).requests q).id = (s.requests q).id := by
  cases e with
  | create id =>
      show (((s.join id).2.look id).2.requests q).id = _
      rw [look_id]
      unfold join
      cases s.requestMap (requestKey id) with
      | some p => exact (update_count s p _ q).1
      | none =>
          dsimp only
          rw [update_of_ne (Nat.ne_of_lt hq)]
  | resume i =>
      show ((s.resume i).requests q).id = _
      unfold resume
      cases s.callers[i]? with
      | none => rfl
      | some c =>
          dsimp only
          cases c.place with
          | awake => exact look_id s c.id q
          | asleep => rfl
          | returned o => rfl
  | wake i =>
      show ((s.wake i).requests q).id = _
      unfold wake
      cases s.callers[i]? with
      | none => rfl
      | some c =>
          dsimp only
          cases c.place with
          | awake => rfl
          | asleep => rfl
          | returned o => rfl
  | handle p =>
      show ((s.handle p).requests q).id = _
      unfold handle
      split
      · rfl
      · rfl
  | created p outcome =>
      show ((s.created p outcome).requests q).id = _
      unfold created
      split
      · exact (update_object s p outcome q).1
      · rfl
  | finish p unset =>
      show ((s.finish p unset).requests q).id = _
      unfold finish
      split
      · dsimp only
        cases s.requestMap (requestKey (s.requests p).id) with
        | some r => exact (update_finished s r q).1
        | none =>
            dsimp only
            rw [update_of_ne (Nat.ne_of_lt hq)]
      · rfl

/-- A call keeps its id and its request; a new one is counted by `join`. -/
theorem step_callers (s : State O) (e : Event O) : ∀ c ∈ (s.step e).callers,
    (∃ d ∈ s.callers, c.id = d.id ∧ c.request = d.request) ∨
      (e = .create c.id ∧ c.request = (s.join c.id).1) := by
  have hset : ∀ {i : ℕ} {d : Caller O}, s.callers[i]? = some d → ∀ place,
      ∀ c ∈ s.callers.set i { d with place := place },
        ∃ d ∈ s.callers, c.id = d.id ∧ c.request = d.request := by
    intro i d hi place c hc
    rcases List.mem_or_eq_of_mem_set hc with hc | rfl
    · exact ⟨c, hc, rfl, rfl⟩
    · exact ⟨d, List.mem_of_getElem? hi, rfl, rfl⟩
  intro c hc
  cases e with
  | create id =>
      have hc' : c ∈ ((s.join id).2.look id).2.callers ++ [⟨id, (s.join id).1, _⟩] := hc
      rw [look_callers, callers_join] at hc'
      rcases List.mem_append.mp hc' with hc' | hc'
      · exact .inl ⟨c, hc', rfl, rfl⟩
      · rw [List.mem_singleton.mp hc']
        exact .inr ⟨rfl, rfl⟩
  | resume i =>
      change c ∈ (s.resume i).callers at hc
      unfold resume at hc
      cases hi : s.callers[i]? with
      | none =>
          rw [hi] at hc
          exact .inl ⟨c, hc, rfl, rfl⟩
      | some d =>
          rw [hi] at hc
          dsimp only at hc
          cases hp : d.place with
          | awake =>
              rw [hp] at hc
              dsimp only at hc
              rw [look_callers] at hc
              exact .inl (hset hi _ c hc)
          | asleep =>
              rw [hp] at hc
              exact .inl ⟨c, hc, rfl, rfl⟩
          | returned o =>
              rw [hp] at hc
              exact .inl ⟨c, hc, rfl, rfl⟩
  | wake i =>
      change c ∈ (s.wake i).callers at hc
      unfold wake at hc
      cases hi : s.callers[i]? with
      | none =>
          rw [hi] at hc
          exact .inl ⟨c, hc, rfl, rfl⟩
      | some d =>
          rw [hi] at hc
          dsimp only at hc
          cases hp : d.place with
          | asleep =>
              rw [hp] at hc
              exact .inl (hset hi _ c hc)
          | awake =>
              rw [hp] at hc
              exact .inl ⟨c, hc, rfl, rfl⟩
          | returned o =>
              rw [hp] at hc
              exact .inl ⟨c, hc, rfl, rfl⟩
  | handle p =>
      change c ∈ (s.handle p).callers at hc
      unfold handle at hc
      split at hc
      · exact .inl ⟨c, hc, rfl, rfl⟩
      · exact .inl ⟨c, hc, rfl, rfl⟩
  | created p outcome =>
      change c ∈ (s.created p outcome).callers at hc
      unfold created at hc
      split at hc
      · exact .inl ⟨c, hc, rfl, rfl⟩
      · exact .inl ⟨c, hc, rfl, rfl⟩
  | finish p unset =>
      have hnotified : c ∈ s.callers.map notify →
          ∃ d ∈ s.callers, c.id = d.id ∧ c.request = d.request := by
        intro hc
        obtain ⟨d, hd, rfl⟩ := List.mem_map.mp hc
        refine ⟨d, hd, ?_⟩
        unfold notify
        cases d.place with
        | awake => exact ⟨rfl, rfl⟩
        | asleep => exact ⟨rfl, rfl⟩
        | returned o => exact ⟨rfl, rfl⟩
      change c ∈ (s.finish p unset).callers at hc
      unfold finish at hc
      split at hc
      · dsimp only at hc
        cases hmap : s.requestMap (requestKey (s.requests p).id) with
        | some r =>
            rw [hmap] at hc
            exact .inl (hnotified hc)
        | none =>
            rw [hmap] at hc
            exact .inl (hnotified hc)
      · exact .inl ⟨c, hc, rfl, rfl⟩

/-- **A call that begins apart from other ids is counted in a request for its own.** -/
theorem Joined.step (hj : Joined s) (h : Inv s) {e : Event O} (ha : Apart s e) :
    Joined (s.step e) := by
  intro c hc
  rcases step_callers s e c hc with ⟨d, hd, hid, hreq⟩ | ⟨rfl, hreq⟩
  · rw [hreq, step_id s e (h.known d hd).old, hj d hd, hid]
  · rw [hreq]
    show (((s.join c.id).2.look c.id).2.requests _).id = _
    rw [look_id]
    unfold join
    cases hmap : s.requestMap (requestKey c.id) with
    | some q =>
        exact (update_count s q _ q).1.trans (ha q hmap)
    | none =>
        dsimp only
        rw [update_self]

/-- **In a run in which no call finds a request for another id, one create serves all calls for an
id, and each returns the object that was made for its own.** -/
theorem own_object (events : List (Event O)) (ha : StepsMeet step Apart (new : State O) events) :
    Served (runOps step (new : State O) events) ∧ Own (runOps step (new : State O) events) := by
  have hnew : Inv (new : State O) ∧ Joined (new : State O) :=
    ⟨inv_new, fun _ hc => absurd hc List.not_mem_nil⟩
  obtain ⟨hinv, hjoined⟩ := @run_invariant _ _ step Apart (fun s => Inv s ∧ Joined s)
    (fun _ e h he => ⟨h.1.step e, h.2.step h.1 he⟩) _ hnew _ ha
  refine ⟨hinv.served, fun c hc o ho => ?_⟩
  have hmade := (hinv.known c hc).returned o ho
  rw [hjoined c hc] at hmade
  exact hmade

/-- Two calls for an id with one create, and a call that comes when it is finished. -/
theorem own_object_shared :
    let events : List (Event ℕ) := [.create 1, .create 1, .handle 0, .created 0 (some 7),
      .finish 0 (0, 0), .resume 1, .create 1, .resume 0]
    Served (runOps step (new : State ℕ) events) ∧ Own (runOps step (new : State ℕ) events) := by
  refine own_object _ ⟨nofun, fun q hq => ?_, trivial, trivial, trivial, trivial, fun q hq => ?_,
    trivial, trivial⟩
  · have hzero : some 0 = some q := hq
    cases hzero
    rfl
  · have hzero : some 0 = some q := hq
    cases hzero
    rfl

/-- Ids with the same low 32 bits share a request: the second call gets the object of the first. -/
theorem other_ids_object :
    ¬ ∀ events : List (Event ℕ),
      Served (runOps step (new : State ℕ) events) ∧ Own (runOps step (new : State ℕ) events) := by
  intro h
  have hown := (h [.create 1, .create (2 ^ 32 + 1), .handle 0, .created 0 (some 7), .finish 0 (0, 0),
    .resume 1]).2
  have hmade := hown ⟨2 ^ 32 + 1, 0, .returned (some 7)⟩ (by decide +kernel) (some 7) rfl
  revert hmade
  decide +kernel

end State

end Oce.IceExt.SyncServantFactory
