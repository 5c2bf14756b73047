import Oce.Base.Run
import Oce.IceExt.Model.ObjectCache

/-!
# Fresh objects

What is in the cache for an id has been read after the last update that a remove of the id has
followed. Nothing but an add can break this: an object that was read before such an update
and is added after the remove stays for every later call to find. So the cache serves no
stale object, not even to a find that begins at once, exactly if it never adds one.
-/

set_option autoImplicit false

namespace Oce.IceExt

open Oce.Base Oce.UtilCxx

variable {V : Type*}

variable {id : ℤ} {obj : Built V} {c : Call V} {i : ℕ}

/-- No locate or find has returned an object from the store as it was before an update which a remove
had followed when the call began. -/
def Fresh (s : ObjectEvictor V) : Prop :=
  ∀ c ∈ s.calls, c.kind ≠ .create → ∀ data, c.result = some data →
    ∀ id obj, data.find id = some obj → c.since id ≤ obj.readAt

/-- What is added has been read since the last update of its id that a remove has followed. -/
def AddsFresh (s : ObjectEvictor V) : Event V → Prop
  | .next i _ => ∀ c, s.calls[i]? = some c → ∀ id obj objs, c.stage = .adding ((id, obj) :: objs) →
      s.invalid id ≤ obj.readAt
  | _ => True

/-! ## What a step of a call can do -/

namespace ObjectEvictor

variable (s : ObjectEvictor V)

/-- The cache in which a step has left all but the evictors and the factories. -/
structure SameStore (s' : ObjectEvictor V) : Prop where
  chunkSize : s'.chunkSize = s.chunkSize
  calls : s'.calls = s.calls
  now : s'.now = s.now
  updated : s'.updated = s.updated
  invalid : s'.invalid = s.invalid

theorem SameStore.refl : SameStore s s := ⟨rfl, rfl, rfl, rfl, rfl⟩

theorem sameStore_setEvictor (id : ℤ) (e : SizedEvictor ℤ (Built V)) : SameStore s (s.setEvictor id e) :=
  ⟨rfl, rfl, rfl, rfl, rfl⟩

theorem sameStore_setFactory (k : ℕ) (f : ServantFactory V) : SameStore s (s.setFactory k f) :=
  ⟨rfl, rfl, rfl, rfl, rfl⟩

theorem evictor_setFactory (k j : ℕ) (f : ServantFactory V) :
    ((s.setFactory k f).chunks j).evictor = (s.chunks j).evictor := by
  unfold setFactory
  by_cases hj : j = k
  · subst hj
    simp only [Function.update_self]
  · simp only [Function.update_of_ne hj]

theorem evictor_setEvictor_of_ne {j : ℕ} (h : j ≠ s.chunkOf id) (e : SizedEvictor ℤ (Built V)) :
    ((s.setEvictor id e).chunks j).evictor = (s.chunks j).evictor := by
  unfold setEvictor
  simp only [Function.update_of_ne h]

theorem evictor_setEvictor_self (id : ℤ) (e : SizedEvictor ℤ (Built V)) :
    ((s.setEvictor id e).chunks (s.chunkOf id)).evictor = e := by
  unfold setEvictor
  simp only [Function.update_self]

theorem find_made {objs : OrdMap ℤ (Built V)} {o : Option (Built V)} {j : ℤ}
    (h : (made objs id o).find j = some obj) : objs.find j = some obj ∨ j = id ∧ o = some obj := by
  cases o with
  | none => exact .inl h
  | some obj' =>
      unfold made at h
      rw [OrdMap.find_insert] at h
      split at h
      · next hj => exact .inr ⟨hj, h⟩
      · exact .inl h

/-- An entry of an evictor after a step was there before, or is the one that the step adds. -/
def EntriesFrom (s' : ObjectEvictor V) (added : ℤ × Built V → Prop) : Prop :=
  ∀ k, ∀ p ∈ (s'.chunks k).evictor.entries,
    p ∈ (s.chunks k).evictor.entries ∨ k = s.chunkOf p.1 ∧ added p

theorem entriesFrom_setEvictor {e : SizedEvictor ℤ (Built V)} {added : ℤ × Built V → Prop}
    (h : ∀ p ∈ e.entries, p ∈ (s.evictorOf id).entries ∨ p.1 = id ∧ added p) :
    s.EntriesFrom (s.setEvictor id e) added := by
  intro k p hp
  by_cases hk : k = s.chunkOf id
  · subst hk
    rw [evictor_setEvictor_self] at hp
    rcases h p hp with hold | ⟨hid, hadd⟩
    · exact .inl hold
    · exact .inr ⟨by rw [hid], hadd⟩
  · rw [evictor_setEvictor_of_ne s hk] at hp
    exact .inl hp

theorem entriesFrom_setFactory (k : ℕ) (f : ServantFactory V) (added : ℤ × Built V → Prop) :
    s.EntriesFrom (s.setFactory k f) added := by
  intro j p hp
  rw [evictor_setFactory] at hp
  exact .inl hp

theorem entriesFrom_refl (added : ℤ × Built V → Prop) : s.EntriesFrom s added := fun _ _ hp => .inl hp

/-- The object that a call adds in its next step. -/
def Adds (c : Call V) (p : ℤ × Built V) : Prop := ∃ objs, c.stage = .adding (p :: objs)

/-- **What a step of a call can do**: all objects that it gets for its caller are in the cache or are
added to it. -/
structure StepOf (c : Call V) (r : ObjectEvictor V × Call V) : Prop where
  store : SameStore s r.1
  entries : s.EntriesFrom r.1 (Adds c)
  kind : r.2.kind = c.kind
  since : r.2.since = c.since
  data : ∀ id obj, r.2.data.find id = some obj →
    c.data.find id = some obj ∨ (id, obj) ∈ (s.evictorOf id).entries ∨ Adds c (id, obj)

/-- A step that looks at no evictor. -/
theorem StepOf.silent {c' : Call V} {s' : ObjectEvictor V}
    (hs' : s' = s ∨ ∃ k f, s' = s.setFactory k f) (hkind : c'.kind = c.kind)
    (hsince : c'.since = c.since) (hdata : c'.data = c.data) : StepOf s c (s', c') := by
  have hd : ∀ id obj, c'.data.find id = some obj →
      c.data.find id = some obj ∨ (id, obj) ∈ (s.evictorOf id).entries ∨ Adds c (id, obj) := by
    intro id obj h
    rw [hdata] at h
    exact .inl h
  rcases hs' with rfl | ⟨k, f, rfl⟩
  · exact ⟨.refl _, entriesFrom_refl _ _, hkind, hsince, hd⟩
  · exact ⟨sameStore_setFactory s k f, entriesFrom_setFactory s k f _, hkind, hsince, hd⟩

/-- An id is looked up. -/
theorem stepOf_looking (c : Call V) (id : ℤ) (ids missing : List ℤ) (reads : Bool)
    (hstage : c.stage = .looking (id :: ids) missing) : StepOf s c (s.stepCall c reads) := by
  have hlocate : StepOf s c (s.setEvictor id ((s.evictorOf id).locate id).2,
      { c with
        stage := .looking ids (if ((s.evictorOf id).locate id).1.isSome then missing else missing ++ [id])
        data := made c.data id ((s.evictorOf id).locate id).1 }) := by
    refine ⟨sameStore_setEvictor s id _, entriesFrom_setEvictor s ?_, rfl, rfl, ?_⟩
    · intro p hp
      exact .inl (SizedEvictor.mem_of_mem_locate hp)
    · intro j obj h
      rcases find_made h with hold | ⟨rfl, hfound⟩
      · exact .inl hold
      · exact .inr (.inl (SizedEvictor.mem_of_locate hfound))
  unfold stepCall
  rw [hstage]
  dsimp only
  split
  · refine ⟨.refl _, entriesFrom_refl _ _, rfl, rfl, ?_⟩
    intro j obj h
    rcases find_made h with hold | ⟨rfl, hfound⟩
    · exact .inl hold
    · exact .inr (.inl (SizedEvictor.mem_of_find hfound))
  · exact hlocate

/-- An object is added. -/
theorem stepOf_adding (c : Call V) (id : ℤ) (obj : Built V) (objs : List (ℤ × Built V)) (reads : Bool)
    (hstage : c.stage = .adding ((id, obj) :: objs)) : StepOf s c (s.stepCall c reads) := by
  unfold stepCall
  rw [hstage]
  refine ⟨sameStore_setEvictor s id _, entriesFrom_setEvictor s ?_, rfl, rfl, ?_⟩
  · intro p hp
    rcases SizedEvictor.mem_of_mem_add hp with rfl | hold
    · exact .inr ⟨rfl, objs, hstage⟩
    · exact .inl hold
  · intro j obj' h
    rw [OrdMap.find_insert] at h
    split at h
    · next hj =>
        cases h
        subst hj
        exact .inr (.inr ⟨objs, hstage⟩)
    · exact .inl h

/-- What one step of a call reads and writes. -/
theorem stepOf_stepCall (c : Call V) (reads : Bool) : StepOf s c (s.stepCall c reads) := by
  cases hstage : c.stage with
  | looking ids missing =>
      cases ids with
      | cons id ids => exact stepOf_looking s c id ids missing reads hstage
      | nil =>
          unfold stepCall
          rw [hstage]
          cases missing with
          | nil => exact .silent s (.inl rfl) rfl rfl rfl
          | cons id missing => exact .silent s (.inl rfl) rfl rfl rfl
  | creating k ids objs =>
      unfold stepCall
      rw [hstage]
      cases ids with
      | nil => exact .silent s (.inl rfl) rfl rfl rfl
      | cons id ids =>
          dsimp only
          split
          · exact .silent s (.inl rfl) rfl rfl rfl
          · exact .silent s (.inl rfl) rfl rfl rfl
          · split
            · exact .silent s (.inr ⟨_, _, rfl⟩) rfl rfl rfl
            · exact .silent s (.inr ⟨_, _, rfl⟩) rfl rfl rfl
  | waiting k id ids objs =>
      unfold stepCall
      rw [hstage]
      dsimp only
      split
      · split
        · exact .silent s (.inr ⟨_, _, rfl⟩) rfl rfl rfl
        · exact .silent s (.inl rfl) rfl rfl rfl
      · exact .silent s (.inl rfl) rfl rfl rfl
  | adding objs =>
      cases objs with
      | nil =>
          unfold stepCall
          rw [hstage]
          exact .silent s (.inl rfl) rfl rfl rfl
      | cons p objs => exact stepOf_adding s c p.1 p.2 objs reads hstage
  | returned =>
      unfold stepCall
      rw [hstage]
      exact .silent s (.inl rfl) rfl rfl rfl

/-! ## The invariant -/

/-- **The invariant.** -/
structure Inv (s : ObjectEvictor V) : Prop where
  home : ∀ k, ∀ p ∈ (s.chunks k).evictor.entries, k = s.chunkOf p.1
  cached : ∀ k, ∀ p ∈ (s.chunks k).evictor.entries, s.invalid p.1 ≤ p.2.readAt
  since : ∀ c ∈ s.calls, ∀ id, c.since id ≤ s.invalid id
  data : ∀ c ∈ s.calls, ∀ id obj, c.data.find id = some obj → c.since id ≤ obj.readAt
  updated : ∀ id, s.invalid id ≤ s.updated id
  now : ∀ id, s.updated id ≤ s.now

variable {s}

theorem inv_new (size : ℕ) (factory : Option (ServantFactory V)) (store : ℤ → Option V) :
    Inv (new size factory store) := by
  refine ⟨?_, ?_, ?_, ?_, fun _ => Nat.le_refl 0, fun _ => Nat.le_refl 0⟩
  · intro k p hp
    cases hp
  · intro k p hp
    cases hp
  · intro c hc
    cases hc
  · intro c hc
    cases hc

theorem Inv.update (h : Inv s) (id : ℤ) (value : Option V) : Inv (s.update id value) := by
  have hle : ∀ j, s.updated j ≤ Function.update s.updated id (s.now + 1) j := by
    intro j
    by_cases hj : j = id
    · subst hj
      rw [Function.update_self]
      exact Nat.le_succ_of_le (h.now j)
    · rw [Function.update_of_ne hj]
  refine ⟨h.home, h.cached, h.since, h.data, fun j => (h.updated j).trans (hle j), ?_⟩
  intro j
  show Function.update s.updated id (s.now + 1) j ≤ s.now + 1
  by_cases hj : j = id
  · subst hj
    rw [Function.update_self]
  · rw [Function.update_of_ne hj]
    exact Nat.le_succ_of_le (h.now j)

/-- A removal leaves nothing stale. -/
theorem Inv.remove (h : Inv s) (id : ℤ) : Inv (s.remove id) := by
  have hle : ∀ j, s.invalid j ≤ Function.update s.invalid id (s.updated id) j := by
    intro j
    by_cases hj : j = id
    · subst hj
      rw [Function.update_self]
      exact h.updated j
    · rw [Function.update_of_ne hj]
  have hentries : ∀ k, ∀ p ∈ ((s.remove id).chunks k).evictor.entries,
      p ∈ (s.chunks k).evictor.entries ∧ p.1 ≠ id := by
    intro k p hp
    by_cases hk : k = s.chunkOf id
    · subst hk
      have hp' : p ∈ ((s.setEvictor id ((s.evictorOf id).remove id)).chunks (s.chunkOf id)).evictor.entries :=
        hp
      rw [evictor_setEvictor_self] at hp'
      exact SizedEvictor.mem_remove.mp hp'
    · have hp' : p ∈ ((s.setEvictor id ((s.evictorOf id).remove id)).chunks k).evictor.entries := hp
      rw [evictor_setEvictor_of_ne s hk] at hp'
      refine ⟨hp', fun hid => hk ?_⟩
      rw [h.home k p hp', hid]
  refine ⟨?_, ?_, fun c hc j => (h.since c hc j).trans (hle j), h.data, ?_, h.now⟩
  · intro k p hp
    exact h.home k p (hentries k p hp).1
  · intro k p hp
    obtain ⟨hold, hne⟩ := hentries k p hp
    show Function.update s.invalid id (s.updated id) p.1 ≤ p.2.readAt
    rw [Function.update_of_ne hne]
    exact h.cached k p hold
  · intro j
    show Function.update s.invalid id (s.updated id) j ≤ s.updated j
    by_cases hj : j = id
    · subst hj
      rw [Function.update_self]
    · rw [Function.update_of_ne hj]
      exact h.updated j

theorem Inv.call (h : Inv s) (kind : CallKind) (ids : Ids) : Inv (s.call kind ids) := by
  refine ⟨h.home, h.cached, ?_, ?_, h.updated, h.now⟩
  · intro c hc id
    rcases List.mem_append.mp hc with hc | hc
    · exact h.since c hc id
    · rw [List.mem_singleton.mp hc]
      exact Nat.le_refl _
  · intro c hc id obj hobj
    rcases List.mem_append.mp hc with hc | hc
    · exact h.data c hc id obj hobj
    · rw [List.mem_singleton.mp hc] at hobj
      cases hobj

/-- One more step of a call. -/
theorem Inv.next (h : Inv s) {reads : Bool} (hadds : AddsFresh s (.next i reads)) :
    Inv (s.next i reads) := by
  unfold ObjectEvictor.next
  cases hc : s.calls[i]? with
  | none => exact h
  | some c =>
      obtain ⟨hstore, hentries, -, hsince, hdata⟩ := stepOf_stepCall s c reads
      have hmem : c ∈ s.calls := List.mem_of_getElem? hc
      have hfresh : ∀ p, Adds c p → s.invalid p.1 ≤ p.2.readAt := by
        rintro p ⟨objs, hstage⟩
        exact hadds c hc p.1 p.2 objs hstage
      have hchunk : ∀ id, (s.stepCall c reads).1.chunkOf id = s.chunkOf id := by
        intro id
        unfold chunkOf
        rw [hstore.chunkSize]
      have hcalls : ∀ c' ∈ s.calls.set i (s.stepCall c reads).2,
          c' ∈ s.calls ∨ c' = (s.stepCall c reads).2 := fun c' hc' => List.mem_or_eq_of_mem_set hc'
      refine ⟨?_, ?_, ?_, ?_, ?_, ?_⟩
      · intro k p hp
        refine Eq.trans ?_ (hchunk p.1).symm
        rcases hentries k p hp with hold | ⟨hk, -⟩
        · exact h.home k p hold
        · exact hk
      · intro k p hp
        show (s.stepCall c reads).1.invalid p.1 ≤ p.2.readAt
        rw [hstore.invalid]
        rcases hentries k p hp with hold | ⟨-, hadd⟩
        · exact h.cached k p hold
        · exact hfresh p hadd
      · intro c' hc' id
        show c'.since id ≤ (s.stepCall c reads).1.invalid id
        rw [hstore.invalid]
        rcases hcalls c' hc' with hold | rfl
        · exact h.since c' hold id
        · rw [hsince]
          exact h.since c hmem id
      · intro c' hc' id obj hobj
        rcases hcalls c' hc' with hold | rfl
        · exact h.data c' hold id obj hobj
        · rw [hsince]
          rcases hdata id obj hobj with hold | hcached | hadd
          · exact h.data c hmem id obj hold
          · exact (h.since c hmem id).trans (h.cached _ _ hcached)
          · exact (h.since c hmem id).trans (hfresh _ hadd)
      · intro id
        show (s.stepCall c reads).1.invalid id ≤ (s.stepCall c reads).1.updated id
        rw [hstore.invalid, hstore.updated]
        exact h.updated id
      · intro id
        show (s.stepCall c reads).1.updated id ≤ (s.stepCall c reads).1.now
        rw [hstore.updated, hstore.now]
        exact h.now id

theorem Inv.task (h : Inv s) (k : ℕ) (f : RequestMap V → RequestMap V) : Inv (s.task k f) := by
  unfold ObjectEvictor.task
  split
  · refine ⟨?_, ?_, h.since, h.data, h.updated, h.now⟩
    · intro j p hp
      rw [evictor_setFactory] at hp
      exact h.home j p hp
    · intro j p hp
      rw [evictor_setFactory] at hp
      exact h.cached j p hp
  · exact h

/-- **One step.** -/
theorem Inv.step (h : Inv s) {a : Event V} (hadds : AddsFresh s a) : Inv (s.step a) := by
  cases a with
  | update id value => exact h.update id value
  | remove id => exact h.remove id
  | call kind ids => exact h.call kind ids
  | next i reads => exact h.next hadds
  | load k key reads => exact h.task k _
  | finish k key => exact h.task k _

theorem Call.data_of_result {data : OrdMap ℤ (Built V)} (h : c.result = some data) :
    c.data = data := by
  unfold Call.result at h
  split at h
  · split at h
    · exact Option.some.inj h
    · cases h
  · exact Option.some.inj h
  · cases h

theorem Inv.fresh (h : Inv s) : Fresh s := by
  intro c hc _ data hresult id obj hobj
  rw [← Call.data_of_result hresult] at hobj
  exact h.data c hc id obj hobj

/-! ## A find at once -/

/-- A find of one id as the next thing that happens, by the call with the next number. -/
def findNow (n : ℕ) (id : ℤ) : List (Event V) := [.call .find (.one id), .next n true, .next n true]

theorem findNow_calls (id : ℤ) :
    (runOps step s (findNow s.calls.length id)).calls = s.calls ++
      [⟨.find, .one id, .returned, made .empty id ((s.evictorOf id).find id), s.invalid⟩] := by
  simp [findNow, step, call, Ids.toList, next, stepCall, evictorOf, chunkOf]

/-- What a find at once returns is what the cache has. -/
theorem Fresh.cached (h : Fresh (runOps step s (findNow s.calls.length id)))
    (hobj : (s.evictorOf id).find id = some obj) : s.invalid id ≤ obj.readAt := by
  have hmem : (⟨.find, .one id, .returned, made .empty id ((s.evictorOf id).find id), s.invalid⟩ : Call V) ∈
      (runOps step s (findNow s.calls.length id)).calls := by
    rw [findNow_calls]
    simp
  have hne : CallKind.find ≠ .create := by decide
  refine h _ hmem hne _ rfl id obj ?_
  rw [hobj]
  exact OrdMap.find_insert_self _ _ _

theorem findNow_adds (s : ObjectEvictor V) (id : ℤ) :
    StepsMeet step AddsFresh s (findNow s.calls.length id) := by
  have hlook : ∀ (s' : ObjectEvictor V) (c : Call V) (reads : Bool), s'.calls = s.calls ++ [c] →
      (∀ p objs, c.stage ≠ .adding (p :: objs)) → AddsFresh s' (.next s.calls.length reads) := by
    intro s' c reads hcalls hstage c' hc' id obj objs hadding
    rw [hcalls, List.getElem?_concat_length] at hc'
    cases hc'
    exact absurd hadding (hstage _ _)
  refine ⟨trivial, ?_, ?_, trivial⟩
  · exact hlook _ ⟨.find, .one id, .looking [id] [], .empty, s.invalid⟩ true rfl
      (fun _ _ h => nomatch h)
  · refine hlook _ ⟨.find, .one id, .looking [] [], made .empty id ((s.evictorOf id).find id), s.invalid⟩
      true ?_ (fun _ _ h => nomatch h)
    simp [step, call, Ids.toList, next, stepCall, evictorOf, chunkOf]

/-- What a call adds is there for a find at once. -/
theorem find_next_of_adding (hc : s.calls[i]? = some c) {objs : List (ℤ × Built V)}
    (hstage : c.stage = .adding ((id, obj) :: objs)) (reads : Bool) :
    ((s.next i reads).evictorOf id).find id = some obj ∧ (s.next i reads).invalid = s.invalid := by
  have hstep : s.stepCall c reads = (s.setEvictor id ((s.evictorOf id).add obj id),
      { c with stage := .adding objs, data := c.data.insert id obj }) := by
    unfold stepCall
    rw [hstage]
  have hnext : s.next i reads = { s.setEvictor id ((s.evictorOf id).add obj id) with
      calls := s.calls.set i { c with stage := .adding objs, data := c.data.insert id obj } } := by
    unfold next
    rw [hc]
    simp only [hstep]
  rw [hnext]
  refine ⟨?_, rfl⟩
  have hevictor : (({ s.setEvictor id ((s.evictorOf id).add obj id) with
      calls := s.calls.set i { c with stage := .adding objs, data := c.data.insert id obj } } :
        ObjectEvictor V).evictorOf id) = (s.evictorOf id).add obj id :=
    evictor_setEvictor_self s id _
  rw [hevictor]
  exact SizedEvictor.find_add_self _ _ _

/-- **No stale object.** A run serves only fresh objects, to every locate and find in it and to a find
of any id at any time, exactly if it adds only objects that were read after the last update of
their id which a remove has followed. -/
theorem fresh_iff (size : ℕ) (factory : Option (ServantFactory V)) (store : ℤ → Option V)
    (events : List (Event V)) :
    (∀ (k : ℕ) (id : ℤ),
      let s := runOps step (new size factory store) (events.take k)
      Fresh (runOps step s (findNow s.calls.length id))) ↔
    StepsMeet step AddsFresh (new size factory store) events := by
  constructor
  · intro h
    refine stepsMeet_of_at_step fun k a ha => ?_
    cases a with
    | next i reads =>
        intro c hc id obj objs hstage
        obtain ⟨hfind, hinvalid⟩ := find_next_of_adding hc hstage reads
        have htake : runOps step (new size factory store) (events.take (k + 1)) =
            (runOps step (new size factory store) (events.take k)).next i reads := by
          rw [List.take_add_one, ha, runOps_append]
          rfl
        have hfresh := h (k + 1) id
        rw [htake] at hfresh
        rw [← hinvalid]
        exact Fresh.cached hfresh hfind
    | update | remove | call | load | finish => trivial
  · intro h k id
    have hstep : ∀ (s : ObjectEvictor V) a, Inv s → AddsFresh s a → Inv (s.step a) :=
      fun s a hs ha => hs.step ha
    have hinv := run_invariant_take hstep (inv_new size factory store) h k
    exact (run_invariant hstep hinv (findNow_adds _ id)).fresh

/-! ## A stale object -/

/-- The store is read for id 7; then it is updated and the id removed; then the object is added. -/
def lateAdd : List (Event ℕ) :=
  [.call .locate (.one 7), .next 0 true, .next 0 true, .next 0 true, .update 7 (some 1), .remove 7,
    .next 0 true, .next 0 true, .next 0 true]

/-- A find that begins after the remove returns the object of the store before the update. -/
theorem stale_after_remove :
    ¬ ∀ (size : ℕ) (factory : Option (ServantFactory ℕ)) (store : ℤ → Option ℕ) (events : List (Event ℕ)),
      Fresh (runOps step (new size factory store) events) := by
  intro hall
  have hfresh := hall 1 (some .plain) (fun _ => some 0) (lateAdd ++ findNow 1 7)
  rw [runOps_append] at hfresh
  have hfind : ((runOps step (new 1 (some .plain) fun _ => some 0) lateAdd).evictorOf 7).find 7 =
      some ⟨0, 0⟩ := by decide
  have hinvalid : (runOps step (new 1 (some .plain) fun _ => some 0) lateAdd).invalid 7 = 1 := by decide
  have hle := Fresh.cached hfresh hfind
  rw [hinvalid] at hle
  exact absurd hle (by decide)

end ObjectEvictor

end Oce.IceExt
