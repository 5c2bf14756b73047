import Oce.Tripod.Analysis.CacheLocks
import Oce.Tripod.Analysis.CacheRounds

/-!
# What a deletion leaves

A deletion removes a key while it holds the lock of the key. From there on no call that holds this
lock carries older data (`Clean`): what it carries was read under the lock, and only the holder of
a lock stores data of its key. Until it has removed the key a deletion is not through with it
(`Pending`), so it cannot have returned.

The manager produces and stores all keys of a call in each of its rounds, also those it has not
locked (`Fits`), and an older value of such a key can be stored behind the deletion
(`unlocked_key_reinstated`).
-/

set_option autoImplicit false

namespace Oce.Tripod.CacheManager

open Oce.Base

variable {id : ℕ} {c : Call} {free : String → Bool} {source : String → ℕ} {ch : Choice}
  {p : Phase} {k k' : String}

/-! ## The conditions -/

/-- The key whose data a call stores next. -/
def Phase.nextStored (pick : ℕ) : Phase → Option String
  | .storing todo _ _ =>
    match todo.rotate pick with
    | (k, some _) :: _ => some k
    | _ => none
  | _ => none

/-- The key a call removes next. -/
def Phase.nextRemoved (pick : ℕ) : Phase → Option String
  | .removing todo _ _ => (todo.rotate pick).head?
  | _ => none

/-- Data is stored under the lock of its key, and what is removed under it is gone. -/
def Fits (s : State) : Op → Prop
  | .advance id ch => ∀ c ∈ s.calls id,
      (∀ k ∈ c.phase.nextStored ch.pick, ch.applied = true → s.holder k = some id) ∧
      ∀ k ∈ c.phase.nextRemoved ch.pick, s.holder k = some id → ch.applied = true
  | _ => True

instance decidableFits : ∀ s op, Decidable (Fits s op)
  | s, .advance id ch => inferInstanceAs (Decidable (∀ c ∈ s.calls id,
      (∀ k ∈ c.phase.nextStored ch.pick, ch.applied = true → s.holder k = some id) ∧
      ∀ k ∈ c.phase.nextRemoved ch.pick, s.holder k = some id → ch.applied = true))
  | _, .start _ _ _ _ => .isTrue trivial
  | _, .change _ _ => .isTrue trivial
  | _, .expire _ _ => .isTrue trivial

/-- In a namespace the calls of a run give different names to different keys. -/
def Apart (ops : List Op) : Prop :=
  ∀ id kind scope keys id' kind' scope' keys', .start id kind scope keys ∈ ops →
    .start id' kind' scope' keys' ∈ ops → scope.namespaceId = scope'.namespaceId →
    ∀ k ∈ keys, ∀ k' ∈ keys', bigKey scope.businessId k = bigKey scope'.businessId k' →
      scope.businessId = scope'.businessId ∧ k = k'

/-- The calls of a run that load or delete have keys. -/
def HaveKeys (ops : List Op) : Prop :=
  ∀ id kind scope keys, .start id kind scope keys ∈ ops → kind ≠ .get → keys ≠ []

/-- A call was made by the run, and has keys in hand that it was made with. -/
def MadeBy (ops : List Op) (c : Call) : Prop :=
  (∃ id, .start id c.kind c.scope c.keys ∈ ops) ∧ ∀ k ∈ c.phase.inHand, k ∈ c.keys

theorem run_made (ops : List Op) (hc : (runOps step State.init ops).calls id = some c) :
    MadeBy ops c := by
  refine ⟨?_, fun k hk => run_within ops hc hk⟩
  refine calls_invariant (P := fun c => ∃ id, .start id c.kind c.scope c.keys ∈ ops)
    (C := fun _ op => op ∈ ops) ?_ ?_ (stepsMeet_of_forall _ fun op h => h) id c hc
  · intro s id c hstart _
    exact ⟨id, hstart⟩
  · intro free source ch c c' e hmade hkind hscope hkeys _
    rw [hkind, hscope, hkeys]
    exact hmade

/-- What is known of a step of a run. -/
structure Reached (ops : List Op) (s : State) (op : Op) : Prop where
  mem : op ∈ ops
  fits : Fits s op
  owned : Owned s
  made : ∀ id c, s.calls id = some c → MadeBy ops c

theorem stepsMeet_reached {ops : List Op} (hops : StepsMeet step Fits State.init ops) :
    StepsMeet step (Reached ops) State.init ops := by
  refine stepsMeet_of_at_step fun n op hop => ?_
  refine ⟨List.mem_of_getElem? hop, hops.at_step hop, Owned.run _, fun id c hc => ?_⟩
  obtain ⟨⟨i, hi⟩, hin⟩ := run_made _ hc
  exact ⟨⟨i, List.mem_of_mem_take hi⟩, hin⟩

/-! ## After the removal -/

/-- No older data of the key is cached, or carried under its lock. -/
structure Clean (scope : Scope) (k : String) (v : ℕ) (s : State) : Prop where
  source : v ≤ s.source scope.businessId k
  entry : ∀ w, s.entry scope k = some w → v ≤ w
  carried : ∀ id c, s.calls id = some c → c.scope.businessId = scope.businessId →
    k ∈ c.phase.held → ∀ w, (k, some w) ∈ c.phase.carried → v ≤ w

theorem source_le_step (s : State) (op : Op) (businessId k : String) :
    s.source businessId k ≤ (step s op).source businessId k := by
  cases op with
  | start id kind scope keys =>
      obtain heq | ⟨-, c, heq, -⟩ := s.start_eq id kind scope keys <;> rw [step, heq]
      rfl
  | advance id ch =>
      cases hc : s.calls id with
      | none => rw [step, State.advance_none hc]
      | some c =>
          obtain ⟨c', e, heq, -⟩ := State.advance_eq hc ch
          rw [step, heq, State.source_setCall, State.source_apply]
  | change b k' =>
      simp only [step]
      split
      · exact Nat.le_succ _
      · exact le_refl _
  | expire namespaceId key => exact le_refl _

theorem entry_setEntry (s : State) (scope : Scope) (k n k' : String) (d : Data) :
    (s.setEntry n k' d).entry scope k =
      if scope.namespaceId = n ∧ bigKey scope.businessId k = k' then d else s.entry scope k := rfl

/-- A call writes an entry when it stores, or to remove it. -/
theorem Moves.of_write {data : Data} (h : Moves free source ch c p (.write k data)) :
    data = none ∨ ch.applied = true ∧ ∃ todo rest locked failed,
      c.phase = .storing todo locked failed ∧ todo.rotate ch.pick = (k, data) :: rest := by
  cases h with
  | store h hpick happlied => exact .inr ⟨happlied, _, _, _, _, h, hpick⟩
  | removal => exact .inl rfl

variable {ops : List Op} {scope : Scope} {keys : List String} {k : String} {v d : ℕ} {s : State}
  {op : Op}

/-- What is stored in the entry of the key is data of the key. -/
theorem MadeBy.same_key (hapart : Apart ops) (hd : .start d .deleteCache scope keys ∈ ops)
    (hk : k ∈ keys) (hc : MadeBy ops c) (hk' : k' ∈ c.phase.inHand)
    (hn : scope.namespaceId = c.scope.namespaceId)
    (hkey : bigKey scope.businessId k = bigKey c.scope.businessId k') :
    c.scope.businessId = scope.businessId ∧ k = k' := by
  obtain ⟨⟨id, hmade⟩, hin⟩ := hc
  have h := hapart _ _ _ _ _ _ _ _ hd hmade hn k hk k' (hin k' hk') hkey
  exact ⟨h.1.symm, h.2⟩

namespace Clean

/-- The data a call stores comes from what it carries under the lock. -/
theorem advance (h : Clean scope k v s) (hapart : Apart ops)
    (hd : .start d .deleteCache scope keys ∈ ops) (hk : k ∈ keys)
    (hr : Reached ops s (.advance id ch)) : Clean scope k v (s.advance id ch) := by
  have hsource := h.source.trans (source_le_step s (.advance id ch) scope.businessId k)
  cases hc : s.calls id with
  | none =>
      rw [State.advance_none hc]
      exact h
  | some c =>
      obtain ⟨c', e, heq, -, hscope, -, hmoves⟩ := State.advance_eq hc ch
      rw [step, heq] at hsource
      rw [heq]
      refine ⟨hsource, fun w hw => ?_, fun i c₁ hc₁ hb hheld w hw => ?_⟩
      · change (s.apply id c.scope e).entry scope k = some w at hw
        cases e with
        | write k' data =>
            rw [State.apply, entry_setEntry] at hw
            split at hw
            · next hsame =>
              subst hw
              obtain hnone | ⟨happlied, todo, rest, locked, failed, hphase, hpick⟩ :=
                hmoves.of_write
              · cases hnone
              · have hnext : k' ∈ c.phase.nextStored ch.pick := by
                  simp [hphase, Phase.nextStored, hpick]
                have hholder := (hr.fits c hc).1 k' hnext happlied
                have hcarried : (k', some w) ∈ c.phase.carried := by
                  rw [hphase]
                  exact (mem_iff_of_rotate hpick _).mpr (.inl rfl)
                have hheld := (hr.owned.holder id c hc k').mp hholder
                obtain ⟨hb, rfl⟩ := (hr.made id c hc).same_key hapart hd hk
                  (Phase.held_subset hheld) hsame.1 hsame.2
                exact h.carried id c hc hb hheld w hcarried
            · exact h.entry w hw
        | _ => exact h.entry w hw
      · rw [State.calls_setCall, State.calls_apply] at hc₁
        split at hc₁
        · cases hc₁
          obtain ⟨hsame, hcarried⟩ := hmoves.carried hw
          rw [hscope] at hb
          obtain hcarried | hcarried | hcarried := hcarried
          · exact h.carried id c hc hb (hsame ▸ hheld) w hcarried
          · cases hcarried
          · rw [Option.some.inj hcarried, hb]
            exact h.source
        · exact h.carried i c₁ hc₁ hb hheld w hw

/-- **Once clean, always clean.** -/
theorem step (h : Clean scope k v s) (hapart : Apart ops)
    (hd : .start d .deleteCache scope keys ∈ ops) (hk : k ∈ keys) (hr : Reached ops s op) :
    Clean scope k v (step s op) := by
  have hsource := h.source.trans (source_le_step s op scope.businessId k)
  cases op with
  | start id kind scope' keys' =>
      obtain heq | ⟨-, c, heq, -, -, -, hphase⟩ := s.start_eq id kind scope' keys'
      · rw [CacheManager.step, heq]
        exact h
      · rw [CacheManager.step, heq] at hsource ⊢
        refine ⟨hsource, h.entry, fun i c₁ hc₁ hb hheld w hw => ?_⟩
        rw [State.calls_setCall] at hc₁
        split at hc₁
        · cases hc₁
          rw [hphase] at hw
          split at hw <;> cases hw
        · exact h.carried i c₁ hc₁ hb hheld w hw
  | advance id ch => exact h.advance hapart hd hk hr
  | change businessId key => exact ⟨hsource, h.entry, h.carried⟩
  | expire namespaceId key =>
      refine ⟨hsource, fun w hw => ?_, h.carried⟩
      rw [CacheManager.step, entry_setEntry] at hw
      split at hw
      · cases hw
      · exact h.entry w hw

end Clean

/-! ## Until the removal -/

/-- A deletion has still to remove the key under its lock. -/
def Phase.Pending (k : String) : Phase → Prop
  | .locking todo locked failed => k ∈ todo ∨ k ∈ locked ∨ k ∈ failed
  | .removing todo locked failed => k ∈ todo ∧ k ∈ locked ∨ k ∈ failed
  | .unlocking _ inputKeys again => again = true ∧ k ∈ inputKeys
  | _ => False

/-- **A step leaves the key to remove, or removes it** under its lock. -/
theorem Moves.pending {e : Effect} (h : Moves free source ch c p e)
    (hkind : c.kind = .deleteCache) (hk : k ∈ c.keys) (hpending : c.phase.Pending k)
    (hfits : k ∈ c.phase.nextRemoved ch.pick → k ∈ c.phase.held → ch.applied = true) :
    p.Pending k ∨ e = .write k none ∧ k ∈ p.held ∧ p.carried = [] := by
  cases h with
  | lock h hfree =>
      rw [h, Phase.Pending, List.mem_cons] at hpending
      left
      obtain (rfl | hk) | hk | hk := hpending
      · exact .inr (.inl (by simp))
      · exact .inl hk
      · exact .inr (.inl (List.mem_append_left _ hk))
      · exact .inr (.inr hk)
  | fail h hbusy =>
      rw [h, Phase.Pending, List.mem_cons] at hpending
      left
      obtain (rfl | hk) | hk | hk := hpending
      · exact .inr (.inr (by simp))
      · exact .inl hk
      · exact .inr (.inl hk)
      · exact .inr (.inr (List.mem_append_left _ hk))
  | giveUp h =>
      rw [h] at hpending
      simpa [Phase.Pending] using hpending
  | remove h hne _ =>
      rw [h] at hpending
      left
      simpa [Phase.Pending, hk] using hpending
  | produce h hne hkind' => exact absurd hkind hkind'
  | removal h hpick happlied =>
      rw [h] at hpending
      rw [Phase.Pending, mem_iff_of_rotate hpick] at hpending
      obtain ⟨rfl | hmem, hlocked⟩ | hfailed := hpending
      · exact .inr ⟨rfl, hlocked, rfl⟩
      · exact .inl (.inl ⟨hmem, hlocked⟩)
      · exact .inl (.inr hfailed)
  | removalLost h hpick happlied =>
      rw [h] at hpending hfits
      rw [Phase.Pending, mem_iff_of_rotate hpick] at hpending
      obtain ⟨rfl | hmem, hlocked⟩ | hfailed := hpending
      · rw [hfits (by simp [Phase.nextRemoved, hpick]) hlocked] at happlied
        cases happlied
      · exact .inl (.inl ⟨hmem, hlocked⟩)
      · exact .inl (.inr hfailed)
  | @endRound locked failed h =>
      obtain h | h | h := h
      · rw [h] at hpending
        exact hpending.elim
      · rw [h] at hpending
        exact hpending.elim
      · rw [h] at hpending
        have hfailed : k ∈ failed := hpending.resolve_left fun h => List.not_mem_nil h.1
        exact .inl ⟨by simp [List.ne_nil_of_mem hfailed], hfailed⟩
  | unlock h =>
      rw [h] at hpending
      exact .inl hpending
  | again h =>
      rw [h] at hpending
      exact .inl (.inl hpending.2)
  | leave h =>
      rw [h] at hpending
      cases hpending.1
  | _ h =>
      rw [h] at hpending
      exact hpending.elim

/-- A deletion is under way, or it has left nothing older than `v`. -/
def Deleting (d : ℕ) (scope : Scope) (keys : List String) (k : String) (v : ℕ) (s : State) : Prop :=
  v ≤ s.source scope.businessId k ∧ ∃ c, s.calls d = some c ∧ c.kind = .deleteCache ∧
    c.scope = scope ∧ c.keys = keys ∧ (c.phase.Pending k ∨ Clean scope k v s)

/-- **What a deletion has removed under its lock** is not carried by any other call under it. -/
theorem clean_of_removed (howned : Owned s) (hv : v ≤ s.source scope.businessId k)
    (hc : s.calls d = some c) (hheld : k ∈ c.phase.held) (hcarried : c.phase.carried = [])
    (hentry : s.entry scope k = none) : Clean scope k v s := by
  refine ⟨hv, fun w hw => ?_, fun i c₁ hc₁ _ hheld₁ w hw => ?_⟩
  · rw [hentry] at hw
    cases hw
  · have hi := (howned.holder i c₁ hc₁ k).mpr hheld₁
    rw [(howned.holder d c hc k).mpr hheld, Option.some.injEq] at hi
    subst hi
    rw [hc] at hc₁
    cases hc₁
    rw [hcarried] at hw
    cases hw

/-- A step leaves a deletion under way. -/
theorem Deleting.step (h : Deleting d scope keys k v s) (hapart : Apart ops)
    (hd : .start d .deleteCache scope keys ∈ ops) (hk : k ∈ keys) (hr : Reached ops s op) :
    Deleting d scope keys k v (CacheManager.step s op) := by
  obtain ⟨hv, c, hc, hkind, rfl, rfl, hpending⟩ := h
  have hv' := hv.trans (source_le_step s op c.scope.businessId k)
  refine ⟨hv', ?_⟩
  obtain hc' | ⟨ch, c', e, rfl, heq, hkind', hscope', hkeys', hmoves⟩ := calls_step hc op
  · exact ⟨c, hc', hkind, rfl, rfl, hpending.imp_right fun h => h.step hapart hd hk hr⟩
  · have hc' : (CacheManager.step s (.advance d ch)).calls d = some c' := by
      rw [heq, State.calls_setCall, if_pos rfl]
    refine ⟨c', hc', hkind'.trans hkind, hscope', hkeys', ?_⟩
    obtain hpending | hclean := hpending
    · obtain hpending | ⟨rfl, hheld, hcarried⟩ := hmoves.pending hkind hk hpending
        fun hnext hheld => (hr.fits c hc).2 k hnext ((hr.owned.holder d c hc k).mpr hheld)
      · exact .inl hpending
      · refine .inr (clean_of_removed (hr.owned.step _) hv' hc' hheld hcarried ?_)
        rw [heq]
        exact (entry_setEntry s c.scope k _ _ none).trans (if_pos ⟨rfl, rfl⟩)
    · exact .inr (hclean.step hapart hd hk hr)

/-- A call that begins. -/
theorem start_new {s : State} (h : s.calls id = none) (kind : Kind) (scope : Scope)
    (keys : List String) : step s (.start id kind scope keys) = s.setCall id
      ⟨kind, scope, keys, if kind = .get then .lookup else .locking keys [] [], [], true⟩ := by
  rw [step, State.start, h]

/-- Once a deletion that was made behind a change has returned, nothing that was produced before
the change is cached for its keys. -/
def NeverReinstates (ops : List Op) : Prop :=
  ∀ before between after d scope keys,
    ops = before ++ .start d .deleteCache scope keys :: (between ++ after) →
    (runOps step State.init before).calls d = none →
    (∃ c, (runOps step State.init (before ++ .start d .deleteCache scope keys :: between)).calls d =
      some c ∧ c.phase = .returned) →
    ∀ k ∈ keys, ∀ v, (runOps step State.init ops).entry scope k = some v →
      (runOps step State.init before).source scope.businessId k ≤ v

/-- **Deleted data stays deleted.** -/
theorem neverReinstates (hapart : Apart ops) (hops : StepsMeet step Fits State.init ops) :
    NeverReinstates ops := by
  intro before between after d scope keys heq hnew hreturned k hk v hv
  have hd : .start d .deleteCache scope keys ∈ ops := by simp [heq]
  have hreached := stepsMeet_reached hops
  generalize hreached' : Reached ops = R at hreached
  rw [heq, stepsMeet_append, stepsMeet_cons, stepsMeet_append] at hreached
  subst hreached'
  obtain ⟨-, -, hbetween, hafter⟩ := hreached
  rw [runOps_append, runOps_cons] at hreturned
  rw [heq, runOps_append, runOps_cons, runOps_append] at hv
  rw [start_new hnew] at hbetween hafter hreturned hv
  set s₀ := runOps step State.init before
  set s₁ := runOps step (s₀.setCall d ⟨.deleteCache, scope, keys, if Kind.deleteCache = .get then
    .lookup else .locking keys [] [], [], true⟩) between
  have hdeleting : Deleting d scope keys k (s₀.source scope.businessId k) s₁ := by
    refine run_invariant (fun s op h hr => h.step hapart hd hk hr) ?_ hbetween
    exact ⟨le_refl _, _, if_pos rfl, rfl, rfl, rfl, .inl (.inl hk)⟩
  obtain ⟨c, hc, hphase⟩ := hreturned
  obtain ⟨-, c₁, hc₁, -, -, -, hclean⟩ := hdeleting
  rw [hc, Option.some.injEq] at hc₁
  subst hc₁
  rw [hphase] at hclean
  have hclean := run_invariant (fun s op h hr => Clean.step h hapart hd hk hr)
    (hclean.resolve_left fun h => h) hafter
  exact hclean.entry v hv

/-! ## Every run -/

/-- Every call of a run whose calls have keys goes through its rounds to the end. -/
theorem run_ongoing (hkeys : HaveKeys ops) (hc : (runOps step State.init ops).calls id = some c) :
    c.phase.Ongoing := by
  refine calls_invariant (P := fun c => c.phase.Ongoing) (C := fun _ op => op ∈ ops) ?_ ?_
    (stepsMeet_of_forall _ fun op h => h) id c hc
  · intro s id c hmem hphase
    rw [hphase]
    split
    · trivial
    · next hkind => simpa [Phase.Ongoing] using hkeys _ _ _ _ hmem hkind
  · intro free source ch c c' e hc _ _ _ hmoves
    exact hmoves.ongoing hc

/-- **Where data is stored under locks only, deleted data stays deleted**, and every call returns
when its keys are there to lock. -/
theorem run_neverReinstates_returns {ops : List Op} (hkeys : HaveKeys ops) (hapart : Apart ops)
    (hops : StepsMeet step Fits State.init ops) : NeverReinstates ops ∧
      ∀ id c, (runOps step State.init ops).calls id = some c → c.Returns :=
  ⟨neverReinstates hapart hops, fun _ _ hc =>
    Call.returns (run_ongoing hkeys hc) fun _ hk => run_within ops hc hk⟩

theorem bigKey_inj {b : String} (h : bigKey b k = bigKey b k') : k = k' :=
  (String.append_right_inj _).mp h

/-- The calls for one business keep apart. -/
theorem apart_of_scope (h : ∀ id kind scope' keys, .start id kind scope' keys ∈ ops →
    scope' = scope) : Apart ops := by
  intro _ _ _ _ _ _ _ _ hmem hmem' _ k _ k' _ hkey
  rw [h _ _ _ _ hmem, h _ _ _ _ hmem'] at hkey ⊢
  exact ⟨rfl, bigKey_inj hkey⟩

/-- Where everything is done in order and the producer has data for each key. -/
def inOrder : Choice := ⟨fun _ => false, false, 0, .data, true, true⟩

/-- Two keys are loaded, one of them changes and is deleted. -/
def reload : List Op :=
  .start 1 .load ⟨"n", "u"⟩ ["a", "b"] :: List.replicate 12 (.advance 1 inOrder) ++
    .change "u" "b" :: .start 2 .deleteCache ⟨"n", "u"⟩ ["b"] ::
    List.replicate 6 (.advance 2 inOrder)

theorem run_neverReinstates_returns_reload : NeverReinstates reload ∧
    ∀ id c, (runOps step State.init reload).calls id = some c → c.Returns := by
  have hstarts : ∀ id kind scope keys, Op.start id kind scope keys ∈ reload →
      scope = ⟨"n", "u"⟩ ∧ keys ≠ [] := by
    intro id kind scope keys hmem
    simp only [reload, List.cons_append, List.mem_cons, List.mem_append, List.mem_replicate,
      Op.start.injEq, reduceCtorEq, and_false, false_or, or_false] at hmem
    obtain ⟨-, -, rfl, rfl⟩ | ⟨-, -, rfl, rfl⟩ := hmem <;> exact ⟨rfl, by simp⟩
  apply run_neverReinstates_returns
  · exact fun id kind scope keys hmem _ => (hstarts id kind scope keys hmem).2
  · exact apart_of_scope fun id kind scope keys hmem => (hstarts id kind scope keys hmem).1
  · decide +kernel

/-- A load of two keys gets the lock of the first, and produces both. -/
def loadOfTwo : List Op :=
  .start 3 .load ⟨"n", "u"⟩ ["b"] :: .advance 3 inOrder ::
    .start 1 .load ⟨"n", "u"⟩ ["a", "b"] :: List.replicate 6 (.advance 1 inOrder) ++
    .change "u" "b" :: List.replicate 7 (.advance 3 inOrder)

/-- Then the second is deleted, and after that the load stores it; and a load without keys does
not return. -/
theorem unlocked_key_reinstated :
    ¬NeverReinstates (loadOfTwo ++ .start 2 .deleteCache ⟨"n", "u"⟩ ["b"] ::
      (List.replicate 6 (.advance 2 inOrder) ++ List.replicate 2 (.advance 1 inOrder))) ∧
    ∃ c, (runOps step State.init [.start 1 .load ⟨"n", "u"⟩ []]).calls 1 = some c ∧
      ¬c.Returns := by
  refine ⟨fun h => ?_, _, rfl, Call.not_returns_of_empty rfl⟩
  have hreturned : ((runOps step State.init (loadOfTwo ++ .start 2 .deleteCache ⟨"n", "u"⟩ ["b"] ::
      List.replicate 6 (.advance 2 inOrder))).calls 2).map Call.phase = some .returned := by
    decide +kernel
  have hle := h _ _ _ 2 ⟨"n", "u"⟩ ["b"] rfl (by decide +kernel)
    (Option.map_eq_some_iff.mp hreturned) "b" (by decide) 0 (by decide +kernel)
  exact absurd hle (by decide +kernel)

end Oce.Tripod.CacheManager
