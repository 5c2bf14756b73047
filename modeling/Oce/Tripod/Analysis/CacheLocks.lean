import Mathlib.Data.Prod.Lex
import Oce.Tripod.Model.CacheManager

/-!
# Who holds a lock, and what is under way

`Moves` says once what a step of a call can do; all that follows goes through its cases.

`held` are the keys that a call has locked and not let go of, `carried` the data that it was given
and has not stored. A step takes or releases at most the one lock it says (`Moves.held`), and what
a call carries after it was carried before or is read now, under the same locks (`Moves.carried`).
So in every reachable state a key is locked by the one call that holds it (`Owned`).
-/

set_option autoImplicit false

namespace Oce.Tripod.CacheManager

open Oce.Base

variable {n id : ℕ} {k : String} {s : State} {c : Call}

/-! ## What a step can do -/

/-- The phase and the trace that a step leaves. -/
inductive Moves (free : String → Bool) (source : String → ℕ) (ch : Choice) (c : Call) :
    Phase → Effect → Prop
  | hit (h : c.phase = .lookup) : Moves free source ch c .returned .nothing
  | miss {inputKeys : List String} (h : c.phase = .lookup) (hne : inputKeys ≠ [])
      (hsub : inputKeys.Sublist c.keys) :
      Moves free source ch c (.locking inputKeys [] []) .nothing
  | lock {k : String} {todo locked failed : List String}
      (h : c.phase = .locking (k :: todo) locked failed) (hfree : free k = true) :
      Moves free source ch c (.locking todo (locked ++ [k]) failed) (.lock k)
  | fail {k : String} {todo locked failed : List String}
      (h : c.phase = .locking (k :: todo) locked failed) (hbusy : free k = true → ch.busy = true) :
      Moves free source ch c (.locking todo locked (failed ++ [k])) .nothing
  | giveUp {failed : List String} (h : c.phase = .locking [] [] failed) :
      Moves free source ch c (.unlocking [] failed true) .nothing
  | remove {locked failed : List String} (h : c.phase = .locking [] locked failed)
      (hne : locked ≠ []) (hkind : c.kind = .deleteCache) :
      Moves free source ch c (.removing c.keys locked failed) .nothing
  | produce {locked failed : List String} (h : c.phase = .locking [] locked failed)
      (hne : locked ≠ []) (hkind : c.kind ≠ .deleteCache) :
      Moves free source ch c (.producing c.keys [] locked failed) .nothing
  | answer {k : String} {todo rest locked failed : List String} {singleRes singleRes' : DataMap}
      (h : c.phase = .producing todo singleRes locked failed)
      (hpick : todo.rotate ch.pick = k :: rest)
      (hres : singleRes' = singleRes ∨ ∃ data, (data = none ∨ data = some (source k)) ∧
        singleRes' = OrdMap.insertEntry k data singleRes) :
      Moves free source ch c (.producing rest singleRes' locked failed) .nothing
  | produced {singleRes : DataMap} {locked failed : List String}
      (h : c.phase = .producing [] singleRes locked failed) :
      Moves free source ch c (.storing singleRes locked failed) .nothing
  | store {todo rest : DataMap} {locked failed : List String} {k : String} {data : Data}
      (h : c.phase = .storing todo locked failed) (hpick : todo.rotate ch.pick = (k, data) :: rest)
      (happlied : ch.applied = true) :
      Moves free source ch c (.storing rest locked failed) (.write k data)
  | storeLost {todo rest : DataMap} {locked failed : List String} {k : String} {data : Data}
      (h : c.phase = .storing todo locked failed)
      (hpick : todo.rotate ch.pick = (k, data) :: rest) :
      Moves free source ch c (.storing rest locked failed) .nothing
  | removal {todo rest locked failed : List String} {k : String}
      (h : c.phase = .removing todo locked failed) (hpick : todo.rotate ch.pick = k :: rest)
      (happlied : ch.applied = true) :
      Moves free source ch c (.removing rest locked failed) (.write k none)
  | removalLost {todo rest locked failed : List String} {k : String}
      (h : c.phase = .removing todo locked failed) (hpick : todo.rotate ch.pick = k :: rest)
      (happlied : ch.applied = false) :
      Moves free source ch c (.removing rest locked failed) .nothing
  | endRound {locked failed : List String}
      (h : c.phase = .producing [] [] locked failed ∨ c.phase = .storing [] locked failed ∨
        c.phase = .removing [] locked failed) :
      Moves free source ch c (.unlocking locked failed !failed.isEmpty) .nothing
  | unlock {k : String} {todo inputKeys : List String} {again : Bool}
      (h : c.phase = .unlocking (k :: todo) inputKeys again) :
      Moves free source ch c (.unlocking todo inputKeys again) (.unlock k)
  | again {inputKeys : List String} (h : c.phase = .unlocking [] inputKeys true) :
      Moves free source ch c (.locking inputKeys [] []) .nothing
  | leave {inputKeys : List String} (h : c.phase = .unlocking [] inputKeys false) :
      Moves free source ch c .returned .nothing
  | stay (h : c.phase = .returned) : Moves free source ch c .returned .nothing

/-- A choice among the elements of a list. -/
theorem mem_iff_of_rotate {α : Type*} {l rest : List α} {a : α} (h : l.rotate n = a :: rest)
    (x : α) : x ∈ l ↔ x = a ∨ x ∈ rest := by
  rw [← List.mem_rotate, h, List.mem_cons]

theorem mem_map_of_rotate {α β : Type*} {f : α → β} {l rest : List α} {a : α} {b : β}
    (h : l.rotate n = a :: rest) (hb : b ∈ rest.map f) : b ∈ l.map f := by
  obtain ⟨x, hx, rfl⟩ := List.mem_map.mp hb
  exact List.mem_map_of_mem ((mem_iff_of_rotate h x).mpr (.inr hx))

theorem eq_nil_of_rotate {α : Type*} {l : List α} (h : l.rotate n = []) : l = [] :=
  List.rotate_eq_nil_iff.mp h

namespace Call

variable {free : String → Bool} {cached : String → Option ℕ} {source : String → ℕ} {ch : Choice}
  {c : Call}

/-- What a call was made with stays. -/
theorem next_eq : (c.next free cached source ch).1.kind = c.kind ∧
    (c.next free cached source ch).1.scope = c.scope ∧
    (c.next free cached source ch).1.keys = c.keys := by
  fun_cases next free cached source ch c <;> simp_all [endRound]

/-- **Every step is one of the moves.** -/
theorem next_moves : Moves free source ch c (c.next free cached source ch).1.phase
    (c.next free cached source ch).2 := by
  fun_cases next free cached source ch c
  case case1 hphase _ _ _ _ => exact .hit hphase
  case case2 hphase found inputKeys _ hne =>
    exact .miss hphase (fun h => hne (by rw [h]; rfl)) List.filter_sublist
  case case3 hphase => exact .giveUp hphase
  case case4 hphase hkind => exact .remove hphase (List.cons_ne_nil _ _) hkind
  case case5 hphase hkind => exact .produce hphase (List.cons_ne_nil _ _) hkind
  case case6 hphase hfree =>
    rw [Bool.and_eq_true] at hfree
    exact .lock hphase hfree.1
  case case7 hphase hfree =>
    refine .fail hphase fun h => ?_
    simpa [h] using hfree
  case case8 hphase hpick hempty =>
    rw [eq_nil_of_rotate hpick, List.isEmpty_iff.mp hempty] at hphase
    exact .endRound (.inl hphase)
  case case9 hphase hpick _ =>
    rw [eq_nil_of_rotate hpick] at hphase
    exact .produced hphase
  case case10 hphase _ _ hpick _ => exact .answer hphase hpick (.inl rfl)
  case case11 hphase _ _ hpick _ => exact .answer hphase hpick (.inr ⟨none, .inl rfl, rfl⟩)
  case case12 hphase _ _ hpick _ => exact .answer hphase hpick (.inr ⟨_, .inr rfl, rfl⟩)
  case case13 hphase hpick =>
    rw [eq_nil_of_rotate hpick] at hphase
    exact .endRound (.inr (.inl hphase))
  case case14 hphase _ _ _ hpick happlied => exact .store hphase hpick happlied
  case case15 hphase _ _ _ hpick _ => exact .storeLost hphase hpick
  case case16 hphase hpick =>
    rw [eq_nil_of_rotate hpick] at hphase
    exact .endRound (.inr (.inr hphase))
  case case17 hphase _ _ hpick happlied => exact .removal hphase hpick happlied
  case case18 hphase _ _ hpick happlied =>
    exact .removalLost hphase hpick (Bool.eq_false_of_not_eq_true happlied)
  case case19 hphase => exact .again hphase
  case case20 hphase hagain =>
    rw [Bool.eq_false_of_not_eq_true hagain] at hphase
    exact .leave hphase
  case case21 hphase => exact .unlock hphase
  case case22 hphase => exact hphase ▸ .stay hphase

end Call

/-! ## What a call holds and carries -/

namespace Phase

/-- The keys a call holds. -/
def held : Phase → List String
  | lookup => []
  | locking _ locked _ => locked
  | producing _ _ locked _ => locked
  | storing _ locked _ => locked
  | removing _ locked _ => locked
  | unlocking todo _ _ => todo
  | returned => []

/-- The data a call was given and has not stored. -/
def carried : Phase → DataMap
  | producing _ singleRes _ _ => singleRes
  | storing todo _ _ => todo
  | _ => []

/-- The keys a call has in hand. -/
def inHand : Phase → List String
  | locking todo locked failed => todo ++ locked ++ failed
  | producing todo singleRes locked failed => todo ++ singleRes.map Prod.fst ++ locked ++ failed
  | storing todo locked failed => todo.map Prod.fst ++ locked ++ failed
  | removing todo locked failed => todo ++ locked ++ failed
  | unlocking todo inputKeys _ => todo ++ inputKeys
  | _ => []

theorem held_subset {p : Phase} (h : k ∈ p.held) : k ∈ p.inHand := by
  cases p <;> simp_all [held, inHand]

end Phase

namespace Moves

variable {free : String → Bool} {source : String → ℕ} {ch : Choice} {c : Call} {p : Phase}
  {e : Effect}

/-- **A step takes or releases the lock it says.** -/
theorem held (h : Moves free source ch c p e) :
    (p.held = c.phase.held ∧ ∀ k, e ≠ .lock k ∧ e ≠ .unlock k) ∨
    (∃ k, e = .lock k ∧ free k = true ∧ p.held = c.phase.held ++ [k]) ∨
    ∃ k, e = .unlock k ∧ c.phase.held = k :: p.held := by
  cases h with
  | lock h hfree => exact .inr (.inl ⟨_, rfl, hfree, by rw [h]; rfl⟩)
  | unlock h => exact .inr (.inr ⟨_, rfl, by rw [h]; rfl⟩)
  | endRound h =>
      refine .inl ⟨?_, fun k => ⟨nofun, nofun⟩⟩
      rcases h with h | h | h <;> rw [h] <;> rfl
  | stay h => exact .inl ⟨by rw [h], fun k => ⟨nofun, nofun⟩⟩
  | _ h => exact .inl ⟨by rw [h]; rfl, fun k => ⟨nofun, nofun⟩⟩

/-- **What a call carries** it carried before, or it was read from the source or is empty; and
the locks are the same as before. -/
theorem carried (h : Moves free source ch c p e) {d : String × Data} (hd : d ∈ p.carried) :
    p.held = c.phase.held ∧ (d ∈ c.phase.carried ∨ d.2 = none ∨ d.2 = some (source d.1)) := by
  cases h with
  | answer h hpick hres =>
      refine ⟨by rw [h]; rfl, ?_⟩
      rcases hres with rfl | ⟨data, hdata, rfl⟩
      · exact .inl (by rw [h]; exact hd)
      · rcases OrdMap.mem_of_mem_insertEntry hd with rfl | hd
        · exact .inr hdata
        · exact .inl (by rw [h]; exact hd)
  | produced h => exact ⟨by rw [h]; rfl, .inl (by rw [h]; exact hd)⟩
  | store h hpick =>
      refine ⟨by rw [h]; rfl, .inl ?_⟩
      rw [h]
      exact (mem_iff_of_rotate hpick d).mpr (.inr hd)
  | storeLost h hpick =>
      refine ⟨by rw [h]; rfl, .inl ?_⟩
      rw [h]
      exact (mem_iff_of_rotate hpick d).mpr (.inr hd)
  | _ => cases hd

/-- The keys in hand are keys of the call. -/
theorem inHand (h : Moves free source ch c p e) (hk : k ∈ p.inHand) :
    k ∈ c.phase.inHand ∨ k ∈ c.keys := by
  cases h with
  | miss h hne hsub => exact .inr (hsub.subset (by simpa [Phase.inHand] using hk))
  | answer h hpick hres =>
      left
      rw [h]
      have hmem := mem_iff_of_rotate hpick k
      simp only [Phase.inHand, List.mem_append] at hk ⊢
      rcases hk with ((hk | hk) | hk) | hk
      · exact .inl (.inl (.inl (hmem.mpr (.inr hk))))
      · rcases hres with rfl | ⟨data, -, rfl⟩
        · exact .inl (.inl (.inr hk))
        · rcases OrdMap.mem_keys_insertEntry.mp hk with rfl | hk
          · exact .inl (.inl (.inl (hmem.mpr (.inl rfl))))
          · exact .inl (.inl (.inr hk))
      · exact .inl (.inr hk)
      · exact .inr hk
  | store h hpick =>
      left
      rw [h]
      simp only [Phase.inHand, List.mem_append] at hk ⊢
      exact hk.imp (Or.imp (fun hk => mem_map_of_rotate hpick hk) id) id
  | storeLost h hpick =>
      left
      rw [h]
      simp only [Phase.inHand, List.mem_append] at hk ⊢
      exact hk.imp (Or.imp (fun hk => mem_map_of_rotate hpick hk) id) id
  | removal h hpick =>
      left
      rw [h]
      simp only [Phase.inHand, List.mem_append] at hk ⊢
      exact hk.imp (Or.imp (fun hk => (mem_iff_of_rotate hpick k).mpr (.inr hk)) id) id
  | removalLost h hpick =>
      left
      rw [h]
      simp only [Phase.inHand, List.mem_append] at hk ⊢
      exact hk.imp (Or.imp (fun hk => (mem_iff_of_rotate hpick k).mpr (.inr hk)) id) id
  | endRound h => rcases h with h | h | h <;> rw [h] <;> simp_all [Phase.inHand]
  | _ h => rw [h]; simp_all [Phase.inHand, or_comm, or_left_comm]

end Moves

/-! ## One holder for a key -/

/-- A key is locked by the call that holds it, once. -/
structure Owned (s : State) : Prop where
  holder : ∀ id c, s.calls id = some c → ∀ k, s.holder k = some id ↔ k ∈ c.phase.held
  nodup : ∀ id c, s.calls id = some c → c.phase.held.Nodup
  called : ∀ k id, s.holder k = some id → ∃ c, s.calls id = some c

namespace State

@[simp] theorem calls_setCall (s : State) (id i : ℕ) (c : Call) :
    (s.setCall id c).calls i = if i = id then some c else s.calls i := rfl

@[simp] theorem holder_setCall (s : State) (id : ℕ) (c : Call) :
    (s.setCall id c).holder = s.holder := rfl

@[simp] theorem source_setCall (s : State) (id : ℕ) (c : Call) :
    (s.setCall id c).source = s.source := rfl

@[simp] theorem cache_setCall (s : State) (id : ℕ) (c : Call) :
    (s.setCall id c).cache = s.cache := rfl

@[simp] theorem calls_apply (s : State) (id : ℕ) (scope : Scope) (e : Effect) :
    (s.apply id scope e).calls = s.calls := by
  cases e <;> rfl

@[simp] theorem source_apply (s : State) (id : ℕ) (scope : Scope) (e : Effect) :
    (s.apply id scope e).source = s.source := by
  cases e <;> rfl

theorem holder_apply (s : State) (id : ℕ) (scope : Scope) (e : Effect) (k : String) :
    (s.apply id scope e).holder k =
      if e = .lock k then some id else if e = .unlock k then none else s.holder k := by
  cases e with
  | lock k' => simp [apply, setHolder, eq_comm]
  | unlock k' => simp [apply, setHolder, eq_comm]
  | _ => simp [apply, setEntry]

/-- **A step of a call**, as one of the moves and its trace. -/
theorem advance_eq (h : s.calls id = some c) (ch : Choice) :
    ∃ c' e, s.advance id ch = (s.apply id c.scope e).setCall id c' ∧ c'.kind = c.kind ∧
      c'.scope = c.scope ∧ c'.keys = c.keys ∧
      Moves (fun k => (s.holder k).isNone) (s.source c.scope.businessId) ch c c'.phase e := by
  have hkeeps := @Call.next_eq (fun k => (s.holder k).isNone) (s.entry c.scope)
    (s.source c.scope.businessId) ch c
  refine ⟨_, _, ?_, hkeeps.1, hkeeps.2.1, hkeeps.2.2, Call.next_moves⟩
  rw [advance, h]

theorem advance_none (h : s.calls id = none) (ch : Choice) : s.advance id ch = s := by
  rw [advance, h]

/-- A call that begins, or one whose number is taken. -/
theorem start_eq (s : State) (id : ℕ) (kind : Kind) (scope : Scope) (keys : List String) :
    s.start id kind scope keys = s ∨ s.calls id = none ∧ ∃ c, s.start id kind scope keys =
      s.setCall id c ∧ c.kind = kind ∧ c.scope = scope ∧ c.keys = keys ∧
      c.phase = if kind = .get then .lookup else .locking keys [] [] := by
  unfold start
  cases h : s.calls id with
  | some c => exact .inl rfl
  | none => exact .inr ⟨rfl, _, rfl, rfl, rfl, rfl, rfl⟩

end State

theorem owned_init : Owned State.init := ⟨nofun, nofun, nofun⟩

namespace Owned

variable {s : State}

/-- A new call holds nothing. -/
theorem start (h : Owned s) (id : ℕ) (kind : Kind) (scope : Scope) (keys : List String) :
    Owned (s.start id kind scope keys) := by
  obtain heq | ⟨hnone, c, heq, -, -, -, hphase⟩ := s.start_eq id kind scope keys <;> rw [heq]
  · exact h
  have hheld : c.phase.held = [] := by
    rw [hphase]
    split <;> rfl
  constructor
  · intro i d hd k
    rw [State.calls_setCall] at hd
    split at hd
    · next hi =>
      cases hd
      rw [State.holder_setCall, hheld, hi]
      refine iff_of_false (fun hk => ?_) (List.not_mem_nil)
      obtain ⟨d, hd⟩ := h.called k id hk
      rw [hnone] at hd
      cases hd
    · exact h.holder i d hd k
  · intro i d hd
    rw [State.calls_setCall] at hd
    split at hd
    · cases hd
      rw [hheld]
      exact List.nodup_nil
    · exact h.nodup i d hd
  · intro k i hk
    obtain ⟨d, hd⟩ := h.called k i hk
    rw [State.calls_setCall]
    split
    · exact ⟨c, rfl⟩
    · exact ⟨d, hd⟩

/-- A key that another call has locked is not locked by this one. -/
theorem not_held (h : Owned s) {i : ℕ} {d : Call} (hd : s.calls i = some d)
    (hk : s.holder k ≠ some i) : k ∉ d.phase.held :=
  fun hmem => hk ((h.holder i d hd k).mpr hmem)

/-- **A step takes or releases its own lock only.** -/
theorem advance (h : Owned s) (id : ℕ) (ch : Choice) : Owned (s.advance id ch) := by
  cases hc : s.calls id with
  | none =>
      rw [State.advance_none hc]
      exact h
  | some c =>
      obtain ⟨c', e, heq, -, -, -, hmoves⟩ := State.advance_eq hc ch
      rw [heq]
      constructor
      · intro i d hd k
        rw [State.holder_setCall, State.holder_apply]
        rw [State.calls_setCall, State.calls_apply] at hd
        split at hd
        · next hi =>
          cases hd
          rw [hi]
          have hholder := h.holder id c hc k
          have hnodup := h.nodup id c hc
          obtain ⟨hheld, he⟩ | ⟨k₀, rfl, -, hheld⟩ | ⟨k₀, rfl, hheld⟩ := hmoves.held
          · rw [if_neg (he k).1, if_neg (he k).2, hheld]
            exact hholder
          · rw [hheld, List.mem_append, List.mem_singleton, ← hholder]
            by_cases hk : k₀ = k
            · simp [hk]
            · simp [hk, Ne.symm hk]
          · rw [hheld] at hholder hnodup
            rw [List.mem_cons] at hholder
            by_cases hk : k₀ = k
            · subst hk
              simp [(List.nodup_cons.mp hnodup).1]
            · simp [hk, Ne.symm hk, hholder]
        · next hi =>
          have hholder := h.holder i d hd k
          obtain ⟨-, he⟩ | ⟨k₀, rfl, hfree, -⟩ | ⟨k₀, rfl, hheld⟩ := hmoves.held
          · rw [if_neg (he k).1, if_neg (he k).2]
            exact hholder
          · by_cases hk : k₀ = k
            · subst hk
              have hnot : s.holder k₀ ≠ some i := by simp [Option.isNone_iff_eq_none.mp hfree]
              simp [h.not_held hd hnot, Ne.symm hi]
            · simpa [hk] using hholder
          · by_cases hk : k₀ = k
            · subst hk
              have hmine := (h.holder id c hc k₀).mpr (hheld ▸ List.mem_cons_self)
              have hnot : s.holder k₀ ≠ some i := by simpa [hmine] using Ne.symm hi
              simp [h.not_held hd hnot]
            · simpa [hk] using hholder
      · intro i d hd
        rw [State.calls_setCall, State.calls_apply] at hd
        split at hd
        · cases hd
          have hnodup := h.nodup id c hc
          obtain ⟨hheld, -⟩ | ⟨k, -, hfree, hheld⟩ | ⟨k, -, hheld⟩ := hmoves.held
          · rwa [hheld]
          · rw [hheld]
            have hnot : k ∉ c.phase.held :=
              h.not_held hc (by simp [Option.isNone_iff_eq_none.mp hfree])
            refine List.nodup_append.mpr ⟨hnodup, List.nodup_singleton k, fun a ha b hb hab => ?_⟩
            rw [hab, List.mem_singleton.mp hb] at ha
            exact hnot ha
          · rw [hheld] at hnodup
            exact (List.nodup_cons.mp hnodup).2
        · exact h.nodup i d hd
      · intro k i hk
        rw [State.holder_setCall, State.holder_apply] at hk
        rw [State.calls_setCall, State.calls_apply]
        split
        · exact ⟨c', rfl⟩
        · next hi =>
          split_ifs at hk
          · exact absurd (Option.some.inj hk).symm hi
          · exact h.called k i hk

theorem step (h : Owned s) (op : Op) : Owned (step s op) := by
  cases op with
  | start id kind scope keys => exact h.start id kind scope keys
  | advance id ch => exact h.advance id ch
  | change businessId key => exact ⟨h.holder, h.nodup, h.called⟩
  | expire namespaceId key => exact ⟨h.holder, h.nodup, h.called⟩

/-- **In every run a key is locked by the call that holds it.** -/
theorem run (ops : List Op) : Owned (runOps CacheManager.step State.init ops) :=
  run_invariant_all (fun _ op h => h.step op) owned_init ops

end Owned

/-- **What a step leaves of a call**: the call itself, or what its own step makes of it. -/
theorem calls_step (hc : s.calls id = some c) (op : Op) :
    (step s op).calls id = some c ∨ ∃ ch c' e, op = .advance id ch ∧
      step s op = (s.apply id c.scope e).setCall id c' ∧ c'.kind = c.kind ∧
      c'.scope = c.scope ∧ c'.keys = c.keys ∧
      Moves (fun k => (s.holder k).isNone) (s.source c.scope.businessId) ch c c'.phase e := by
  cases op with
  | start i kind scope keys =>
      left
      obtain heq | ⟨hnone, c', heq, -⟩ := s.start_eq i kind scope keys
      · rw [step, heq, hc]
      · have hne : id ≠ i := fun h => by
          rw [h, hnone] at hc
          cases hc
        rw [step, heq, State.calls_setCall, if_neg hne, hc]
  | advance i ch =>
      by_cases hi : id = i
      · subst hi
        obtain ⟨c', e, h⟩ := State.advance_eq hc ch
        exact .inr ⟨ch, c', e, rfl, h⟩
      · left
        cases hi' : s.calls i with
        | none => rw [step, State.advance_none hi', hc]
        | some c₁ =>
            obtain ⟨c', e, heq, -⟩ := State.advance_eq hi' ch
            rw [step, heq, State.calls_setCall, if_neg hi, State.calls_apply, hc]
  | change businessId key => exact .inl hc
  | expire namespaceId key => exact .inl hc

/-- What holds of every new call and is kept by its moves holds of every call of a run. -/
theorem calls_invariant {P : Call → Prop} {C : State → Op → Prop}
    (hstart : ∀ s id c, C s (.start id c.kind c.scope c.keys) →
      (c.phase = if c.kind = .get then .lookup else .locking c.keys [] []) → P c)
    (hmoves : ∀ free source ch (c c' : Call) e, P c → c'.kind = c.kind → c'.scope = c.scope →
      c'.keys = c.keys → Moves free source ch c c'.phase e → P c')
    {ops : List Op} (hops : StepsMeet step C State.init ops) :
    ∀ id c, (runOps step State.init ops).calls id = some c → P c := by
  have hinit : ∀ id c, State.init.calls id = some c → P c := nofun
  refine @run_invariant _ _ step C (fun s => ∀ id c, s.calls id = some c → P c) ?_ _ hinit ops hops
  intro s op h hC
  cases op with
  | start id kind scope keys =>
      obtain heq | ⟨-, c, heq, rfl, rfl, rfl, hphase⟩ := s.start_eq id kind scope keys
      · rw [step, heq]
        exact h
      · intro i d hd
        rw [step, heq, State.calls_setCall] at hd
        split at hd
        · cases hd
          exact hstart s id c hC hphase
        · exact h i d hd
  | advance id ch =>
      cases hc : s.calls id with
      | none =>
          rw [step, State.advance_none hc]
          exact h
      | some c =>
          obtain ⟨c', e, heq, hkind, hscope, hkeys, hmove⟩ := State.advance_eq hc ch
          intro i d hd
          rw [step, heq, State.calls_setCall, State.calls_apply] at hd
          split at hd
          · cases hd
            exact hmoves _ _ _ c c' e (h id c hc) hkind hscope hkeys hmove
          · exact h i d hd
  | change businessId key => exact h
  | expire namespaceId key => exact h

/-- The keys a call has in hand are among those it was made with. -/
theorem run_within (ops : List Op) (hc : (runOps step State.init ops).calls id = some c)
    (hk : k ∈ c.phase.inHand) : k ∈ c.keys := by
  refine calls_invariant (P := fun c => ∀ k ∈ c.phase.inHand, k ∈ c.keys)
    (C := fun _ _ => True) ?_ ?_ (stepsMeet_of_forall _ fun _ _ => trivial) id c hc k hk
  · intro s id c _ hphase k hk
    rw [hphase] at hk
    split at hk
    · cases hk
    · simpa [Phase.inHand] using hk
  · intro free source ch c c' e hin _ _ hkeys hmoves k hk
    rw [hkeys]
    exact (hmoves.inHand hk).elim (hin k) fun h => h

end Oce.Tripod.CacheManager
