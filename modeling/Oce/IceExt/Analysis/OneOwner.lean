import Mathlib.Algebra.Group.Action.Defs
import Mathlib.Algebra.Order.BigOperators.Group.List
import Mathlib.Algebra.Order.Ring.Nat
import Oce.Base.Counted
import Oce.IceExt.Analysis.MutexCells

/-!
# One owner for a key

Every step changes the cell of one key at most, and what the threads know of the others stays true. The
count of a mutex is the number of threads that are about to lock it, have it or have not dropped it yet,
and of the tries that were refused, which never drop it (`Inv.counted`); so it is not freed while
somebody has it, and all who want one key meet at one mutex (`one_owner`).
-/

set_option autoImplicit false

namespace Oce.IceExt.TempMutex

open Function Oce.Base
open Oce.Base.LockTable (Event Owners)

variable {κ : Type} [LinearOrder κ] {number : κ → ℤ} {holderSize : ℤ}

open State

variable {s s' : State κ} {i p : ℕ} {k k' : κ} {m m' : TempMutexT}

/-! ## The threads -/

namespace Thread

/-- The locks that a thread has. -/
def held (th : Thread κ) : List (κ × ℕ) :=
  match th.phase with
  | .idle => []
  | .releasing todo => todo
  | .dropping _ todo => todo
  | _ => th.locksMap.entries

/-- The mutex that it has got and not locked, or unlocked and not dropped. -/
def pending (th : Thread κ) : List κ :=
  match th.phase with
  | .locking key _ _ => [key]
  | .dropping key _ => [key]
  | _ => []

/-- The addresses that it has. -/
def led (th : Thread κ) : List (κ × ℕ) :=
  match th.phase with
  | .locking key p _ => (key, p) :: th.locksMap.entries
  | _ => th.held

def keys (th : Thread κ) : List κ := th.held.map Prod.fst

/-- How often it is counted at the mutex of a key. -/
def counts (th : Thread κ) (k : κ) : ℕ := th.keys.count k + th.pending.count k

theorem counts_le {th : Thread κ} (h : th.keys.Nodup) (k : κ) : th.counts k ≤ 2 := by
  have hkeys := List.nodup_iff_count.mp h k
  have hpending : th.pending.count k ≤ th.pending.length := List.count_le_length
  have hone : th.pending.length ≤ 1 := by
    unfold pending
    split <;> simp
  unfold counts
  omega

/-- It is counted where it is led. -/
theorem counts_pos {th : Thread κ} (h : (k, p) ∈ th.led) : 0 < th.counts k := by
  have hheld : (k, p) ∈ th.held → 0 < th.counts k := fun hmem => by
    have hkeys : 0 < th.keys.count k := List.count_pos_iff.mpr (List.mem_map_of_mem hmem)
    unfold counts
    omega
  unfold led at h
  split at h
  case h_1 key q todo hphase =>
      rcases List.mem_cons.mp h with heq | hmem
      · obtain ⟨rfl, rfl⟩ := Prod.mk.inj heq
        simp [counts, pending, hphase]
      · exact hheld (by simpa [held, hphase] using hmem)
  case h_2 => exact hheld h

end Thread

/-- How many tries of the mutex of a key were refused. -/
def refusals (log : List (Event ℕ κ)) (k : κ) : ℕ :=
  log.countP fun
    | .refused _ j => j = k
    | _ => false

namespace State

/-- What the mutex of a key is counted for. -/
def refs (s : State κ) (k : κ) : ℕ := (s.threads.map fun th => th.counts k).sum + refusals s.log k

end State

variable (number holderSize)

/-- What holds after every step, with the owners that the log leads to. -/
structure Inv (s : State κ) (o : Owners ℕ κ) : Prop where
  wf : s.Wf number holderSize
  sound : s.fault = false
  traced : LockTable.run (fun _ => none) s.log = some o
  counted : ∀ k, (s.cell number holderSize k).map Prod.snd = entry (s.refs k) (o k)
  owns : ∀ (t : ℕ) (th : Thread κ), s.threads[t]? = some th → ∀ k, k ∈ th.keys ↔ o k = some t
  there : ∀ k t, o k = some t → t < s.threads.length
  led : ∀ (t : ℕ) (th : Thread κ), s.threads[t]? = some th → ∀ k p, (k, p) ∈ th.led →
    ∃ m, s.cell number holderSize k = some (p, m)
  nodup : ∀ (t : ℕ) (th : Thread κ), s.threads[t]? = some th → th.keys.Nodup

variable {number holderSize} {t : ℕ} {th th' : Thread κ} {o o' : Owners ℕ κ} {es : List (Event ℕ κ)}

theorem refusals_append (log es : List (Event ℕ κ)) (k : κ) :
    refusals (log ++ es) k = refusals log k + refusals es k := List.countP_append

/-- What one thread does to the counts. -/
theorem refs_set (s' : State κ) (ht : s.threads[t]? = some th)
    (hthreads : s'.threads = s.threads.set t th')
    (hlog : s'.log = s.log ++ es) (k : κ) :
    s'.refs k + th.counts k = s.refs k + th'.counts k + refusals es k := by
  have hsum := sum_set ht (fun th => th.counts k) th'
  unfold refs
  rw [hthreads, hlog, refusals_append]
  omega

theorem refs_pos (ht : s.threads[t]? = some th) (hk : 0 < th.counts k) : 0 < s.refs k := by
  have hsum := sum_eraseIdx ht fun th => th.counts k
  unfold refs
  omega

namespace Inv

/-- **One thread moves.** For every key either nothing has changed but what was counted for, or the
cell that there is now is the right one, under its old address, and no other thread has come to it or
gone from it. -/
theorem move (h : Inv number holderSize s o) (ht : s.threads[t]? = some th)
    (hthreads : s'.threads = s.threads.set t th')
    (hlog : s'.log = s.log ++ es) (hwf : s'.Wf number holderSize) (hfault : s'.fault = s.fault)
    (hnext : LockTable.run o es = some o') (hnodup : th'.keys.Nodup)
    (howns : ∀ k, k ∈ th'.keys ↔ o' k = some t)
    (hled : ∀ k p, (k, p) ∈ th'.led → ∃ m, s'.cell number holderSize k = some (p, m))
    (hkeys : ∀ k,
      (s'.cell number holderSize k = s.cell number holderSize k ∧ o' k = o k ∧
        th'.counts k + refusals es k = th.counts k) ∨
      ((s'.cell number holderSize k).map Prod.snd = entry (s'.refs k) (o' k) ∧
        (∀ p m p' m', s.cell number holderSize k = some (p, m) →
          s'.cell number holderSize k = some (p', m') → p' = p) ∧
        ∀ u, u ≠ t → (o' k = some u ↔ o k = some u))) :
    Inv number holderSize s' o' := by
  obtain ⟨htlt, -⟩ := List.getElem?_eq_some_iff.mp ht
  have hthread : ∀ {u th₁}, s'.threads[u]? = some th₁ →
      (u = t ∧ th₁ = th') ∨ (u ≠ t ∧ s.threads[u]? = some th₁) := by
    intro u th₁ hu
    rw [hthreads] at hu
    by_cases hut : u = t
    · subst hut
      rw [List.getElem?_set_self htlt] at hu
      exact .inl ⟨rfl, (Option.some.inj hu).symm⟩
    · rw [List.getElem?_set_ne (Ne.symm hut)] at hu
      exact .inr ⟨hut, hu⟩
  have hother : ∀ k u, u ≠ t → (o' k = some u ↔ o k = some u) := by
    intro k u hu
    rcases hkeys k with ⟨-, heq, -⟩ | ⟨-, -, hiff⟩
    · rw [heq]
    · exact hiff u hu
  have hcounted : ∀ k, (s'.cell number holderSize k).map Prod.snd = entry (s'.refs k) (o' k) := by
    intro k
    rcases hkeys k with ⟨hcell, heq, hcounts⟩ | ⟨hcell, -⟩
    · have hrefs := refs_set s' ht hthreads hlog k
      have : s'.refs k = s.refs k := by omega
      rw [hcell, heq, this]
      exact h.counted k
    · exact hcell
  refine ⟨hwf, hfault.trans h.sound, ?_, hcounted, ?_, ?_, ?_, ?_⟩
  · rw [hlog, LockTable.run_append, h.traced, Option.bind_some, hnext]
  · intro u th₁ hu k
    rcases hthread hu with ⟨rfl, rfl⟩ | ⟨hne, hold⟩
    · exact howns k
    · rw [hother k u hne]
      exact h.owns u th₁ hold k
  · intro k u hu
    rw [hthreads, List.length_set]
    by_cases hut : u = t
    · exact hut ▸ htlt
    · exact h.there k u ((hother k u hut).mp hu)
  · intro u th₁ hu k p hmem
    rcases hthread hu with ⟨rfl, rfl⟩ | ⟨hne, hold⟩
    · exact hled k p hmem
    · obtain ⟨m, hm⟩ := h.led u th₁ hold k p hmem
      rcases hkeys k with ⟨hcell, -, -⟩ | ⟨hcell, hkept, -⟩
      · exact ⟨m, hcell.trans hm⟩
      · cases hc : s'.cell number holderSize k with
        | some c => exact ⟨c.2, by rw [← hkept p m c.1 c.2 hm hc]⟩
        | none =>
            -- the thread is counted there
            have hpos : 0 < s'.refs k := refs_pos hu (Thread.counts_pos hmem)
            rw [hc, entry, if_neg (by omega)] at hcell
            cases hcell
  · intro u th₁ hu
    rcases hthread hu with ⟨rfl, rfl⟩ | ⟨-, hold⟩
    · exact hnodup
    · exact h.nodup u th₁ hold

/-- A move that leaves the thread where it is counted. -/
theorem stay (h : Inv number holderSize s o) (ht : s.threads[t]? = some th) (hkeys : th'.keys = th.keys)
    (hpending : th'.pending = th.pending) (hled : ∀ e ∈ th'.led, e ∈ th.led) :
    Inv number holderSize (s.setThread t th') o := by
  refine h.move ht rfl (List.append_nil _).symm (h.wf.congr rfl rfl rfl) rfl rfl ?_ ?_ ?_ fun k => .inl ⟨?_, rfl, ?_⟩
  · exact hkeys ▸ h.nodup t th ht
  · exact fun k => hkeys ▸ h.owns t th ht k
  · exact fun k p hmem => h.led t th ht k p (hled _ hmem)
  · exact cell_congr rfl rfl k
  · simp [Thread.counts, hkeys, hpending, refusals]

/-- Somebody has the mutex only where somebody is counted. -/
theorem free_of_refs (h : Inv number holderSize s o) (hk : s.refs k = 0) : o k = none := by
  by_contra hne
  obtain ⟨u, hu⟩ := Option.ne_none_iff_exists'.mp hne
  have hth := List.getElem?_eq_getElem (h.there k u hu)
  have hmem := (h.owns u _ hth k).mpr hu
  have hpos := refs_pos hth (k := k) (Nat.add_pos_left (List.count_pos_iff.mpr hmem) _)
  omega

/-- Where a thread is counted there is a mutex, with the count and the owner. -/
theorem cell_of_counts (h : Inv number holderSize s o) (ht : s.threads[t]? = some th) (hk : 0 < th.counts k) :
    ∃ p, s.cell number holderSize k = some (p, ⟨s.refs k, o k⟩) := by
  have hpos := refs_pos ht hk
  have hcell := h.counted k
  rw [entry, if_neg (by omega), Option.map_eq_some_iff] at hcell
  obtain ⟨⟨p, m⟩, hp, rfl⟩ := hcell
  exact ⟨p, hp⟩

/-- A move at one key, where the thread and the cell change together. -/
theorem move_key (h : Inv number holderSize s o) (ht : s.threads[t]? = some th)
    (hthreads : s'.threads = s.threads.set t th') (hlog : s'.log = s.log ++ es)
    (hwf : s'.Wf number holderSize) (hfault : s'.fault = s.fault) (hnext : LockTable.run o es = some o')
    (hnodup : th'.keys.Nodup) (howns : ∀ j, j ∈ th'.keys ↔ o' j = some t) {c : Option (ℕ × TempMutexT)}
    (hcells : ∀ j, s'.cell number holderSize j = if j = k then c else s.cell number holderSize j)
    (hcell : c.map Prod.snd = entry (s'.refs k) (o' k))
    (hkept : ∀ p m p' m', s.cell number holderSize k = some (p, m) → c = some (p', m') → p' = p)
    (hothers : ∀ u, u ≠ t → (o' k = some u ↔ o k = some u))
    (hcounts : ∀ j, j ≠ k → o' j = o j ∧ th'.counts j + refusals es j = th.counts j)
    (hled : ∀ j p, (j, p) ∈ th'.led → (j ≠ k ∧ (j, p) ∈ th.led) ∨ (j = k ∧ ∃ m, c = some (p, m))) :
    Inv number holderSize s' o' := by
  refine h.move ht hthreads hlog hwf hfault hnext hnodup howns (fun j p hmem => ?_) fun j => ?_
  · rw [hcells]
    rcases hled j p hmem with ⟨hj, hold⟩ | ⟨rfl, hnew⟩
    · rw [if_neg hj]
      exact h.led t th ht j p hold
    · rw [if_pos rfl]
      exact hnew
  · rw [hcells]
    by_cases hj : j = k
    · subst hj
      rw [if_pos rfl]
      exact .inr ⟨hcell, hkept, hothers⟩
    · rw [if_neg hj]
      exact .inl ⟨rfl, hcounts j hj⟩

/-- The thread gets the mutex of the next key. -/
theorem get (h : Inv number holderSize s o) (ht : s.threads[t]? = some th) {todo : List κ}
    (hphase : th.phase = .getting (k :: todo)) (hi : holder number holderSize k = some i)
    (hn : IsInt (s.refs k + 1)) :
    Inv number holderSize ((s.getMutex i k).1.setThread t
      { th with phase := .locking k (s.getMutex i k).2 todo }) o := by
  obtain ⟨s₁, p, heq, hwf, hthreads, hlog, hfault, hkept, hcells⟩ :=
    getMutex_spec h.wf hi (h.counted k) h.free_of_refs hn
  rw [heq]
  dsimp only
  obtain ⟨th', hth'⟩ : ∃ th' : Thread κ, th' = { th with phase := .locking k p todo } := ⟨_, rfl⟩
  rw [← hth']
  have hkeys : th'.keys = th.keys := by simp [Thread.keys, Thread.held, hth', hphase]
  have hcounts : ∀ j, th'.counts j = th.counts j + [k].count j := by
    intro j
    rw [Thread.counts, hkeys]
    simp [Thread.counts, Thread.pending, hth', hphase]
  have hthreads' : (s₁.setThread t th').threads = s.threads.set t th' := by rw [threads_setThread, hthreads]
  have hlog' : (s₁.setThread t th').log = s.log ++ [] := by rw [List.append_nil, log_setThread, hlog]
  refine h.move_key ht hthreads' hlog' (hwf.congr rfl rfl rfl) hfault (LockTable.run_nil o)
    (hkeys ▸ h.nodup t th ht) (fun j => hkeys ▸ h.owns t th ht j)
    (fun j => (cell_congr rfl rfl j).trans (hcells j)) ?_ ?_ (fun _ _ => Iff.rfl) (fun j hj => ⟨rfl, ?_⟩) ?_
  · have hrefs := refs_set _ ht hthreads' hlog' k
    rw [hcounts, List.count_singleton_self, refusals, List.countP_nil] at hrefs
    have hsucc : (s₁.setThread t th').refs k = s.refs k + 1 := by omega
    rw [hsucc, entry_succ]
    rfl
  · intro q m q' m' hq hq'
    rw [← hkept q m hq]
    exact (Prod.mk.inj (Option.some.inj hq')).1.symm
  · rw [hcounts, List.count_singleton, if_neg (by simpa using Ne.symm hj)]
    simp [refusals]
  · intro j q hmem
    subst hth'
    rcases List.mem_cons.mp hmem with heq | hmem
    · obtain ⟨rfl, rfl⟩ := Prod.mk.inj heq
      exact .inr ⟨rfl, _, rfl⟩
    · have hold : (j, q) ∈ th.led := by simpa [Thread.led, Thread.held, hphase] using hmem
      by_cases hj : j = k
      · subst hj
        obtain ⟨m, hm⟩ := h.led t th ht j q hold
        exact .inr ⟨rfl, _, by rw [hkept q m hm]⟩
      · exact .inl ⟨hj, hold⟩

/-- What the log says of the mutex that a thread has the address of. -/
theorem heap_of_led (h : Inv number holderSize s o) (ht : s.threads[t]? = some th) (hk : (k, p) ∈ th.led) :
    s.cell number holderSize k = some (p, ⟨s.refs k, o k⟩) ∧ s.heap p = some ⟨s.refs k, o k⟩ := by
  obtain ⟨q, hq⟩ := h.cell_of_counts ht (Thread.counts_pos hk)
  obtain ⟨m, hm⟩ := h.led t th ht k p hk
  rw [hq] at hm
  obtain ⟨rfl, -⟩ := Prod.mk.inj (Option.some.inj hm)
  exact ⟨hq, ((cell_eq_some h.wf).mp hq).2⟩

/-- The thread locks the mutex, or is refused, or waits. -/
theorem lock (h : Inv number holderSize s o) (ht : s.threads[t]? = some th) {todo : List κ}
    (hphase : th.phase = .locking k p todo) :
    ∃ o', Inv number holderSize (s.lock t th k p todo) o' := by
  have hmem : (k, p) ∈ th.led := by simp [Thread.led, hphase]
  have hheld : th.held = th.locksMap.entries := by simp [Thread.held, hphase]
  have hcounts : ∀ j, th.counts j = th.keys.count j + [k].count j := by
    intro j
    simp [Thread.counts, Thread.pending, hphase]
  obtain ⟨hcell, hheap⟩ := h.heap_of_led ht hmem
  have hpos := refs_pos ht (Thread.counts_pos hmem)
  unfold State.lock
  rw [hheap]
  dsimp only
  by_cases ho : o k = none
  · rw [if_pos ho]
    have hnew : k ∉ th.keys := fun hin => by
      rw [h.owns t th ht k, ho] at hin
      cases hin
    have hfind : th.locksMap.find k = none := by
      by_contra hne
      obtain ⟨q, hq⟩ := Option.ne_none_iff_exists'.mp hne
      have hin := th.locksMap.mem_entries_iff.mpr hq
      rw [← hheld] at hin
      exact hnew (List.mem_map_of_mem hin)
    obtain ⟨th', hth'⟩ : ∃ th' : Thread κ, th' = { th with
      phase := .getting todo
      locksMap := th.locksMap.insertNew k p
      lockedKeys := th.lockedKeys ++ [k] } := ⟨_, rfl⟩
    have hheld' : th'.held = (th.locksMap.insert k p).entries := by
      simp [Thread.held, hth', OrdMap.insertNew, hfind]
    have hkeys : ∀ j, j ∈ th'.keys ↔ j = k ∨ j ∈ th.keys := by
      intro j
      rw [Thread.keys, hheld', Thread.keys, hheld]
      exact OrdMap.mem_keys_insertEntry
    have hnodup : th'.keys.Nodup := by
      rw [Thread.keys, hheld']
      exact (th.locksMap.insert k p).sorted.imp fun hlt => hlt.ne
    have hcounts' : ∀ j, th'.counts j = th.counts j := by
      intro j
      have hpending : th'.pending = [] := by simp [Thread.pending, hth']
      rw [hcounts, Thread.counts, hpending, hnodup.count, (h.nodup t th ht).count, if_congr (hkeys j) rfl rfl,
        List.count_singleton]
      by_cases hj : j = k
      · subst hj
        simp [hnew]
      · simp [hj, Ne.symm hj]
    rw [← hth']
    refine ⟨update o k (some t), ?_⟩
    obtain ⟨hwf, hcells⟩ := put_spec (State.setThread { s with
        heap := update s.heap p (some ⟨s.refs k, some t⟩)
        log := s.log ++ [Event.acquired t k] } t th') _ h.wf hcell rfl rfl rfl
    refine h.move_key ht rfl rfl hwf rfl ?_ hnodup (fun j => ?_) hcells ?_ ?_ ?_ (fun j hj => ⟨?_, ?_⟩) ?_
    · simp [LockTable.next, ho]
    · rw [hkeys, h.owns t th ht, update_apply]
      by_cases hj : j = k <;> simp [hj]
    · have hrefs := refs_set (State.setThread { s with
        heap := update s.heap p (some ⟨s.refs k, some t⟩)
        log := s.log ++ [Event.acquired t k] } t th') ht rfl rfl k
      have hnone : refusals [Event.acquired t k] k = 0 := by simp [refusals]
      rw [hcounts', hnone] at hrefs
      rw [update_self, entry, if_neg (by omega)]
      simp only [Option.map_some, Option.some.injEq, TempMutexT.mk.injEq, and_true, Int.natCast_inj]
      omega
    · intro q m q' m' hq hq'
      rw [hcell] at hq
      rw [← (Prod.mk.inj (Option.some.inj hq)).1, ← (Prod.mk.inj (Option.some.inj hq')).1]
    · intro u hu
      simp [ho, Ne.symm hu]
    · exact update_of_ne hj _ _
    · simp [hcounts', refusals]
    · intro j q hin
      have hled : th'.led = (th.locksMap.insert k p).entries := by
        rw [← hheld', Thread.led, hth']
      rw [hled] at hin
      rcases OrdMap.mem_of_mem_insertEntry hin with heq | hold
      · obtain ⟨rfl, rfl⟩ := Prod.mk.inj heq
        exact .inr ⟨rfl, _, rfl⟩
      · refine .inl ⟨?_, by simp [Thread.led, hphase, hold]⟩
        rintro rfl
        exact hnew (List.mem_map_of_mem (hheld ▸ hold))
  · rw [if_neg ho]
    by_cases hwaits : th.waits = true
    · rw [if_pos hwaits]
      exact ⟨o, h⟩
    · rw [if_neg hwaits]
      obtain ⟨th', hth'⟩ : ∃ th' : Thread κ, th' = { th with
        phase := .getting todo
        failedKeys := th.failedKeys ++ [k] } := ⟨_, rfl⟩
      have hkeys : th'.keys = th.keys := by simp [Thread.keys, Thread.held, hth', hphase]
      rw [← hth']
      refine ⟨o, h.move ht rfl rfl (h.wf.congr rfl rfl rfl) rfl ?_ (hkeys ▸ h.nodup t th ht)
        (fun j => hkeys ▸ h.owns t th ht j) (fun j q hin => ?_) fun j => .inl ⟨cell_congr rfl rfl j, rfl, ?_⟩⟩
      · simp [LockTable.next, ho]
      · refine h.led t th ht j q ?_
        simp only [Thread.led, hphase, hth', Thread.held] at hin ⊢
        exact List.mem_cons_of_mem _ hin
      · rw [hcounts, Thread.counts, hkeys, Thread.pending, hth']
        simp [refusals, List.count_singleton]

/-- The thread gives back the next of its locks. -/
theorem unlock (h : Inv number holderSize s o) (ht : s.threads[t]? = some th) {todo : List (κ × ℕ)}
    (hphase : th.phase = .releasing ((k, p) :: todo)) :
    Inv number holderSize ((s.unlock t k p).setThread t { th with phase := .dropping k todo })
      (update o k none) := by
  have hled : th.led = (k, p) :: todo := by simp [Thread.led, Thread.held, hphase]
  have hkeys : th.keys = k :: todo.map Prod.fst := by simp [Thread.keys, Thread.held, hphase]
  have hmem : (k, p) ∈ th.led := hled ▸ List.mem_cons_self
  have hnodup := h.nodup t th ht
  have howns := h.owns t th ht
  obtain ⟨hcell, hheap⟩ := h.heap_of_led ht hmem
  have hpos := refs_pos ht (Thread.counts_pos hmem)
  have ho : o k = some t := (howns k).mp (hkeys ▸ List.mem_cons_self)
  rw [hkeys, List.nodup_cons] at hnodup
  obtain ⟨th', hth'⟩ : ∃ th' : Thread κ, th' = { th with phase := .dropping k todo } := ⟨_, rfl⟩
  have hkeys' : th'.keys = todo.map Prod.fst := by simp [Thread.keys, Thread.held, hth']
  have hcounts : ∀ j, th'.counts j = th.counts j := by
    intro j
    rw [Thread.counts, Thread.counts, hkeys, hkeys']
    simp [Thread.pending, hth', hphase, List.count_cons, add_comm]
  unfold State.unlock
  rw [hheap, ← hth']
  dsimp only
  rw [if_pos ho]
  obtain ⟨hwf, hcells⟩ := put_spec (State.setThread { s with
      heap := update s.heap p (some ⟨s.refs k, none⟩)
      log := s.log ++ [Event.released t k] } t th') _ h.wf hcell rfl rfl rfl
  refine h.move_key ht rfl rfl hwf rfl ?_ (hkeys' ▸ hnodup.2) (fun j => ?_) hcells ?_ ?_ ?_ (fun j hj => ⟨?_, ?_⟩)
    ?_
  · simp [LockTable.next, ho]
  · rw [hkeys', update_apply]
    by_cases hj : j = k
    · subst hj
      simpa using hnodup.1
    · rw [if_neg hj, ← howns, hkeys, List.mem_cons]
      simp [hj]
  · have hrefs := refs_set (State.setThread { s with
      heap := update s.heap p (some ⟨s.refs k, none⟩)
      log := s.log ++ [Event.released t k] } t th') ht rfl rfl k
    have hnone : refusals [Event.released t k] k = 0 := by simp [refusals]
    rw [hcounts, hnone] at hrefs
    rw [update_self, entry, if_neg (by omega)]
    simp only [Option.map_some, Option.some.injEq, TempMutexT.mk.injEq, and_true, Int.natCast_inj]
    omega
  · intro q m q' m' hq hq'
    rw [hcell] at hq
    rw [← (Prod.mk.inj (Option.some.inj hq)).1, ← (Prod.mk.inj (Option.some.inj hq')).1]
  · intro u hu
    simp [ho, Ne.symm hu]
  · exact update_of_ne hj _ _
  · simp [hcounts, refusals]
  · intro j q hin
    have hin : (j, q) ∈ todo := by simpa [Thread.led, Thread.held, hth'] using hin
    refine .inl ⟨?_, hled ▸ List.mem_cons_of_mem _ hin⟩
    rintro rfl
    exact hnodup.1 (List.mem_map_of_mem hin)

/-- The thread drops a mutex that it has unlocked. -/
theorem release (h : Inv number holderSize s o) (ht : s.threads[t]? = some th) {todo : List (κ × ℕ)}
    (hphase : th.phase = .dropping k todo) (hn : IsInt (s.refs k)) :
    ∃ i, holder number holderSize k = some i ∧
      Inv number holderSize ((s.releaseMutex i k).setThread t { th with phase := .releasing todo }) o := by
  obtain ⟨th', hth'⟩ : ∃ th' : Thread κ, th' = { th with phase := .releasing todo } := ⟨_, rfl⟩
  have hkeys : th'.keys = th.keys := by simp [Thread.keys, Thread.held, hth', hphase]
  have hcounts : ∀ j, th.counts j = th'.counts j + [k].count j := by
    intro j
    rw [Thread.counts, Thread.counts, hkeys]
    simp [Thread.pending, hth', hphase]
  have hpos : 0 < th.counts k := by
    rw [hcounts, List.count_singleton_self]
    omega
  obtain ⟨p, hcell⟩ := h.cell_of_counts ht hpos
  obtain ⟨⟨i, hi⟩, -⟩ := (cell_eq_some h.wf).mp hcell
  have hholder := (h.wf.mapped hi).1
  -- the state without the count that is dropped
  have hrefs := refs_set (s.setThread t th') ht rfl (List.append_nil _).symm k
  rw [hcounts, List.count_singleton_self, refusals, List.countP_nil] at hrefs
  obtain ⟨n, hrefn⟩ : ∃ n, n = (s.setThread t th').refs k := ⟨_, rfl⟩
  have hsucc : s.refs k = n + 1 := by omega
  obtain ⟨htlt, -⟩ := List.getElem?_eq_some_iff.mp ht
  have hfree : n = 0 → o k = none := by
    intro hzero
    by_contra hne
    obtain ⟨u, hu⟩ := Option.ne_none_iff_exists'.mp hne
    have hth := List.getElem?_eq_getElem (h.there k u hu)
    have hmem := (h.owns u _ hth k).mpr hu
    have hother : 0 < (s.setThread t th').refs k := by
      by_cases hut : u = t
      · subst hut
        obtain rfl := Option.some.inj (ht.symm.trans hth)
        refine refs_pos (List.getElem?_set_self htlt) (Nat.add_pos_left (List.count_pos_iff.mpr ?_) _)
        rwa [hkeys]
      · exact refs_pos ((List.getElem?_set_ne (Ne.symm hut)).trans hth)
          (Nat.add_pos_left (List.count_pos_iff.mpr hmem) _)
    omega
  have hcast : ((n + 1 : ℕ) : ℤ) = n + 1 := by omega
  rw [hsucc, hcast] at hcell
  obtain ⟨hwf, hthreads, hlog, hfault, hcells⟩ := releaseMutex_spec h.wf hholder hcell (by
    unfold IsInt at hn ⊢
    omega) hfree
  have hthreads' : ((s.releaseMutex i k).setThread t th').threads = s.threads.set t th' := by
    rw [threads_setThread, hthreads]
  have hlog' : ((s.releaseMutex i k).setThread t th').log = s.log ++ [] := by
    rw [List.append_nil, log_setThread, hlog]
  have hrefs' : ((s.releaseMutex i k).setThread t th').refs k = n := by
    rw [hrefn]
    unfold refs
    rw [threads_setThread, hthreads, log_setThread, hlog]
    rfl
  refine ⟨i, hholder, ?_⟩
  rw [← hth']
  refine h.move_key ht hthreads' hlog' (hwf.congr rfl rfl rfl) hfault (LockTable.run_nil o)
    (hkeys ▸ h.nodup t th ht) (fun j => hkeys ▸ h.owns t th ht j)
    (fun j => (cell_congr rfl rfl j).trans (hcells j)) ?_ ?_ (fun _ _ => Iff.rfl) (fun j hj => ⟨rfl, ?_⟩) ?_
  · rw [hrefs', Option.map_map]
    exact Option.map_id'
  · intro q m q' m' hq hq'
    rw [hcell] at hq
    obtain ⟨m₁, -, heq⟩ := Option.map_eq_some_iff.mp hq'
    rw [← (Prod.mk.inj (Option.some.inj hq)).1, ← (Prod.mk.inj heq).1]
  · rw [hcounts, List.count_singleton, if_neg (by simpa using Ne.symm hj)]
    simp [refusals]
  · intro j q hin
    have hold : (j, q) ∈ th.led := by
      simp only [Thread.led, Thread.held, hth', hphase] at hin ⊢
      exact hin
    by_cases hj : j = k
    · subst hj
      obtain ⟨m, hm⟩ := h.led t th ht j q hold
      have hpos' : 0 < n := by
        rw [hrefn]
        exact refs_pos (List.getElem?_set_self htlt) (Thread.counts_pos hin)
      rw [hcell] at hm
      refine .inr ⟨rfl, ⟨n, o j⟩, ?_⟩
      rw [entry, if_neg (by omega), (Prod.mk.inj (Option.some.inj hm)).1]
      rfl
    · exact .inl ⟨hj, hold⟩

/-- A thread begins. -/
theorem enter (h : Inv number holderSize s o) (t : ℕ) (waits : Bool) (keys : List κ) :
    Inv number holderSize (s.enter t waits keys) o := by
  unfold State.enter
  split
  case h_1 ht => exact h.stay ht rfl rfl fun e he => he
  case h_2 => exact h

/-- **The next step of a thread.** -/
theorem advance (h : Inv number holderSize s o) (ht : s.threads[t]? = some th)
    (hfew : ∀ k, (s.refs k : ℤ) + 1 < 2 ^ 31) :
    ∃ o', Inv number holderSize (s.advance number holderSize t th) o' := by
  have hrange : ∀ k, IsInt (s.refs k) ∧ IsInt (s.refs k + 1) := fun k => by
    have := hfew k
    unfold IsInt
    omega
  unfold State.advance
  cases hphase : th.phase with
  | idle => exact ⟨o, h⟩
  | thrown => exact ⟨o, h⟩
  | getting todo =>
      cases todo with
      | nil =>
          refine ⟨o, h.stay ht ?_ ?_ ?_⟩ <;> simp [Thread.keys, Thread.held, Thread.pending, Thread.led, hphase]
      | cons k todo =>
          dsimp only
          cases hi : holder number holderSize k with
          | none =>
              refine ⟨o, h.stay ht ?_ ?_ ?_⟩ <;> simp [Thread.keys, Thread.held, Thread.pending, Thread.led, hphase]
          | some i => exact ⟨o, h.get ht hphase hi (hrange k).2⟩
  | locking k p todo => exact h.lock ht hphase
  | working =>
      refine ⟨o, h.stay ht ?_ ?_ ?_⟩ <;> simp [Thread.keys, Thread.held, Thread.pending, Thread.led, hphase]
  | releasing todo =>
      cases todo with
      | nil =>
          refine ⟨o, h.stay ht ?_ ?_ ?_⟩ <;> simp [Thread.keys, Thread.held, Thread.pending, Thread.led, hphase]
      | cons e todo => exact ⟨_, h.unlock ht hphase⟩
  | dropping k todo =>
      obtain ⟨i, hi, hinv⟩ := h.release ht hphase (hrange k).1
      dsimp only
      rw [hi]
      exact ⟨o, hinv⟩

/-- **One step.** -/
theorem step (h : Inv number holderSize s o) (op : Op κ) (hfew : ∀ k, (s.refs k : ℤ) + 1 < 2 ^ 31) :
    ∃ o', Inv number holderSize (step number holderSize s op) o' := by
  cases op with
  | locks t keys => exact ⟨o, h.enter t false keys⟩
  | lock t k => exact ⟨o, h.enter t true [k]⟩
  | advance t =>
      unfold TempMutex.step
      dsimp only
      split
      case h_1 ht => exact h.advance ht hfew
      case h_2 => exact ⟨o, h⟩

/-- A thread is counted twice at most. -/
theorem refs_le (h : Inv number holderSize s o) (k : κ) :
    s.refs k ≤ 2 * s.threads.length + refusals s.log k := by
  have hle : ∀ c ∈ s.threads.map fun th => th.counts k, c ≤ 2 := by
    intro c hc
    obtain ⟨th, hth, rfl⟩ := List.mem_map.mp hc
    obtain ⟨t, ht⟩ := List.mem_iff_getElem?.mp hth
    exact Thread.counts_le (h.nodup t th ht) k
  have hsum := List.sum_le_card_nsmul _ 2 hle
  rw [List.length_map, smul_eq_mul] at hsum
  unfold refs
  omega

end Inv

/-! ## Whole runs -/

theorem inv_new (n : ℕ) : Inv number holderSize (State.new n) fun _ => none := by
  have hidle : ∀ (t : ℕ) (th : Thread κ), (State.new n).threads[t]? = some th →
      th = ⟨.idle, false, .empty, [], []⟩ := by
    intro t th ht
    exact List.eq_of_mem_replicate (List.mem_of_getElem? ht)
  have hrefs : ∀ k : κ, (State.new n).refs k = 0 := by
    intro k
    simp [refs, State.new, refusals, Thread.counts, Thread.keys, Thread.held, Thread.pending]
  refine ⟨⟨?_, ?_, ?_⟩, rfl, rfl, fun k => ?_, fun t th ht k => ?_, ?_, fun t th ht k p hk => ?_, fun t th ht => ?_⟩
  · intro i k p h
    cases h
  · intro i k p i' k' h
    cases h
  · intro p m h
    cases h
  · rw [hrefs]
    simp [cell, State.new, entry]
  · rw [hidle t th ht]
    simp [Thread.keys, Thread.held]
  · intro k t h
    cases h
  · rw [hidle t th ht] at hk
    simp [Thread.led, Thread.held] at hk
  · rw [hidle t th ht]
    exact List.Pairwise.nil

/-- The log is only written to, and threads neither come nor go. -/
def Grows (s s' : State κ) : Prop := s.log <+: s'.log ∧ s'.threads.length = s.threads.length

namespace Grows

theorem refl (s : State κ) : Grows s s := ⟨List.prefix_rfl, rfl⟩

theorem setThread (h : Grows s s') (t : ℕ) (th : Thread κ) : Grows s (s'.setThread t th) :=
  ⟨h.1, (List.length_set ..).trans h.2⟩

theorem touch (h : Grows s s') (p : ℕ) (f : TempMutexT → Option TempMutexT) : Grows s (s'.touch p f) := by
  unfold State.touch
  split <;> exact h

theorem getMutex (s : State κ) (i : ℕ) (k : κ) : Grows s (s.getMutex i k).1 := by
  unfold State.getMutex
  split
  · exact touch (refl s) _ _
  · dsimp only [State.inc]
    apply touch
    exact ⟨List.prefix_rfl, rfl⟩

theorem releaseMutex (s : State κ) (i : ℕ) (k : κ) : Grows s (s.releaseMutex i k) := by
  unfold State.releaseMutex
  split
  · exact refl s
  · dsimp only
    split <;> exact touch (refl s) _ _

theorem lock (s : State κ) (t : ℕ) (th : Thread κ) (k : κ) (p : ℕ) (todo : List κ) :
    Grows s (s.lock t th k p todo) := by
  unfold State.lock
  split
  · exact refl s
  · split_ifs
    · exact ⟨List.prefix_append _ _, List.length_set ..⟩
    · exact refl s
    · exact ⟨List.prefix_append _ _, List.length_set ..⟩

theorem unlock (s : State κ) (t : ℕ) (k : κ) (p : ℕ) : Grows s (s.unlock t k p) := by
  unfold State.unlock
  split
  · exact refl s
  · split_ifs
    · exact ⟨List.prefix_append _ _, rfl⟩
    · exact refl s

theorem step (s : State κ) (op : Op κ) : Grows s (step number holderSize s op) := by
  have henter : ∀ t waits keys, Grows s (s.enter t waits keys) := by
    intro t waits keys
    unfold State.enter
    split
    · exact (refl s).setThread _ _
    · exact refl s
  cases op with
  | locks t keys => exact henter t false keys
  | lock t k => exact henter t true [k]
  | advance t =>
      unfold TempMutex.step State.advance
      dsimp only
      split
      case h_2 => exact refl s
      case h_1 =>
        split
        · exact refl s
        · exact (refl s).setThread _ _
        · split
          · exact (refl s).setThread _ _
          · exact (getMutex s _ _).setThread _ _
        · exact lock s _ _ _ _ _
        · exact (refl s).setThread _ _
        · exact (refl s).setThread _ _
        · exact (unlock s _ _ _).setThread _ _
        · split
          · exact (refl s).setThread _ _
          · exact (releaseMutex s _ _).setThread _ _
        · exact refl s

end Grows

section Runs

variable (number holderSize)

/-- The state that `n` threads come to. -/
abbrev after (n : ℕ) (ops : List (Op κ)) : State κ := runOps (step number holderSize) (State.new n) ops

theorem length_after (n : ℕ) (ops : List (Op κ)) : (after number holderSize n ops).threads.length = n := by
  induction ops using List.reverseRecOn with
  | nil => exact List.length_replicate
  | append_singleton ops op ih =>
      unfold after at ih ⊢
      rw [runOps_append, runOps_cons, runOps_nil, (Grows.step _ op).2, ih]

/-- **All runs** in which no mutex is refused so often that its count runs over. -/
theorem inv_after {n : ℕ} {ops : List (Op κ)}
    (hfew : ∀ k, 2 * n + refusals (after number holderSize n ops).log k + 1 < 2 ^ 31) :
    ∃ o, Inv number holderSize (after number holderSize n ops) o := by
  induction ops using List.reverseRecOn with
  | nil => exact ⟨_, inv_new n⟩
  | append_singleton ops op ih =>
      have hlast : after number holderSize n (ops ++ [op]) =
          step number holderSize (after number holderSize n ops) op := by
        unfold after
        rw [runOps_append, runOps_cons, runOps_nil]
      rw [hlast] at hfew ⊢
      have hbefore : ∀ k, 2 * n + refusals (after number holderSize n ops).log k + 1 < 2 ^ 31 := by
        intro k
        have hlog := (@Grows.step _ _ number holderSize (after number holderSize n ops) op).1
        have hmono : refusals (after number holderSize n ops).log k ≤ _ := hlog.sublist.countP_le
        have := hfew k
        unfold refusals at *
        omega
      obtain ⟨o, hinv⟩ := ih hbefore
      refine hinv.step op fun k => ?_
      have hle := hinv.refs_le k
      rw [length_after] at hle
      have := hbefore k
      omega

/-- **One owner for a key.** Whatever the threads do, and in whatever order, no mutex is touched that is
not there, and what becomes of the locks is what becomes of them in a table with a lock for every key;
a thread has the keys that the table says it has, and has given them back when the next one takes them. -/
theorem one_owner {n : ℕ} {ops : List (Op κ)}
    (hfew : ∀ k, 2 * n + refusals (after number holderSize n ops).log k + 1 < 2 ^ 31) :
    (after number holderSize n ops).fault = false ∧
      (∃ o, LockTable.run (fun _ => none) (after number holderSize n ops).log = some o ∧
        ∀ (t : ℕ) (th : Thread κ), (after number holderSize n ops).threads[t]? = some th →
          ∀ k, k ∈ th.keys ↔ o k = some t) ∧
      ∀ es es' es'' t t' k, (after number holderSize n ops).log =
        es ++ .acquired t k :: es' ++ .acquired t' k :: es'' → .released t k ∈ es' := by
  obtain ⟨o, hinv⟩ := inv_after number holderSize hfew
  refine ⟨hinv.sound, ⟨o, hinv.traced, hinv.owns⟩, fun es es' es'' t t' k hlog => ?_⟩
  apply LockTable.released_between
  rw [← hlog, hinv.traced]
  rfl

/-- The second of two threads asks for the key that the first has. -/
def refusedOnce : List (Op ℕ) :=
  [.locks 0 [7], .advance 0, .advance 0, .locks 1 [7], .advance 1, .advance 1, .advance 1, .advance 1,
    .advance 1, .advance 0, .advance 0, .advance 0, .advance 0, .advance 0]

theorem log_refusedOnce : (after (fun k : ℕ => (k : ℤ)) 10 2 refusedOnce).log =
    [.acquired 0 7, .refused 1 7, .released 0 7] := by
  decide

theorem few_refusedOnce (k : ℕ) :
    2 * 2 + refusals (after (fun k : ℕ => (k : ℤ)) 10 2 refusedOnce).log k + 1 < 2 ^ 31 := by
  have hle : refusals (after (fun k : ℕ => (k : ℤ)) 10 2 refusedOnce).log k ≤ _ := List.countP_le_length
  rw [log_refusedOnce] at hle
  simp only [List.length_cons, List.length_nil] at hle
  rw [log_refusedOnce]
  omega

theorem one_owner_refusedOnce : (after (fun k : ℕ => (k : ℤ)) 10 2 refusedOnce).fault = false :=
  (one_owner (fun k : ℕ => (k : ℤ)) 10 few_refusedOnce).1

/-- **There while needed.** A key has a mutex as long as a thread is at it, or a try of it was ever
refused; there are no other mutexes, and when all threads are through, those that were refused are left. -/
theorem there_while_needed {n : ℕ} {ops : List (Op κ)}
    (hfew : ∀ k, 2 * n + refusals (after number holderSize n ops).log k + 1 < 2 ^ 31) :
    (∀ k, ((after number holderSize n ops).cell number holderSize k).map (fun c => c.2.refCount) =
      countEntry ((after number holderSize n ops).refs k)) ∧
    (∀ p m, (after number holderSize n ops).heap p = some m ↔
      ∃ k, (after number holderSize n ops).cell number holderSize k = some (p, m)) ∧
    ((∀ th ∈ (after number holderSize n ops).threads, th.phase = .idle) →
      ∀ k, ((after number holderSize n ops).cell number holderSize k).isSome ↔
        ∃ t, Event.refused t k ∈ (after number holderSize n ops).log) := by
  obtain ⟨o, hinv⟩ := inv_after number holderSize hfew
  refine ⟨fun k => ?_, fun p m => ⟨fun hp => ?_, fun hk => ?_⟩, fun hidle k => ?_⟩
  · have hcell := congrArg (Option.map TempMutexT.refCount) (hinv.counted k)
    rw [Option.map_map] at hcell
    refine hcell.trans ?_
    unfold entry countEntry
    split_ifs <;> rfl
  · obtain ⟨i, k, hk⟩ := hinv.wf.live hp
    exact ⟨k, (cell_eq_some hinv.wf).mpr ⟨⟨i, hk⟩, hp⟩⟩
  · obtain ⟨k, hk⟩ := hk
    exact ((cell_eq_some hinv.wf).mp hk).2
  · have hrefs : (after number holderSize n ops).refs k = refusals (after number holderSize n ops).log k := by
      have hnone : ∀ c ∈ (after number holderSize n ops).threads.map (fun th => th.counts k), c = 0 := by
        intro c hc
        obtain ⟨th, hth, rfl⟩ := List.mem_map.mp hc
        simp [Thread.counts, Thread.keys, Thread.held, Thread.pending, hidle th hth]
      unfold refs
      rw [List.sum_eq_zero hnone, Nat.zero_add]
    have hcell : ((after number holderSize n ops).cell number holderSize k).isSome =
        (entry ((after number holderSize n ops).refs k) (o k)).isSome := by
      rw [← hinv.counted k, Option.isSome_map]
    have hsome : (entry (refusals (after number holderSize n ops).log k) (o k)).isSome = true ↔
        0 < refusals (after number holderSize n ops).log k := by
      unfold entry
      split_ifs <;> simp <;> omega
    rw [hcell, hrefs, hsome, refusals, List.countP_pos_iff]
    constructor
    · rintro ⟨e, he, hk⟩
      cases e with
      | refused t j => exact ⟨t, of_decide_eq_true hk ▸ he⟩
      | acquired t j => cases hk
      | released t j => cases hk
    · rintro ⟨t, ht⟩
      exact ⟨_, ht, decide_eq_true rfl⟩

/-- The mutex is left though nobody has it or asks for it. -/
theorem there_while_needed_refusedOnce :
    ((after (fun k : ℕ => (k : ℤ)) 10 2 refusedOnce).cell (fun k : ℕ => (k : ℤ)) 10 7).isSome = true :=
  ((there_while_needed (fun k : ℕ => (k : ℤ)) 10 few_refusedOnce).2.2 (by decide) 7).mpr
    ⟨1, by rw [log_refusedOnce]; decide⟩

end Runs

end Oce.IceExt.TempMutex
