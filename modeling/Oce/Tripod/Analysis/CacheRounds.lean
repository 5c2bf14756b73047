import Oce.Tripod.Analysis.CacheLocks

/-!
# The rounds of a call

A call that finds its keys unlocked locks the first of the keys that are left, so every round
leaves fewer of them; within a round it goes from place to place (`rank`), and at each of them
the list it works through gets shorter. So it returns, unless it has no keys at all: then it finds
nothing to lock and nothing that failed, and goes round for ever (`not_returns_of_empty`).
-/

set_option autoImplicit false


namespace Oce.Tripod.CacheManager

/-! ## The measure -/

namespace Phase

/-- The keys that are left for later rounds, the place in the round and what is left to do there.
A round that has locked nothing stands behind the one before it. -/
def rank (keys : List String) : Phase → ℕ ×ₗ ℕ ×ₗ ℕ
  | lookup => toLex (keys.length, toLex (6, 0))
  | locking todo locked failed =>
    toLex (todo.length + failed.length,
      toLex (if locked = [] then if failed = [] then 0 else 2 else 5, todo.length))
  | producing todo _ _ failed => toLex (failed.length, toLex (4, todo.length))
  | storing todo _ failed => toLex (failed.length, toLex (3, todo.length))
  | removing todo _ failed => toLex (failed.length, toLex (3, todo.length))
  | unlocking todo inputKeys _ => toLex (inputKeys.length, toLex (1, todo.length))
  | returned => toLex (0, toLex (0, 0))

/-- A round has keys to lock. -/
def Ongoing : Phase → Prop
  | locking todo locked failed => locked = [] → todo ++ failed ≠ []
  | unlocking _ inputKeys again => again = true → inputKeys ≠ []
  | _ => True

theorem rank_lt {a b i j m n : ℕ} (h : a < b ∨ a = b ∧ (i < j ∨ i = j ∧ m < n)) :
    (toLex (a, toLex (i, m)) : ℕ ×ₗ ℕ ×ₗ ℕ) < toLex (b, toLex (j, n)) := by
  simpa [Prod.Lex.toLex_lt_toLex] using h

end Phase

theorem length_of_rotate {α : Type*} {l rest : List α} {n : ℕ} {a : α}
    (h : l.rotate n = a :: rest) : l.length = rest.length + 1 := by
  rw [← List.length_rotate l n, h, List.length_cons]

namespace Moves

variable {free : String → Bool} {source : String → ℕ} {ch : Choice} {c : Call} {p : Phase}
  {e : Effect}

theorem ongoing (h : Moves free source ch c p e) (hc : c.phase.Ongoing) : p.Ongoing := by
  cases h with
  | miss h hne hsub => simpa [Phase.Ongoing] using hne
  | lock h hfree => simp [Phase.Ongoing]
  | fail h hbusy => simp [Phase.Ongoing]
  | giveUp h =>
      rw [h] at hc
      exact fun _ => hc rfl
  | endRound h =>
      intro hagain hempty
      rw [hempty] at hagain
      cases hagain
  | unlock h =>
      rw [h] at hc
      exact hc
  | again h =>
      rw [h] at hc
      simpa [Phase.Ongoing] using hc rfl
  | _ => trivial

/-- **A step brings a call nearer to its end**, as long as no other holds its keys. -/
theorem rank_lt (h : Moves free source ch c p e) (hc : c.phase.Ongoing)
    (hin : ∀ k ∈ c.phase.inHand, k ∈ c.keys) (hnot : c.phase ≠ .returned)
    (hfree : ∀ k ∈ c.keys, free k = true ∨ k ∈ c.phase.held) (hbusy : ch.busy = false) :
    p.rank c.keys < c.phase.rank c.keys := by
  cases h with
  | hit h =>
      rw [h]
      exact Phase.rank_lt (by omega)
  | miss h hne hsub =>
      rw [h]
      have hlength := hsub.length_le
      exact Phase.rank_lt (by simp; omega)
  | lock h hfree' =>
      rw [h]
      exact Phase.rank_lt (by simp)
  | @fail k todo locked failed h hbusy' =>
      rw [h] at hin hfree ⊢
      have hk : k ∈ locked := by
        refine (hfree k (hin k (by simp [Phase.inHand]))).resolve_left fun hk => ?_
        rw [hbusy' hk] at hbusy
        cases hbusy
      have hne := List.ne_nil_of_mem hk
      exact Phase.rank_lt (by simp [hne]; omega)
  | giveUp h =>
      rw [h] at hc ⊢
      have hne := hc rfl
      rw [List.nil_append] at hne
      exact Phase.rank_lt (by simp [hne])
  | remove h hne =>
      rw [h]
      exact Phase.rank_lt (by simp [hne])
  | produce h hne =>
      rw [h]
      exact Phase.rank_lt (by simp [hne])
  | answer h hpick =>
      rw [h]
      have hlength := length_of_rotate hpick
      exact Phase.rank_lt (by omega)
  | produced h =>
      rw [h]
      exact Phase.rank_lt (by omega)
  | store h hpick =>
      rw [h]
      have hlength := length_of_rotate hpick
      exact Phase.rank_lt (by omega)
  | storeLost h hpick =>
      rw [h]
      have hlength := length_of_rotate hpick
      exact Phase.rank_lt (by omega)
  | removal h hpick =>
      rw [h]
      have hlength := length_of_rotate hpick
      exact Phase.rank_lt (by omega)
  | removalLost h hpick =>
      rw [h]
      have hlength := length_of_rotate hpick
      exact Phase.rank_lt (by omega)
  | endRound h => rcases h with h | h | h <;> rw [h] <;> exact Phase.rank_lt (by omega)
  | unlock h =>
      rw [h]
      exact Phase.rank_lt (by simp)
  | again h =>
      rw [h]
      exact Phase.rank_lt (by simp)
  | leave h =>
      rw [h]
      exact Phase.rank_lt (by omega)
  | stay h => exact absurd h hnot

end Moves

/-! ## Returning -/

namespace Call

/-- A call returns after some steps, whatever it finds at each of them, as long as its keys are
unlocked but for those it has locked itself. -/
inductive Returns : Call → Prop
  | returned {c : Call} (h : c.phase = .returned) : Returns c
  | next {c : Call} (h : ∀ free cached source ch,
      (∀ k ∈ c.keys, free k = true ∨ k ∈ c.phase.held) → ch.busy = false →
        Returns (c.next free cached source ch).1) : Returns c

/-- **A call with keys left in every round returns.** -/
theorem returns {c : Call} (hc : c.phase.Ongoing) (hin : ∀ k ∈ c.phase.inHand, k ∈ c.keys) :
    Returns c := by
  induction hrank : c.phase.rank c.keys using WellFoundedLT.induction generalizing c with
  | ind r ih =>
      by_cases hnot : c.phase = .returned
      · exact .returned hnot
      refine .next fun free cached source ch hfree hbusy => ?_
      have hmoves := @next_moves free cached source ch c
      have hkeys := (@next_eq free cached source ch c).2.2
      refine ih _ ?_ (hmoves.ongoing hc) (fun k hk => ?_) rfl
      · rw [← hrank, hkeys]
        exact hmoves.rank_lt hc hin hnot hfree hbusy
      · rw [hkeys]
        exact (hmoves.inHand hk).elim (hin k) fun h => h

/-- **A round without keys is followed by another one**, for ever. -/
theorem not_returns_of_empty {c : Call} (h : c.phase = .locking [] [] []) : ¬c.Returns := by
  have hround : ∀ c : Call, c.Returns →
      ¬(c.phase = .locking [] [] [] ∨ c.phase = .unlocking [] [] true) := by
    intro c hc
    induction hc with
    | @returned c h =>
        rw [h]
        simp
    | @next c h ih =>
        intro hphase
        have hround := ih (fun _ => true) (fun _ => none) (fun _ => 0)
          ⟨fun _ => false, false, 0, .nothing, true, true⟩ (fun _ _ => .inl rfl) rfl
        obtain hphase | hphase := hphase <;> exact hround (by simp [next, hphase])
  exact fun hc => hround c hc (.inl h)

end Call

end Oce.Tripod.CacheManager
