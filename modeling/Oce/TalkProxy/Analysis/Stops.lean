import Mathlib.Data.Finset.Card
import Oce.TalkProxy.Model.Session

/-!
# A session that has stopped

`binding` is 0 before the first presence, 1 from then on and 2 after the stop, and a history of a
session has one of four shapes (`Story`). `presence` forwards in each of them. So a stopped session
stays offline exactly as long as no presence comes to it, and is told to be offline at all unless
`unbind` throws.
-/

set_option autoImplicit false

namespace Oce.TalkProxy

open Oce.Base Oce.TalkCommon

/-! ## What is wanted -/

def Notice.IsForwarded : Notice → Bool
  | .forwarded _ => true
  | _ => false

def Notice.IsUnbind : Notice → Bool
  | .unbind _ => true
  | _ => false

def Notice.IsOffline : Notice → Bool
  | .offline _ => true
  | _ => false

/-- A session that forwarded a presence and has stopped made one call of `unbind` and one of
`offline`; one that has not stopped made none, and after `offline` none is forwarded. -/
structure StaysOffline (l : List Notice) : Prop where
  once : (∃ e ∈ l, e.IsForwarded) → .stopped ∈ l →
    l.countP Notice.IsUnbind = 1 ∧ l.countP Notice.IsOffline = 1
  early : .stopped ∉ l → l.countP Notice.IsUnbind = 0 ∧ l.countP Notice.IsOffline = 0
  silent : l.Pairwise fun e e' => e.IsOffline → ¬ e'.IsForwarded

/-- All sessions stay offline, and the count of the server is the number of those that have
presented themselves and not stopped. -/
structure Talk.Offline (t : Talk) : Prop where
  sessions : ∀ i, StaysOffline (t.notices i)
  counted : ∃ F : Finset ℕ, (∀ i, i ∈ F ↔ .presence ∈ t.notices i ∧ .stopped ∉ t.notices i) ∧
    t.onlineUserCount = F.card

/-- No presence comes to a session that has stopped, and no `unbind` throws. -/
def TalkOp.InTime (t : Talk) : TalkOp → Prop
  | presence i _ => (t.sessions i).binding ≠ 2
  | stopped i thrown => (t.sessions i).binding = 1 → thrown = false
  | setJid _ _ => True

instance (t : Talk) : ∀ a : TalkOp, Decidable (a.InTime t)
  | .presence _ _ => inferInstanceAs (Decidable (_ ≠ _))
  | .stopped _ _ => inferInstanceAs (Decidable (_ → _))
  | .setJid _ _ => .isTrue trivial

/-! ## The history of a session -/

/-- Nothing but presences. -/
def Presences (l : List Notice) : Prop := ∀ e ∈ l, e = .presence ∨ ∃ jid, e = .forwarded jid

/-- What has happened to a session by its `binding`. -/
inductive Story : ℕ → List Notice → Prop
  | fresh : Story 0 []
  | here {l : List Notice} (jid : Option Jid) (h : Presences l) :
      Story 1 (.presence :: .forwarded jid :: l)
  | never (k : ℕ) : Story 2 (List.replicate (k + 1) .stopped)
  | gone {l : List Notice} (jid jid' : Option Jid) (k : ℕ) (h : Presences l) :
      Story 2 ((.presence :: .forwarded jid :: l) ++
        (.stopped :: .unbind jid' :: .offline jid' :: List.replicate k .stopped))

variable {b : ℕ} {l l' : List Notice} {jid : Option Jid}

theorem Presences.append (h : Presences l) (h' : Presences l') : Presences (l ++ l') :=
  fun e he => (List.mem_append.mp he).elim (h e) (h' e)

theorem Presences.cons (h : Presences l) (jid : Option Jid) :
    Presences (.presence :: .forwarded jid :: l) := by
  intro e he
  rcases List.mem_cons.mp he with rfl | he
  · exact .inl rfl
  · rcases List.mem_cons.mp he with rfl | he
    · exact .inr ⟨jid, rfl⟩
    · exact h e he

theorem presences_nil : Presences [] := fun e he => by cases he

theorem Presences.stopped_not_mem (h : Presences l) : .stopped ∉ l := fun hmem => by
  rcases h _ hmem with h | ⟨jid, h⟩ <;> cases h

/-- Of presences `p` counts none, if it counts neither of their notices. -/
theorem Presences.countP (h : Presences l) {p : Notice → Bool} (hp : p .presence = false)
    (hforwarded : ∀ jid, p (.forwarded jid) = false) : l.countP p = 0 := by
  refine List.countP_eq_zero.mpr fun e he => ?_
  rcases h e he with rfl | ⟨jid, rfl⟩
  · simp [hp]
  · simp [hforwarded jid]

theorem countP_stopped {p : Notice → Bool} (hp : p .stopped = false) (k : ℕ) :
    (List.replicate k Notice.stopped).countP p = 0 := by
  refine List.countP_eq_zero.mpr fun e he => ?_
  rw [List.eq_of_mem_replicate he, hp]
  exact Bool.false_ne_true

/-- A presence in time. -/
theorem Story.presence (h : Story b l) (hb : b ≠ 2) (jid : Option Jid) :
    Story 1 (l ++ [.presence, .forwarded jid]) := by
  cases h with
  | fresh => exact .here jid presences_nil
  | here jid' h => exact .here jid' (h.append (presences_nil.cons jid))
  | never k => exact absurd rfl hb
  | gone jid' jid'' k h => exact absurd rfl hb

/-- A stop that finds the session bound. -/
theorem Story.unbind (h : Story 1 l) (jid : Option Jid) :
    Story 2 (l ++ [.stopped, .unbind jid, .offline jid]) := by
  cases h with
  | here jid' h => exact .gone jid' jid 0 h

/-- A stop that finds it not bound. -/
theorem Story.stopped (h : Story b l) (hb : b ≠ 1) : Story 2 (l ++ [.stopped]) := by
  cases h with
  | fresh => exact .never 0
  | here jid h => exact absurd rfl hb
  | never k =>
      rw [← List.replicate_succ']
      exact .never (k + 1)
  | gone jid jid' k h =>
      have hmore := Story.gone jid jid' (k + 1) h
      rw [List.replicate_succ'] at hmore
      simpa using hmore

theorem Story.bound_iff (h : Story b l) : .presence ∈ l ∧ .stopped ∉ l ↔ b = 1 := by
  cases h with
  | fresh => simp
  | here jid h => simp [h.stopped_not_mem]
  | never k => simp
  | gone jid jid' k h => simp

/-- Where no call of `offline` is, none comes before a presence. -/
theorem silent_of_no_offline (h : ∀ e ∈ l, e.IsOffline = false) :
    l.Pairwise fun e e' => e.IsOffline → ¬ e'.IsForwarded := by
  refine List.pairwise_of_forall_mem_list fun e he e' _ hoffline => ?_
  rw [h e he] at hoffline
  cases hoffline

theorem Presences.no_offline (h : Presences l) : ∀ e ∈ l, e.IsOffline = false := by
  intro e he
  rcases h e he with rfl | ⟨jid, rfl⟩ <;> rfl

/-- **A session whose presences come in time stays offline.** -/
theorem Story.staysOffline (h : Story b l) : StaysOffline l := by
  cases h with
  | fresh =>
      refine ⟨fun h => ?_, fun _ => ⟨rfl, rfl⟩, List.Pairwise.nil⟩
      obtain ⟨e, he, -⟩ := h
      cases he
  | here jid h =>
      have hall := h.cons jid
      exact ⟨fun _ hstopped => absurd hstopped hall.stopped_not_mem, fun _ =>
        ⟨hall.countP rfl fun _ => rfl, hall.countP rfl fun _ => rfl⟩,
        silent_of_no_offline hall.no_offline⟩
  | never k =>
      refine ⟨fun h => ?_, fun h => absurd (by simp) h, silent_of_no_offline fun e he => ?_⟩
      · obtain ⟨e, he, hforwarded⟩ := h
        rw [List.eq_of_mem_replicate he] at hforwarded
        cases hforwarded
      · rw [List.eq_of_mem_replicate he]
        rfl
  | gone jid jid' k h =>
      have hall := h.cons jid
      refine ⟨fun _ _ => ⟨?_, ?_⟩, fun h => absurd (by simp) h, ?_⟩
      · rw [List.countP_append, hall.countP rfl fun _ => rfl]
        simp [List.countP_cons, Notice.IsUnbind]
      · rw [List.countP_append, hall.countP rfl fun _ => rfl]
        simp [List.countP_cons, Notice.IsOffline]
      · -- before the stop nothing is offline, and from it on nothing is forwarded
        have hquiet : ∀ e ∈ Notice.stopped :: .unbind jid' :: .offline jid' :: List.replicate k .stopped,
            e.IsForwarded = false := by
          intro e he
          simp only [List.mem_cons, List.mem_replicate] at he
          rcases he with rfl | rfl | rfl | ⟨-, rfl⟩ <;> rfl
        rw [List.pairwise_append]
        refine ⟨silent_of_no_offline hall.no_offline, ?_, fun e he e' _ hoffline => ?_⟩
        · refine List.pairwise_of_forall_mem_list fun e _ e' he' _ => ?_
          rw [hquiet e' he']
          exact Bool.false_ne_true
        · rw [hall.no_offline e he] at hoffline
          cases hoffline

/-! ## What goes wrong -/

/-- A presence that comes to a stopped session does not leave it offline. -/
theorem Story.presence_late (h : Story 2 l) (jid : Option Jid) :
    ¬ StaysOffline (l ++ [.presence, .forwarded jid]) := by
  intro hstays
  cases h with
  | never k =>
      have hcount := (hstays.once ⟨.forwarded jid, by simp, rfl⟩ (by simp)).1
      rw [List.countP_append, countP_stopped rfl] at hcount
      cases hcount
  | gone jid' jid'' k h =>
      have hcross := (List.pairwise_append.mp hstays.silent).2.2 (.offline jid'') (by simp)
        (.forwarded jid) (by simp)
      exact hcross rfl rfl

/-- Nor does a stop whose `unbind` throws. -/
theorem Story.stopped_thrown (h : Story 1 l) (jid : Option Jid) :
    ¬ StaysOffline (l ++ [.stopped, .unbind jid]) := by
  intro hstays
  cases h with
  | here jid' h =>
      have hcount := (hstays.once ⟨.forwarded jid', by simp, rfl⟩ (by simp)).2
      rw [List.countP_append, (h.cons jid').countP rfl fun _ => rfl] at hcount
      cases hcount

/-! ## All sessions -/

/-- The histories of the sessions, and the count of those that are bound. -/
structure TalkInv (t : Talk) : Prop where
  story : ∀ i, Story (t.sessions i).binding (t.notices i)
  counted : ∃ F : Finset ℕ, (∀ i, i ∈ F ↔ (t.sessions i).binding = 1) ∧
    t.onlineUserCount = F.card

variable {t : Talk}

theorem TalkInv.offline (h : TalkInv t) : t.Offline where
  sessions := fun i => (h.story i).staysOffline
  counted := by
    obtain ⟨F, hF, hcount⟩ := h.counted
    exact ⟨F, fun i => (hF i).trans (h.story i).bound_iff.symm, hcount⟩

theorem talkInv_new : TalkInv .new where
  story := fun _ => .fresh
  counted := ⟨∅, fun i => by
    have hbinding : (Talk.new.sessions i).binding = 0 := rfl
    simp [hbinding], rfl⟩

theorem binding_set (i j : ℕ) (s : Session) (l : List Notice) (count : ℤ) :
    ((t.set i s l count).sessions j).binding =
      if j = i then s.binding else (t.sessions j).binding := by
  unfold Talk.set
  dsimp only
  rw [Function.update_apply]
  split_ifs <;> rfl

theorem notices_set (i j : ℕ) (s : Session) (l : List Notice) (count : ℤ) :
    (t.set i s l count).notices j = if j = i then t.notices i ++ l else t.notices j :=
  Function.update_apply t.notices i (t.notices i ++ l) j

/-- What one session has become, with its notices, and what that does to the count. -/
theorem TalkInv.set (h : TalkInv t) (i : ℕ) {s : Session} {l : List Notice} {count : ℤ}
    (hstory : Story s.binding (t.notices i ++ l))
    (hcount : count = (if s.binding = 1 then 1 else 0) -
      (if (t.sessions i).binding = 1 then 1 else 0)) : TalkInv (t.set i s l count) where
  story := by
    intro j
    rw [binding_set, notices_set]
    split_ifs
    · exact hstory
    · exact h.story j
  counted := by
    obtain ⟨F, hF, hcard⟩ := h.counted
    have hmem := hF i
    have hsum : (t.set i s l count).onlineUserCount = F.card + count := by rw [← hcard]; rfl
    by_cases hs : s.binding = 1
    · refine ⟨insert i F, fun j => ?_, ?_⟩
      · rw [binding_set, Finset.mem_insert, hF]
        by_cases hj : j = i <;> simp [hj, hs]
      · rw [hsum, hcount, if_pos hs]
        by_cases hbound : (t.sessions i).binding = 1
        · rw [if_pos hbound, Finset.insert_eq_of_mem (hmem.mpr hbound)]
          omega
        · rw [if_neg hbound, Finset.card_insert_of_notMem fun hi => hbound (hmem.mp hi)]
          omega
    · refine ⟨F.erase i, fun j => ?_, ?_⟩
      · rw [binding_set, Finset.mem_erase, hF]
        by_cases hj : j = i <;> simp [hj, hs]
      · rw [hsum, hcount, if_neg hs]
        by_cases hbound : (t.sessions i).binding = 1
        · have hcard := Finset.card_erase_add_one (hmem.mpr hbound)
          rw [if_pos hbound]
          omega
        · rw [if_neg hbound, Finset.erase_eq_of_notMem fun hi => hbound (hmem.mp hi)]
          omega

theorem binding_presence (s : Session) (doc : XmlNode) :
    (s.presence doc).binding = if s.binding = 0 then 1 else s.binding := rfl

theorem binding_le (h : Story b l) : b ≤ 2 := by
  cases h <;> omega

/-- Of the stanzas that are read those are presences of the session which go to no room. -/
def presents (doc : XmlNode) : Prop :=
  let target := (childOrNull doc "presence").attr "to"
  (firstChild doc).name = "presence" ∧ (target = "" ∨ idType target = .jid)

instance (doc : XmlNode) : Decidable (presents doc) := inferInstanceAs (Decidable (_ ∧ _))

/-- **One call of a session**, if it comes in time. -/
theorem talkInv_step (t : Talk) (a : TalkOp) (h : TalkInv t) (ha : a.InTime t) :
    TalkInv (TalkOp.step t a) := by
  cases a with
  | presence i doc =>
      have hle := binding_le (h.story i)
      have hbound : ((t.sessions i).presence doc).binding = 1 := by
        have hnot : (t.sessions i).binding ≠ 2 := ha
        rw [binding_presence]
        split_ifs <;> omega
      refine h.set i ?_ ?_
      · rw [hbound]
        exact (h.story i).presence ha _
      · rw [if_pos hbound]
        have hnot : (t.sessions i).binding ≠ 2 := ha
        split_ifs <;> omega
  | stopped i thrown =>
      unfold TalkOp.step Talk.stopped
      dsimp only
      by_cases hbound : (t.sessions i).binding = 1
      · obtain rfl : thrown = false := ha hbound
        rw [if_pos hbound]
        refine h.set i ?_ ?_
        · have hstory := h.story i
          rw [hbound] at hstory
          exact hstory.unbind _
        · rw [if_pos hbound]
          rfl
      · rw [if_neg hbound]
        refine h.set i ((h.story i).stopped hbound) ?_
        rw [if_neg hbound]
        rfl
  | setJid i jid =>
      refine h.set i ?_ ?_
      · rw [List.append_nil]
        exact h.story i
      · exact (Int.sub_self _).symm

/-- A call after which all sessions stay offline has come in time. -/
theorem inTime_of_offline (t : Talk) (a : TalkOp) (h : TalkInv t)
    (hoffline : (TalkOp.step t a).Offline) : a.InTime t := by
  cases a with
  | presence i doc =>
      intro hstopped
      have hstory := h.story i
      rw [hstopped] at hstory
      have hstays := hoffline.sessions i
      unfold TalkOp.step Talk.presence at hstays
      rw [notices_set, if_pos rfl] at hstays
      exact hstory.presence_late _ hstays
  | stopped i thrown =>
      intro hbound
      cases thrown with
      | false => rfl
      | true =>
          have hstory := h.story i
          rw [hbound] at hstory
          have hstays := hoffline.sessions i
          unfold TalkOp.step Talk.stopped at hstays
          dsimp only at hstays
          rw [if_pos hbound, notices_set, if_pos rfl, if_pos rfl] at hstays
          exact absurd hstays (hstory.stopped_thrown _)
  | setJid i jid => trivial

/-- **Sessions that have stopped.** In every state of a run they stay offline and the count is
right, exactly when no presence comes to a session that has stopped and no `unbind` throws. -/
theorem stays_offline_iff (ops : List TalkOp) :
    (∀ k, (runOps TalkOp.step .new (ops.take k)).Offline) ↔
      StepsMeet TalkOp.step TalkOp.InTime .new ops :=
  forall_take_iff_stepsMeet (fun _ h => h.offline) talkInv_step inTime_of_offline talkInv_new ops

/-- The stop comes between the presences that were read: the second is forwarded after the call of
`offline`. And with the stop before the only presence there is no call of `offline` at all. -/
theorem presence_after_stop :
    ¬ (runOps TalkOp.step .new
        [.presence 0 nullNode, .stopped 0 false, .presence 0 nullNode]).Offline ∧
      ¬ (runOps TalkOp.step .new [.stopped 0 false, .presence 0 nullNode]).Offline := by
  constructor
  · intro h
    have hsilent := (h.sessions 0).silent
    revert hsilent
    decide
  · intro h
    have honce := (h.sessions 0).once ⟨.forwarded none, by decide, rfl⟩ (by decide)
    revert honce
    decide

end Oce.TalkProxy
