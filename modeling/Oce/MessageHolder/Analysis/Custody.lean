import Oce.MessageHolder.Model.Holder

/-!
# Runs of the holder

A message that has been accepted and has no receipt yet is in one of these places: held in the
tub of its user, among what a timer has collected, in the offline table, with a client's load
that is under way, or delivered. Timers move it from the first to the second and the third,
loads from the first and the third to the last two.

Every operation moves a message on, or leaves it where it is; a load loses what it takes when
its endpoint is not a client's, what it finds younger than its own clock, and the rows that come
between its reading and its deleting. When nothing is under way any more, what has been accepted
has its receipt, is held, stored or delivered.
-/

set_option autoImplicit false

namespace Oce.MessageHolder

open Oce.Base Oce.TalkCommon

section Places

variable {poolSize : ℕ} {xml : Xml} {s : Holder} {m : Message} {t : MessageTub} {k : ℤ}

variable {i : ℕ} {u : ℤ} {P : Message → Prop}

/-! ## Lists -/

theorem mem_set_or {α : Type*} {l : List α} {a b c : α} (hc : l[i]? = some c) (ha : a ∈ l) :
    a = c ∨ a ∈ l.set i b := by
  obtain ⟨j, hj⟩ := List.mem_iff_getElem?.mp ha
  by_cases hij : i = j
  · subst hij
    rw [hc] at hj
    exact .inl (Option.some.inj hj).symm
  · right
    apply List.mem_iff_getElem?.mpr
    exact ⟨j, by rw [List.getElem?_set_ne hij]; exact hj⟩

theorem mem_set_self {α : Type*} {l : List α} {b c : α} (hc : l[i]? = some c) : b ∈ l.set i b :=
  List.mem_set (List.getElem?_eq_some_iff.mp hc).1 b

theorem mem_eraseIdx_or {α : Type*} {l : List α} {a c : α} (hc : l[i]? = some c) (ha : a ∈ l) :
    a = c ∨ a ∈ l.eraseIdx i := by
  obtain ⟨j, hj⟩ := List.mem_iff_getElem?.mp ha
  by_cases hij : j = i
  · subst hij
    rw [hc] at hj
    exact .inl (Option.some.inj hj).symm
  · exact .inr (List.mem_eraseIdx_iff_getElem?.mpr ⟨j, hij, hj⟩)

/-! ## Tubs -/

namespace MessageTub

theorem find_insert_tub (t : MessageTub) (now : ℤ) (msg : Message) :
    ((t.insert now msg).userMsgs msg.toJid.userId).find msg.msgKey = some msg := by
  unfold insert
  dsimp only
  rw [Function.update_self, OrdMap.find_insert_self]

theorem find_insert_other (t : MessageTub) (now : ℤ) {msg : Message} (hne : k ≠ msg.msgKey) (u : ℤ) :
    ((t.insert now msg).userMsgs u).find k = (t.userMsgs u).find k := by
  unfold insert
  dsimp only
  by_cases hu : u = msg.toJid.userId
  · subst hu
    rw [Function.update_self, OrdMap.find_insert_ne _ _ hne]
  · rw [Function.update_of_ne hu]

theorem find_erased (t : MessageTub) {v k k' : ℤ} (hne : ¬ (v = u ∧ k' = k)) :
    ((Function.update t.userMsgs u ((t.userMsgs u).erase k)) v).find k' =
      (t.userMsgs v).find k' := by
  by_cases hv : v = u
  · subst hv
    rw [Function.update_self, OrdMap.find_erase, if_neg fun hk => hne ⟨rfl, hk⟩]
  · rw [Function.update_of_ne hv]

/-- What was held is held still, or has timed out. -/
theorem timeoutLoop_find (now : ℤ) (l : List MsgTimerInfo) (t : MessageTub)
    (hl : ∀ info ∈ l, info.msg.toJid.userId = u → info.msg.msgKey = k → info.msg = m)
    (hm : (t.userMsgs u).find k = some m) :
    ((timeoutLoop now l t).2.userMsgs u).find k = some m ∨ m ∈ (timeoutLoop now l t).1 := by
  induction l generalizing t with
  | nil => exact .inl hm
  | cons info l ih =>
      have hrest := fun info' hinfo' => hl info' (List.mem_cons_of_mem info hinfo')
      unfold timeoutLoop
      dsimp only
      split_ifs with hyoung hgone hresent
      · exact .inl hm
      · exact ih t hrest hm
      · exact ih _ hrest hm
      · by_cases hit : u = info.msg.toJid.userId ∧ k = info.msg.msgKey
        · have hsame := hl info List.mem_cons_self hit.1.symm hit.2.symm
          exact .inr (by rw [← hsame]; exact List.mem_cons_self)
        · have hkept := (find_erased t hit).trans hm
          rcases ih { t with userMsgs := _ } hrest hkept with h | h
          · exact .inl h
          · exact .inr (List.mem_cons_of_mem _ h)

/-- The timers that are left are of messages that had one. -/
theorem timeoutLoop_timers (now : ℤ) (l : List MsgTimerInfo) (t : MessageTub)
    (hl : ∀ info ∈ l, P info.msg) (ht : ∀ info ∈ t.msgTimes, P info.msg) :
    ∀ info ∈ (timeoutLoop now l t).2.msgTimes, P info.msg := by
  induction l generalizing t with
  | nil => exact ht
  | cons info l ih =>
      have hhead := hl info List.mem_cons_self
      have hrest := fun info' hinfo' => hl info' (List.mem_cons_of_mem info hinfo')
      unfold timeoutLoop
      dsimp only
      split_ifs with hyoung hgone hresent
      · intro info' hinfo'
        rcases List.mem_append.mp hinfo' with hinfo' | hinfo'
        · exact hl info' hinfo'
        · exact ht info' hinfo'
      · exact ih t hrest ht
      · refine ih _ hrest fun info' hinfo' => ?_
        rcases List.mem_append.mp hinfo' with hinfo' | hinfo'
        · exact ht info' hinfo'
        · rw [List.mem_singleton.mp hinfo']
          exact hhead
      · exact ih _ hrest ht

theorem getTimeoutMsgs_find (t : MessageTub) (now : ℤ)
    (ht : ∀ info ∈ t.msgTimes, info.msg.toJid.userId = u → info.msg.msgKey = k → info.msg = m)
    (hm : (t.userMsgs u).find k = some m) :
    ((t.getTimeoutMsgs now).2.userMsgs u).find k = some m ∨ m ∈ (t.getTimeoutMsgs now).1 :=
  timeoutLoop_find now t.msgTimes _ ht hm

theorem getTimeoutMsgs_timers (t : MessageTub) (now : ℤ) (ht : ∀ info ∈ t.msgTimes, P info.msg) :
    ∀ info ∈ (t.getTimeoutMsgs now).2.msgTimes, P info.msg :=
  timeoutLoop_timers now t.msgTimes _ ht fun _ h => absurd h List.not_mem_nil

theorem getUserMsgs_mem (hm : (t.userMsgs u).find k = some m) : m ∈ (t.getUserMsgs u).1 :=
  OrdMap.mem_values_iff.mpr ⟨k, hm⟩

end MessageTub

/-! ## Places -/

/-- The keys of what a load will deliver. -/
def Loading.keys (l : Loading) : List ℤ :=
  (l.rows.getD []).map OfflineRow.id ++ l.msgs.map Message.msgKey

/-- It is delivered, or a client's load will deliver it, or a client's load found it too old. -/
def Given (s : Holder) (k : ℤ) : Prop :=
  (∃ e ∈ s.handed, e.1 = k) ∨ k ∈ s.expired ∨ ∃ l ∈ s.loads, isClient l.jid = true ∧ k ∈ l.keys

/-- The row of a message. -/
def Stored (xml : Xml) (s : Holder) (m : Message) : Prop := ∃ time, xml.row m time ∈ s.table

inductive Placed (poolSize : ℕ) (xml : Xml) (s : Holder) (m : Message) : Prop where
  | receipt (h : m.msgKey ∈ s.receipts)
  | held (h : (s.held poolSize m.toJid.userId).find m.msgKey = some m)
  | collected (h : Handling) (hh : h ∈ s.handles) (hm : m ∈ h.timeoutMsgs)
  | stored (h : Stored xml s m)
  | given (h : Given s m.msgKey)

/-- What is under way and will delete: a receipt that came is the only reason for a row to be
deleted by its id. -/
structure Kept (poolSize : ℕ) (xml : Xml) (s : Holder) : Prop where
  keys : ∀ a ∈ s.accepted, ∀ b ∈ s.accepted, a.msgKey = b.msgKey → a = b
  timers : ∀ i, ∀ info ∈ (s.tubs i).msgTimes, info.msg ∈ s.accepted
  deletes : ∀ k, .deleteById k ∈ s.scheduled → k ∈ s.receipts
  read : ∀ k ∈ s.read, k ∈ s.receipts ∨ Given s k
  placed : ∀ m ∈ s.accepted, xml.hasBody m.msg = true → Placed poolSize xml s m

theorem kept_new : Kept poolSize xml .new where
  keys := fun _ h => absurd h List.not_mem_nil
  timers := fun _ _ h => absurd h List.not_mem_nil
  deletes := fun _ h => absurd h List.not_mem_nil
  read := fun _ h => absurd h List.not_mem_nil
  placed := fun _ h => absurd h List.not_mem_nil

/-- Only the tub at `i` changes. -/
theorem held_setTub (poolSize : ℕ) (s : Holder) (i : ℤ) (t : MessageTub) (u : ℤ) :
    (s.setTub i t).held poolSize u =
      if Holder.tubOf poolSize u = i then t.userMsgs u else s.held poolSize u := by
  unfold Holder.held Holder.setTub
  dsimp only
  by_cases hi : Holder.tubOf poolSize u = i
  · rw [if_pos hi, hi, Function.update_self]
  · rw [if_neg hi, Function.update_of_ne hi]

theorem timers_setTub {i : ℤ} (h : ∀ j, ∀ info ∈ (s.tubs j).msgTimes, P info.msg)
    (ht : ∀ info ∈ t.msgTimes, P info.msg) :
    ∀ j, ∀ info ∈ ((s.setTub i t).tubs j).msgTimes, P info.msg := by
  intro j
  unfold Holder.setTub
  dsimp only
  by_cases hj : j = i
  · rw [hj, Function.update_self]
    exact ht
  · rw [Function.update_of_ne hj]
    exact h j

end Places

variable {poolSize : ℕ} {xml : Xml} {s s' : Holder} {m msg : Message} {k : ℤ}

/-! ## Messages and receipts -/

/-- What is given stays given as long as nothing of it goes. -/
theorem Given.mono (h : Given s k) (hhanded : ∀ e ∈ s.handed, e ∈ s'.handed)
    (hexpired : ∀ k ∈ s.expired, k ∈ s'.expired) (hloads : ∀ l ∈ s.loads, l ∈ s'.loads) :
    Given s' k := by
  rcases h with ⟨e, he, hk⟩ | hk | ⟨l, hl, hclient, hk⟩
  · exact .inl ⟨e, hhanded e he, hk⟩
  · exact .inr (.inl (hexpired k hk))
  · exact .inr (.inr ⟨l, hloads l hl, hclient, hk⟩)

/-- A new message is held. -/
theorem kept_message (h : Kept poolSize xml s) (now : ℤ)
    (hnew : ∀ m ∈ s.accepted, m.msgKey ≠ msg.msgKey) : Kept poolSize xml (s.message poolSize now msg) := by
  unfold Holder.message
  dsimp only
  have hgiven : ∀ {k}, Given s k → Given { s.setTub (Holder.tubOf poolSize msg.toJid.userId)
      ((s.tubs (Holder.tubOf poolSize msg.toJid.userId)).insert now msg) with
        accepted := s.accepted ++ [msg] } k :=
    fun hk => hk.mono (fun _ he => he) (fun _ he => he) fun _ hl => hl
  have hheld := held_setTub poolSize s (Holder.tubOf poolSize msg.toJid.userId)
    ((s.tubs (Holder.tubOf poolSize msg.toJid.userId)).insert now msg)
  refine ⟨fun a ha b hb hab => ?_, ?_, h.deletes, fun k hk => ?_, fun m hm hbody => ?_⟩
  · rcases List.mem_append.mp ha with ha | ha <;> rcases List.mem_append.mp hb with hb | hb
    · exact h.keys a ha b hb hab
    · rw [List.mem_singleton.mp hb] at hab
      exact absurd hab (hnew a ha)
    · rw [List.mem_singleton.mp ha] at hab
      exact absurd hab.symm (hnew b hb)
    · rw [List.mem_singleton.mp ha, List.mem_singleton.mp hb]
  · refine timers_setTub (P := fun m => m ∈ s.accepted ++ [msg])
      (fun i info hinfo => List.mem_append_left _ (h.timers i info hinfo)) fun info hinfo => ?_
    rcases List.mem_append.mp hinfo with hinfo | hinfo
    · exact List.mem_append_left _ (h.timers _ info hinfo)
    · rw [List.mem_singleton.mp hinfo]
      exact List.mem_append_right _ List.mem_cons_self
  · exact (h.read k hk).imp_right hgiven
  · rcases List.mem_append.mp hm with hm | hm
    · cases h.placed m hm hbody with
      | receipt hr => exact .receipt hr
      | held hfind =>
          refine .held ?_
          rw [← hfind]
          refine congrArg (fun o : OrdMap ℤ Message => o.find m.msgKey) (hheld m.toJid.userId) |>.trans ?_
          split_ifs with hi
          · rw [MessageTub.find_insert_other _ _ (hnew m hm), Holder.held, hi]
          · rfl
      | collected g hg hgm => exact .collected g hg hgm
      | stored hs => exact .stored hs
      | given hg => exact .given (hgiven hg)
    · rw [List.mem_singleton.mp hm]
      refine .held ?_
      refine congrArg (fun o : OrdMap ℤ Message => o.find msg.msgKey) (hheld msg.toJid.userId) |>.trans ?_
      rw [if_pos rfl]
      exact MessageTub.find_insert_tub _ _ _

/-- Only what was acknowledged leaves the tub. -/
theorem kept_send (h : Kept poolSize xml s) (userId msgKey : ℤ) :
    Kept poolSize xml (s.send poolSize userId msgKey) := by
  unfold Holder.send
  dsimp only
  generalize hi : Holder.tubOf poolSize userId = i
  have hgiven : ∀ {k}, Given s k → Given { s.setTub i ((s.tubs i).send userId msgKey).2 with
      scheduled := if ((s.tubs i).send userId msgKey).1 = true then s.scheduled
        else s.scheduled ++ [.deleteById msgKey]
      receipts := s.receipts ++ [msgKey] } k :=
    fun hk => hk.mono (fun _ he => he) (fun _ he => he) fun _ hl => hl
  have hheld := held_setTub poolSize s i ((s.tubs i).send userId msgKey).2
  refine ⟨h.keys, ?_, fun k hk => ?_, fun k hk => ?_, fun m hm hbody => ?_⟩
  · exact timers_setTub h.timers (h.timers i)
  · dsimp only at hk
    have hor : Sql.deleteById k ∈ s.scheduled ∨ k = msgKey := by
      split_ifs at hk
      · exact .inl hk
      · rcases List.mem_append.mp hk with hk | hk
        · exact .inl hk
        · exact .inr (Sql.deleteById.inj (List.mem_singleton.mp hk))
    rcases hor with hk | rfl
    · exact List.mem_append_left _ (h.deletes k hk)
    · exact List.mem_append_right _ List.mem_cons_self
  · exact (h.read k hk).imp (List.mem_append_left _) hgiven
  · by_cases hkey : m.msgKey = msgKey
    · exact .receipt (List.mem_append_right _ (by rw [hkey]; exact List.mem_cons_self))
    · cases h.placed m hm hbody with
      | receipt hr => exact .receipt (List.mem_append_left _ hr)
      | held hfind =>
          refine .held ?_
          rw [← hfind]
          refine congrArg (fun o : OrdMap ℤ Message => o.find m.msgKey) (hheld m.toJid.userId) |>.trans ?_
          split_ifs with hj
          · unfold MessageTub.send Holder.held
            dsimp only
            rw [MessageTub.find_erased _ fun hand => hkey hand.2, hj]
          · rfl
      | collected g hg hgm => exact .collected g hg hgm
      | stored hs => exact .stored hs
      | given hg => exact .given (hgiven hg)

/-! ## The timer -/

theorem kept_handle (h : Kept poolSize xml s) : Kept poolSize xml s.handle where
  keys := h.keys
  timers := h.timers
  deletes := h.deletes
  read := h.read
  placed m hm hbody := by
    cases h.placed m hm hbody with
    | receipt hr => exact .receipt hr
    | held hfind => exact .held hfind
    | collected g hg hgm => exact .collected g (List.mem_append_left _ hg) hgm
    | stored hs => exact .stored hs
    | given hg => exact .given hg

/-- The timer hands over what it takes out of the tub. -/
theorem kept_collect (h : Kept poolSize xml s) (i : ℕ) (now : ℤ) :
    Kept poolSize xml (s.collect poolSize i now) := by
  unfold Holder.collect
  split
  · exact h
  · rename_i g hg
    split_ifs
    · dsimp only
      have hheld := held_setTub poolSize s g.next ((s.tubs g.next).getTimeoutMsgs now).2
      refine ⟨h.keys, ?_, h.deletes, h.read, fun m hm hbody => ?_⟩
      · exact timers_setTub h.timers (MessageTub.getTimeoutMsgs_timers _ now (h.timers g.next))
      · cases h.placed m hm hbody with
        | receipt hr => exact .receipt hr
        | held hfind =>
            by_cases hj : Holder.tubOf poolSize m.toJid.userId = g.next
            · -- the tub of the message is the one that is collected
              have hsame : ∀ info ∈ (s.tubs g.next).msgTimes, info.msg.toJid.userId = m.toJid.userId →
                  info.msg.msgKey = m.msgKey → info.msg = m :=
                fun info hinfo _ hkey => h.keys _ (h.timers _ info hinfo) m hm hkey
              have hfind' : ((s.tubs g.next).userMsgs m.toJid.userId).find m.msgKey = some m := by
                rw [← hj]
                exact hfind
              rcases MessageTub.getTimeoutMsgs_find _ now hsame hfind' with hleft | hout
              · refine .held ?_
                rw [← hleft]
                exact congrArg (fun o : OrdMap ℤ Message => o.find m.msgKey)
                  ((hheld m.toJid.userId).trans (if_pos hj))
              · exact .collected _ (mem_set_self hg) (List.mem_append_right _ hout)
            · refine .held ?_
              rw [← hfind]
              exact congrArg (fun o : OrdMap ℤ Message => o.find m.msgKey)
                ((hheld m.toJid.userId).trans (if_neg hj))
        | collected g' hg' hgm =>
            rcases mem_set_or hg hg' with rfl | hin
            · exact .collected _ (mem_set_self hg) (List.mem_append_left _ hgm)
            · exact .collected g' hin hgm
        | stored hs => exact .stored hs
        | given hgiven => exact .given hgiven
    · exact h

theorem kept_store (h : Kept poolSize xml s) (i : ℕ) (clock : ℤ → ℤ) :
    Kept poolSize xml (s.store poolSize xml i clock) := by
  unfold Holder.store
  split
  · exact h
  · rename_i g hg
    split_ifs
    · exact h
    · refine ⟨h.keys, h.timers, h.deletes, h.read, fun m hm hbody => ?_⟩
      cases h.placed m hm hbody with
      | receipt hr => exact .receipt hr
      | held hfind => exact .held hfind
      | collected g' hg' hgm =>
          rcases mem_eraseIdx_or hg hg' with rfl | hin
          · refine .stored ⟨clock m.msgKey, List.mem_append_right _ ?_⟩
            exact List.mem_map.mpr ⟨m, List.mem_filter.mpr ⟨hgm, hbody⟩, rfl⟩
          · exact .collected g' hin hgm
      | stored hs =>
          obtain ⟨time, hrow⟩ := hs
          exact .stored ⟨time, List.mem_append_left _ hrow⟩
      | given hgiven => exact .given hgiven

/-! ## Loads -/

theorem kept_load (h : Kept poolSize xml s) {jid : Jid} (now : ℤ)
    (hload : isClient jid = true ∨
      ∀ e ∈ (s.held poolSize jid.userId).entries, xml.hasBody e.2.msg = false) :
    Kept poolSize xml (s.loadOfflineMessage poolSize xml jid now) := by
  unfold Holder.loadOfflineMessage
  dsimp only
  generalize hi : Holder.tubOf poolSize jid.userId = i
  have hgiven : ∀ {k}, Given s k → Given { s.setTub i ((s.tubs i).getUserMsgs jid.userId).2 with
      loads := s.loads ++ [⟨jid, ((s.tubs i).getUserMsgs jid.userId).1.map fun m =>
        xml.offline m jid now, none⟩] } k :=
    fun hk => hk.mono (fun _ he => he) (fun _ he => he) fun _ hl => List.mem_append_left _ hl
  have hheld := held_setTub poolSize s i ((s.tubs i).getUserMsgs jid.userId).2
  refine ⟨h.keys, timers_setTub h.timers (h.timers i), h.deletes,
    fun k hk => (h.read k hk).imp_right hgiven, fun m hm hbody => ?_⟩
  cases h.placed m hm hbody with
  | receipt hr => exact .receipt hr
  | held hfind =>
      by_cases hu : m.toJid.userId = jid.userId
      · -- the load takes the message
        rw [hu] at hfind
        rcases hload with hclient | hnone
        · refine .given (.inr (.inr ⟨_, List.mem_append_right _ List.mem_cons_self, hclient, ?_⟩))
          refine List.mem_append_right _ (List.mem_map.mpr ⟨xml.offline m jid now, ?_, rfl⟩)
          have hmem : m ∈ ((s.tubs i).getUserMsgs jid.userId).1 :=
            MessageTub.getUserMsgs_mem (by rw [← hi]; exact hfind)
          exact List.mem_map.mpr ⟨m, hmem, rfl⟩
        · have := hnone (m.msgKey, m) (OrdMap.mem_entries_iff _ |>.mpr hfind)
          rw [hbody] at this
          cases this
      · refine .held ?_
        rw [← hfind]
        refine congrArg (fun o : OrdMap ℤ Message => o.find m.msgKey) (hheld m.toJid.userId) |>.trans ?_
        split_ifs with hj
        · unfold MessageTub.getUserMsgs Holder.held
          dsimp only
          rw [Function.update_of_ne hu, hj]
        · rfl
  | collected g hg hgm => exact .collected g hg hgm
  | stored hs => exact .stored hs
  | given hg => exact .given (hgiven hg)

/-- What a load must find in the table: for a client no row of its user that is younger than the
clock, for another no row of its user at all, but for those whose receipts have come. -/
def Holder.Readable (s : Holder) (jid : Jid) (now : ℤ) : Prop :=
  ∀ row ∈ s.table, row.toid = jid.userId →
    row.id ∈ s.receipts ∨ isClient jid = true ∧ row.time ≤ now

/-- Reading the rows of a load keeps every message somewhere. -/
theorem kept_select (h : Kept poolSize xml s) (i : ℕ) (now : ℤ)
    (hread : ∀ l, s.loads[i]? = some l → l.rows = none → s.Readable l.jid now) :
    Kept poolSize xml (s.select i now) := by
  unfold Holder.select
  split
  · rename_i jid msgs hl
    dsimp only
    have hreadable := hread _ hl rfl
    generalize hs' : ({ s with loads := _, scheduled := _, read := _, expired := _ } : Holder) = s'
    have hloads : s'.loads = s.loads.set i ⟨jid, msgs, some (if isClient jid = true then
        (s.table.filter fun row => row.toid = jid.userId).filter fun row => age now row.time ≤ kOldest
          else s.table.filter fun row => row.toid = jid.userId)⟩ := by
      rw [← hs']
    have hexpired : s'.expired = if isClient jid = true then
        s.expired ++ ((s.table.filter fun row => row.toid = jid.userId).filter fun row =>
          kOldest < now - row.time).map OfflineRow.id else s.expired := by
      rw [← hs']
    have hgiven : ∀ {k}, Given s k → Given s' k := by
      rintro k (⟨e, he, hk⟩ | hk | ⟨l, hmem, hclient, hk⟩)
      · exact .inl ⟨e, by rw [← hs']; exact he, hk⟩
      · refine .inr (.inl ?_)
        rw [hexpired]
        split_ifs
        · exact List.mem_append_left _ hk
        · exact hk
      · right; right
        rw [hloads]
        rcases mem_set_or hl hmem with rfl | hin
        · refine ⟨_, mem_set_self hl, hclient, ?_⟩
          rcases List.mem_append.mp hk with hk | hk
          · cases hk
          · exact List.mem_append_right _ hk
        · exact ⟨l, hin, hclient, hk⟩
    rw [← hs']
    refine ⟨h.keys, h.timers, fun k hk => ?_, fun k hk => ?_, fun m hm hbody => ?_⟩
    · refine h.deletes k ?_
      dsimp only at hk
      split_ifs at hk
      · exact hk
      · rcases List.mem_append.mp hk with hk | hk
        · exact hk
        · cases List.mem_singleton.mp hk
    · rw [hs']
      have hreceipts : s'.receipts = s.receipts := by rw [← hs']
      rw [hreceipts]
      rcases List.mem_append.mp hk with hk | hk
      · exact (h.read k hk).imp_right hgiven
      · obtain ⟨row, hrow, rfl⟩ := List.mem_map.mp hk
        obtain ⟨htable, htoid⟩ := List.mem_filter.mp hrow
        rcases hreadable row htable (of_decide_eq_true htoid) with hr | ⟨hclient, htime⟩
        · exact .inl hr
        · right
          by_cases hold : kOldest < now - row.time
          · refine .inr (.inl ?_)
            rw [hexpired, if_pos hclient]
            exact List.mem_append_right _
              (List.mem_map.mpr ⟨row, List.mem_filter.mpr ⟨hrow, decide_eq_true hold⟩, rfl⟩)
          · -- the row is neither too old nor too young, so the load has it
            have hage : age now row.time ≤ kOldest := by
              unfold age kOldest at *
              omega
            have hload := mem_set_self hl (b := (⟨jid, msgs, some (if isClient jid = true then
              (s.table.filter fun row => row.toid = jid.userId).filter fun row =>
                age now row.time ≤ kOldest
              else s.table.filter fun row => row.toid = jid.userId)⟩ : Loading))
            rw [← hloads] at hload
            refine .inr (.inr ⟨_, hload, hclient, ?_⟩)
            refine List.mem_append_left _ (List.mem_map.mpr ⟨row, ?_, rfl⟩)
            rw [Option.getD_some]
            dsimp only at hclient
            rw [if_pos hclient]
            exact List.mem_filter.mpr ⟨hrow, decide_eq_true hage⟩
    · cases h.placed m hm hbody with
      | receipt hr => exact .receipt hr
      | held hfind => exact .held hfind
      | collected g hg hgm => exact .collected g hg hgm
      | stored hs => exact .stored hs
      | given hg => exact .given (by rw [hs']; exact hgiven hg)
  · exact h

/-- A delivery moves a message to its user. -/
theorem kept_deliver (h : Kept poolSize xml s) (i : ℕ) : Kept poolSize xml (s.deliver i) := by
  unfold Holder.deliver
  split
  · rename_i jid msgs rows hl
    generalize hs' : ({ s with loads := _, handed := _ } : Holder) = s'
    have hgiven : ∀ {k}, Given s k → Given s' k := by
      rw [← hs']
      rintro k (⟨e, he, hk⟩ | hk | ⟨l, hmem, hclient, hk⟩)
      · refine .inl ⟨e, ?_, hk⟩
        dsimp only
        split_ifs
        · exact List.mem_append_left _ (List.mem_append_left _ he)
        · exact he
      · exact .inr (.inl hk)
      · rcases mem_eraseIdx_or hl hmem with rfl | hin
        · dsimp only at hclient
          left
          dsimp only
          rw [if_pos hclient]
          rcases List.mem_append.mp hk with hk | hk
          · obtain ⟨row, hrow, rfl⟩ := List.mem_map.mp hk
            exact ⟨_, List.mem_append_left _ (List.mem_append_right _
              (List.mem_map.mpr ⟨row, hrow, rfl⟩)), rfl⟩
          · obtain ⟨m, hm, rfl⟩ := List.mem_map.mp hk
            exact ⟨_, List.mem_append_right _ (List.mem_map.mpr ⟨m, hm, rfl⟩), rfl⟩
        · exact .inr (.inr ⟨l, hin, hclient, hk⟩)
    rw [← hs'] at hgiven ⊢
    refine ⟨h.keys, h.timers, h.deletes, fun k hk => (h.read k hk).imp_right hgiven,
      fun m hm hbody => ?_⟩
    cases h.placed m hm hbody with
    | receipt hr => exact .receipt hr
    | held hfind => exact .held hfind
    | collected g hg hgm => exact .collected g hg hgm
    | stored hs => exact .stored hs
    | given hg => exact .given (hgiven hg)
  · exact h

/-- The rows that a load deletes have been read by one, but for those whose receipts have come. -/
def Holder.Deletable (s : Holder) (sql : Sql) : Prop :=
  ∀ row ∈ s.table, sql = .deleteByToid row.toid → row.id ∈ s.receipts ∨ row.id ∈ s.read

/-- A deletion of rows that were read. -/
theorem kept_runSql (h : Kept poolSize xml s) (i : ℕ)
    (hdel : ∀ sql, s.scheduled[i]? = some sql → s.Deletable sql) : Kept poolSize xml (s.runSql i) := by
  unfold Holder.runSql
  split
  · exact h
  · rename_i sql hsql
    refine ⟨h.keys, h.timers, fun k hk => h.deletes k (List.mem_of_mem_eraseIdx hk), h.read,
      fun m hm hbody => ?_⟩
    cases h.placed m hm hbody with
    | receipt hr => exact .receipt hr
    | held hfind => exact .held hfind
    | collected g hg hgm => exact .collected g hg hgm
    | given hg => exact .given hg
    | stored hs =>
        obtain ⟨time, hrow⟩ := hs
        cases sql with
        | deleteById id =>
            by_cases hid : m.msgKey = id
            · rw [← hid] at hsql
              exact .receipt (h.deletes _ (List.mem_of_getElem? hsql))
            · exact .stored ⟨time, List.mem_filter.mpr ⟨hrow, decide_eq_true hid⟩⟩
        | deleteByToid toid =>
            by_cases hto : m.toJid.userId = toid
            · rw [← hto] at hsql
              rcases hdel _ hsql _ hrow rfl with hr | hread
              · exact .receipt hr
              · rcases h.read _ hread with hr | hg
                · exact .receipt hr
                · exact .given hg
            · exact .stored ⟨time, List.mem_filter.mpr ⟨hrow, decide_eq_true hto⟩⟩

/-! ## Runs -/

/-- What an operation must find. -/
def HolderOp.Fits (poolSize : ℕ) (xml : Xml) (s : Holder) : HolderOp → Prop
  | .message _ msg => ∀ m ∈ s.accepted, m.msgKey ≠ msg.msgKey
  | .loadOfflineMessage jid _ => isClient jid = true ∨
      ∀ e ∈ (s.held poolSize jid.userId).entries, xml.hasBody e.2.msg = false
  | .select i now => ∀ l ∈ s.loads[i]?, l.rows = none → s.Readable l.jid now
  | .runSql i => ∀ sql ∈ s.scheduled[i]?, s.Deletable sql
  | _ => True

instance (s : Holder) (jid : Jid) (now : ℤ) : Decidable (s.Readable jid now) :=
  inferInstanceAs (Decidable (∀ row ∈ s.table, _))

instance (s : Holder) (sql : Sql) : Decidable (s.Deletable sql) :=
  inferInstanceAs (Decidable (∀ row ∈ s.table, _))

instance (s : Holder) : (op : HolderOp) → Decidable (op.Fits poolSize xml s)
  | .message _ msg => inferInstanceAs (Decidable (∀ m ∈ s.accepted, m.msgKey ≠ msg.msgKey))
  | .loadOfflineMessage jid _ => inferInstanceAs (Decidable (isClient jid = true ∨
      ∀ e ∈ (s.held poolSize jid.userId).entries, xml.hasBody e.2.msg = false))
  | .select i now => inferInstanceAs (Decidable
      (∀ l ∈ s.loads[i]?, l.rows = none → s.Readable l.jid now))
  | .runSql i => inferInstanceAs (Decidable (∀ sql ∈ s.scheduled[i]?, s.Deletable sql))
  | .send .. | .handle | .collect .. | .store .. | .deliver .. => inferInstanceAs (Decidable True)

/-- **The step lemma.** -/
theorem kept_step (s : Holder) (op : HolderOp) (h : Kept poolSize xml s)
    (hop : op.Fits poolSize xml s) : Kept poolSize xml (op.step poolSize xml s) := by
  cases op with
  | message now msg => exact kept_message h now hop
  | send userId msgKey => exact kept_send h userId msgKey
  | handle => exact kept_handle h
  | collect i now => exact kept_collect h i now
  | store i clock => exact kept_store h i clock
  | loadOfflineMessage jid now => exact kept_load h now hop
  | select i now => exact kept_select h i now hop
  | deliver i => exact kept_deliver h i
  | runSql i => exact kept_runSql h i hop

/-- Nothing is under way, and every statement has run. -/
def Holder.Quiet (s : Holder) : Prop := s.handles = [] ∧ s.loads = [] ∧ s.scheduled = []

instance (s : Holder) : Decidable s.Quiet := inferInstanceAs (Decidable (_ ∧ _ ∧ _))

/-- **After every run whose operations fit, when nothing is under way, a message with a body
that was accepted has its receipt, is held, is stored, or was delivered by a load, or a client's
load found it too old.** -/
theorem no_message_lost (poolSize : ℕ) (xml : Xml) (ops : List HolderOp)
    (h : StepsMeet (HolderOp.step poolSize xml) (HolderOp.Fits poolSize xml) .new ops) :
    let s := runOps (HolderOp.step poolSize xml) .new ops
    s.Quiet → ∀ m ∈ s.accepted, xml.hasBody m.msg = true →
      m.msgKey ∈ s.receipts ∨ (s.held poolSize m.toJid.userId).find m.msgKey = some m ∨
        Stored xml s m ∨ (∃ e ∈ s.handed, e.1 = m.msgKey) ∨ m.msgKey ∈ s.expired := by
  intro s hquiet m hm hbody
  have hkept : Kept poolSize xml s := run_invariant kept_step kept_new h
  obtain ⟨hhandles, hloads, -⟩ := hquiet
  cases hkept.placed m hm hbody with
  | receipt hr => exact .inl hr
  | held hfind => exact .inr (.inl hfind)
  | collected g hg _ =>
      rw [hhandles] at hg
      cases hg
  | stored hs => exact .inr (.inr (.inl hs))
  | given hg =>
      rcases hg with hhanded | hexpired | ⟨l, hl, -⟩
      · exact .inr (.inr (.inr (.inl hhanded)))
      · exact .inr (.inr (.inr (.inr hexpired)))
      · rw [hloads] at hl
        cases hl

/-! ## Sample runs -/

/-- Every text that is not empty has a body, and is stored as it is. -/
def plain : Xml := ⟨fun text => text ≠ "", fun text _ _ => text⟩

def sampleMessage (msgKey : ℤ) : Message := ⟨⟨3, "T1", 0⟩, ⟨7, "T2", -1⟩, "hello", 2, msgKey⟩

/-- The first message is stored before a client's load, the second is held then, the third comes
after it. -/
def loaded : List HolderOp :=
  [.message 0 (sampleMessage 1), .handle, .collect 0 20, .store 0 fun _ => 20,
    .message 21 (sampleMessage 2), .loadOfflineMessage ⟨7, "T2", 5⟩ 30, .select 0 30, .deliver 0,
    .runSql 0, .message 31 (sampleMessage 3)]

/-- Another endpoint loads what is held. -/
def loadedByWeb : List HolderOp :=
  [.message 0 (sampleMessage 1), .loadOfflineMessage ⟨7, "web", 5⟩ 5, .select 0 5, .deliver 0]

/-- A second row comes after a load has read the first. -/
def storedLate : List HolderOp :=
  [.message 0 (sampleMessage 1), .handle, .collect 0 20, .store 0 fun _ => 20,
    .message 21 (sampleMessage 2), .handle, .collect 0 40, .loadOfflineMessage ⟨7, "T2", 5⟩ 41,
    .select 0 41, .deliver 0, .store 0 fun _ => 41, .runSql 0]

/-- A row is stored between a load's reading of the clock and of the table. -/
def storedYoung : List HolderOp :=
  [.message 0 (sampleMessage 1), .handle, .collect 0 20, .loadOfflineMessage ⟨7, "T2", 5⟩ 20,
    .store 0 fun _ => 21, .select 0 20, .deliver 0, .runSql 0]

theorem no_message_lost_loaded :
    let s := runOps (HolderOp.step 1 plain) .new loaded
    ∀ m ∈ s.accepted, plain.hasBody m.msg = true →
      m.msgKey ∈ s.receipts ∨ (s.held 1 m.toJid.userId).find m.msgKey = some m ∨
        Stored plain s m ∨ (∃ e ∈ s.handed, e.1 = m.msgKey) ∨ m.msgKey ∈ s.expired :=
  no_message_lost 1 plain loaded (by decide) (by decide)

/-- There is a message with a body that is nowhere, and had no receipt. -/
def Loses (s : Holder) : Prop :=
  s.Quiet ∧ ∃ m ∈ s.accepted, plain.hasBody m.msg = true ∧ m.msgKey ∉ s.receipts ∧
    (s.held 1 m.toJid.userId).find m.msgKey = none ∧ (∀ row ∈ s.table, row.id ≠ m.msgKey) ∧
    (∀ e ∈ s.handed, e.1 ≠ m.msgKey) ∧ m.msgKey ∉ s.expired

theorem messages_are_lost :
    Loses (runOps (HolderOp.step 1 plain) .new loadedByWeb) ∧
      Loses (runOps (HolderOp.step 1 plain) .new storedLate) ∧
      Loses (runOps (HolderOp.step 1 plain) .new storedYoung) := by
  unfold Loses
  decide

end Oce.MessageHolder
