import Mathlib.Data.List.Flatten
import Mathlib.Data.List.Nodup
import Mathlib.Logic.Function.Iterate
import Oce.FeedDB.Analysis.MasterAllocation
import Oce.FeedDB.Model.Delivery

/-!
# What becomes of the messages of the master

A call of `putBatch` cuts what it was given into messages, so their blocks are a permutation of what
it was given (`Batched`); a failed message is at one place at a time, so the places together are
a permutation of what has failed (`Retries`). Both are kept by each event. Only one thing can
end it: a message that fails when the timer sends it again, for then the timer waits for the mutex
that it holds.
-/

set_option autoImplicit false

namespace Oce.FeedDB

open Oce.Base

variable {blk : BlockInfo} {blks : List BlockInfo} {msg : Message} {c : PutBatch} {user : ℤ × ℤ}
  {users : List (ℤ × ℤ)} {i : ℕ} {s : Sender} {msgs : List Message} {succeeds : Bool}
  {op : MasterOp} {e : SendEvent}

/-! ## Messages -/

/-- The sequences are good messages for the server. -/
def Fits (server : ℤ) (seq : List BlockInfo) : Prop :=
  seq ≠ [] ∧ seq.length ≤ maxMsgSize ∧ ∀ b ∈ seq, b.serverId = server

theorem fits_putInto {p : Bool × List BlockInfo} (hlen : p.2.length < maxMsgSize)
    (hp : ∀ b ∈ p.2, b.serverId = blk.serverId) : Fits blk.serverId (putInto blk p).2 := by
  refine ⟨List.append_ne_nil_of_right_ne_nil _ (List.cons_ne_nil _ _), ?_, fun b hb => ?_⟩
  · show (p.2 ++ [blk]).length ≤ maxMsgSize
    rw [List.length_append, List.length_singleton]
    omega
  · rcases List.mem_append.mp hb with hb | hb
    · exact hp b hb
    · rw [List.mem_singleton.mp hb]

/-- A block is put at the end of what there is for its server, and no sequence gets too long. -/
theorem addToSeqs_spec (blk : BlockInfo) {seqs : List (Bool × List BlockInfo)}
    (h : ∀ p ∈ seqs, Fits blk.serverId p.2) :
    (addToSeqs blk seqs).flatMap Prod.snd = seqs.flatMap Prod.snd ++ [blk] ∧
      ∀ p ∈ addToSeqs blk seqs, Fits blk.serverId p.2 := by
  have hnew : Fits blk.serverId (putInto blk (false, [])).2 :=
    fits_putInto (by decide) fun _ hb => nomatch hb
  unfold addToSeqs
  cases hlast : seqs.getLast? with
  | none =>
      rw [List.getLast?_eq_none_iff.mp hlast]
      refine ⟨rfl, fun p hp => ?_⟩
      rw [List.mem_singleton.mp hp]
      exact hnew
  | some last =>
      have hsplit : seqs.dropLast ++ [last] = seqs := List.dropLast_append_getLast? last hlast
      dsimp only
      by_cases hfull : maxMsgSize ≤ last.2.length
      · rw [if_pos hfull, List.flatMap_append]
        refine ⟨rfl, fun p hp => ?_⟩
        rcases List.mem_append.mp hp with hp | hp
        · exact h p hp
        · rw [List.mem_singleton.mp hp]
          exact hnew
      · rw [if_neg hfull]
        constructor
        · conv_rhs => rw [← hsplit]
          rw [List.flatMap_append, List.flatMap_append, List.append_assoc]
          refine congrArg _ ?_
          rw [List.flatMap_singleton, List.flatMap_singleton]
          rfl
        · intro p hp
          rcases List.mem_append.mp hp with hp | hp
          · exact h p (List.dropLast_subset _ hp)
          · rw [List.mem_singleton.mp hp]
            exact fits_putInto (Nat.lt_of_not_le hfull) (h last (List.mem_of_getLast? hlast)).2.2

/-- The map has the blocks, cut into messages. -/
structure Batched (m : BlkInfoMap) (blks : List BlockInfo) : Prop where
  perm : (m.entries.flatMap fun e => e.2.flatMap Prod.snd).Perm blks
  fits : ∀ e ∈ m.entries, ∀ p ∈ e.2, Fits e.1 p.2

theorem batched_empty : Batched .empty [] := ⟨List.Perm.refl _, fun _ he => nomatch he⟩

/-- **A block more.** -/
theorem Batched.add {m : BlkInfoMap} (h : Batched m blks) (blk : BlockInfo) :
    Batched (m.add blk) (blks ++ [blk]) := by
  set server := blk.serverId with hserver
  have hold : ∀ p ∈ (m.find server).getD [], Fits server p.2 := by
    cases hf : m.find server with
    | none => exact fun _ hp => nomatch hp
    | some seqs => exact h.fits _ ((m.mem_entries_iff).mpr hf)
  obtain ⟨hflat, hfits⟩ := addToSeqs_spec blk hold
  have hperm : (((m.find server).getD []).flatMap Prod.snd ++
      (m.erase server).entries.flatMap fun e => e.2.flatMap Prod.snd).Perm blks := by
    refine List.Perm.trans ?_ h.perm
    cases hf : m.find server with
    | some seqs =>
        have hsplit := (OrdMap.entries_perm_of_find hf).flatMap_right fun e => e.2.flatMap Prod.snd
        rw [List.flatMap_cons] at hsplit
        exact hsplit.symm
    | none =>
        have herase : (m.erase server).entries = m.entries := by
          refine List.filter_eq_self.mpr fun e he => decide_eq_true ?_
          intro hkey
          have hfind := (m.mem_entries_iff).mp he
          rw [hkey, hf] at hfind
          cases hfind
        rw [herase]
        exact List.Perm.refl _
  refine ⟨?_, fun e he => ?_⟩
  · refine ((m.entries_insert_perm server _).flatMap_right _).trans ?_
    rw [List.flatMap_cons, hflat, List.append_assoc]
    refine List.Perm.trans ?_ (hperm.append_right [blk])
    rw [List.append_assoc]
    exact List.perm_append_comm.append_left _
  · rcases OrdMap.mem_of_mem_insertEntry he with rfl | he
    · exact hfits
    · exact h.fits e he

theorem flatMap_messages (m : BlkInfoMap) (feed : FeedItem) :
    (m.messages feed).flatMap Message.seq = m.entries.flatMap fun e => e.2.flatMap Prod.snd := by
  unfold BlkInfoMap.messages
  rw [List.flatMap_assoc]
  refine congrFun (congrArg _ (funext fun e => ?_)) _
  rw [List.flatMap_map]

/-- A message goes to its own server and fits. -/
theorem mem_messages {m : BlkInfoMap} (h : Batched m blks) {feed : FeedItem}
    (hmsg : msg ∈ m.messages feed) :
    msg.feed = feed ∧ msg.dest = some msg.server ∧ Fits msg.server msg.seq := by
  obtain ⟨e, he, hmem⟩ := List.mem_flatMap.mp hmsg
  obtain ⟨p, hp, rfl⟩ := List.mem_map.mp hmem
  have hfits := h.fits e he p hp
  refine ⟨rfl, ?_, hfits⟩
  unfold Message.dest
  dsimp only
  cases hseq : p.2 with
  | nil => exact absurd hseq hfits.1
  | cons b seq =>
      have hb := hfits.2.2 b (by rw [hseq]; exact List.mem_cons_self)
      rw [List.head?_cons, Option.map_some, hb]

/-! ## The blocks that a call gets -/

namespace DataNodeManager

variable (m : DataNodeManager) (u : ℤ)

/-- The server on which the user's block for one more feed is looked for is in the table. -/
def Sited : Prop :=
  match m.hashDB.get u with
  | some blk => blk.curCount < recordPerBlock ∨ (m.dataNodes.find blk.serverId).isSome
  | none => m.dataNodes.entries = [] ∨ m.nextNode < 0 ∨ (m.dataNodes.find m.nextNode).isSome

instance : Decidable (m.Sited u) := by
  unfold Sited
  split <;> infer_instance

variable {m u}

/-- **A user whose server is in the table is answered, with a block of its own or with none.** -/
theorem get_of_sited (hdef : (MasterOp.getBlock u true).Defined m) (hsited : m.Sited u) :
    ∃ reply m', m.get u true = some (reply, m') ∧
      (reply = .null ∨ ∃ info, reply = .block info ∧ info.userId = u) := by
  obtain ⟨hmutex, hdef⟩ := hdef
  unfold get
  rw [if_neg (not_not_intro hmutex)]
  by_cases hu : u = 0
  · rw [if_pos hu]
    exact ⟨_, _, rfl, .inl rfl⟩
  rw [if_neg hu]
  obtain ⟨hfirst, hnext⟩ := hdef hu rfl
  unfold Sited at hsited
  cases hold : m.hashDB.get u with
  | none =>
      rw [hold] at hsited
      have hsited : m.dataNodes.entries = [] ∨ m.nextNode < 0 ∨
          (m.dataNodes.find m.nextNode).isSome := hsited
      dsimp only
      rw [if_pos rfl]
      unfold getFirst
      rcases allocFreeBlock_cases (hfirst hold) with ⟨n, c, he⟩ | ⟨hgoes, hnone, -⟩ |
        ⟨n, c, node, node', blk, -, -, he⟩
      · rw [he]
        exact ⟨_, _, rfl, .inl rfl⟩
      · rw [← or_assoc, or_iff_right hgoes, hnone] at hsited
        cases hsited
      · rw [he]
        exact ⟨_, _, rfl, .inr ⟨_, rfl, rfl⟩⟩
  | some blkOld =>
      rw [hold] at hsited
      have hsited : blkOld.curCount < recordPerBlock ∨
          (m.dataNodes.find blkOld.serverId).isSome := hsited
      obtain ⟨htotal, hcan⟩ := hnext blkOld hold
      dsimp only
      rw [if_pos rfl]
      by_cases hroom : blkOld.curCount < recordPerBlock
      · simp only [hroom, countOne, htotal, if_true]
        exact ⟨_, _, rfl, .inr ⟨_, rfl, rfl⟩⟩
      · rw [if_neg hroom]
        unfold getNext allocFreeBlockInNode
        rcases alloc_cases (hcan.resolve_left hroom) with ⟨hnone, -⟩ | ⟨node, node', blk, -, -, ha⟩
        · rw [or_iff_right hroom, hnone] at hsited
          cases hsited
        · rw [ha]
          simp only [countOne, htotal, if_true]
          exact ⟨_, _, rfl, .inr ⟨_, rfl, rfl⟩⟩

end DataNodeManager

/-! ## One call -/

/-- The messages that are still to be sent. -/
def Stage.left : Stage → List Message
  | .sending msgs => msgs
  | .pushing _ msgs => msgs
  | _ => []

/-- The message that is on its way into the list of the timer. -/
def Stage.inHand : Stage → List Message
  | .pushing msg _ => [msg]
  | _ => []

/-- The user for whom the call asks for a block next. -/
def Stage.asks : Stage → Option ℤ
  | .collecting (user :: _) _ => if user.1 = 0 then none else some user.1
  | _ => none

/-- The call is in its first loop. -/
def Stage.Collects : Stage → Prop
  | .collecting _ _ => True
  | _ => False

/-- Every block that the call was given is in one of its messages, once; a message fits its server
and is sent once. -/
structure Accounted (c : PutBatch) : Prop where
  users : (c.obtained.map BlockInfo.userId).Nodup
  weights : ∀ b ∈ c.obtained, b.userId ≠ 0 ∧ c.usersWeight.find b.userId = some b.weight
  whole : ¬c.stage.Collects → (c.messages.flatMap Message.seq).Perm c.obtained
  fits : ∀ msg ∈ c.messages,
    msg.feed = c.feed ∧ msg.dest = some msg.server ∧ Fits msg.server msg.seq
  once : c.sent ++ c.stage.left = c.messages

/-- What the first loop has done. -/
structure Collected (c : PutBatch) (users : List (ℤ × ℤ)) (m : BlkInfoMap) : Prop where
  batched : Batched m c.obtained
  messages : c.messages = []
  rest : ∃ done, c.usersWeight.entries = done ++ users ∧
    ∀ b ∈ c.obtained, b.userId ∈ done.map Prod.fst

structure CallInv (c : PutBatch) : Prop where
  accounted : Accounted c
  collected : ∀ users m, c.stage = .collecting users m → Collected c users m

theorem callInv_new (feed : FeedItem) (usersWeight : OrdMap ℤ ℤ) : CallInv (.new feed usersWeight) := by
  refine ⟨⟨List.nodup_nil, ?_, fun h => absurd trivial h, ?_, rfl⟩, fun users m h => ?_⟩
  · exact fun _ hb => absurd hb List.not_mem_nil
  · exact fun _ hm => absurd hm List.not_mem_nil
  · cases h
    exact ⟨batched_empty, rfl, [], rfl, fun _ hb => absurd hb List.not_mem_nil⟩

/-- The first loop passes a user over. -/
theorem CallInv.skip (h : CallInv c) {m : BlkInfoMap}
    (hc : c.stage = .collecting (user :: users) m) :
    CallInv { c with stage := .collecting users m } := by
  have ha := h.accounted
  obtain ⟨hbatched, hmessages, done, hdone, hmem⟩ := h.collected _ _ hc
  have honce := ha.once
  rw [hc] at honce
  refine ⟨⟨ha.users, ha.weights, fun hn => absurd trivial hn, ha.fits, honce⟩, fun users' m' he => ?_⟩
  cases he
  refine ⟨hbatched, hmessages, done ++ [user], ?_, fun b hb => ?_⟩
  · rw [hdone, List.append_assoc]
    rfl
  · rw [List.map_append]
    exact List.mem_append_left _ (hmem b hb)

/-- **The first loop gets a block for its next user.** -/
theorem CallInv.obtain (h : CallInv c) {m : BlkInfoMap}
    (hc : c.stage = .collecting (user :: users) m) (hu : user.1 ≠ 0) (hblk : blk.userId = user.1)
    (hweight : blk.weight = user.2) :
    CallInv { c with stage := .collecting users (m.add blk), obtained := c.obtained ++ [blk] } := by
  have ha := h.accounted
  obtain ⟨hbatched, hmessages, done, hdone, hmem⟩ := h.collected _ _ hc
  have hnodup : ((done ++ user :: users).map Prod.fst).Nodup := by
    rw [← hdone]
    exact c.usersWeight.sorted.imp fun hlt => ne_of_lt hlt
  have hnew : user.1 ∉ done.map Prod.fst := by
    rw [List.map_append, List.map_cons] at hnodup
    intro hin
    exact (List.nodup_append.mp hnodup).2.2 _ hin _ List.mem_cons_self rfl
  have hfind : c.usersWeight.find user.1 = some user.2 := by
    refine (c.usersWeight.mem_entries_iff).mp ?_
    rw [hdone]
    exact List.mem_append_right _ List.mem_cons_self
  have honce := ha.once
  rw [hc] at honce
  refine ⟨⟨?_, fun b hb => ?_, fun hn => absurd trivial hn, ha.fits, honce⟩, fun users' m' he => ?_⟩
  · rw [List.map_append, List.map_singleton]
    refine List.nodup_append.mpr ⟨ha.users, List.nodup_singleton _, fun a ha' b hb hab => ?_⟩
    obtain ⟨b', hb', rfl⟩ := List.mem_map.mp ha'
    rw [List.mem_singleton.mp hb, hblk] at hab
    exact hnew (hab ▸ hmem b' hb')
  · rcases List.mem_append.mp hb with hb | hb
    · exact ha.weights b hb
    · rw [List.mem_singleton.mp hb, hblk, hweight]
      exact ⟨hu, hfind⟩
  · cases he
    refine ⟨hbatched.add blk, hmessages, done ++ [user], ?_, fun b hb => ?_⟩
    · rw [hdone, List.append_assoc]
      rfl
    · rw [List.map_append]
      rcases List.mem_append.mp hb with hb | hb
      · exact List.mem_append_left _ (hmem b hb)
      · rw [List.mem_singleton.mp hb, hblk]
        exact List.mem_append_right _ List.mem_cons_self

/-- **The first loop ends, and the messages are made.** -/
theorem CallInv.made (h : CallInv c) {m : BlkInfoMap} (hc : c.stage = .collecting [] m) :
    CallInv { c with stage := .sending (m.messages c.feed), messages := m.messages c.feed } := by
  have ha := h.accounted
  have hcol := h.collected _ _ hc
  have honce := ha.once
  rw [hc, hcol.messages] at honce
  refine ⟨⟨ha.users, ha.weights, fun _ => ?_, fun msg hmsg => mem_messages hcol.batched hmsg, ?_⟩, nofun⟩
  · show ((m.messages c.feed).flatMap Message.seq).Perm c.obtained
    rw [flatMap_messages]
    exact hcol.batched.perm
  · show c.sent ++ m.messages c.feed = m.messages c.feed
    rw [(List.append_eq_nil_iff.mp honce).1]
    rfl

/-- The second loop goes on: what is left and what was sent are together the same. -/
theorem CallInv.go (h : CallInv c) (hc : ¬c.stage.Collects) {stage : Stage}
    (hstage : ¬stage.Collects) {sent : List Message}
    (honce : sent ++ stage.left = c.sent ++ c.stage.left) :
    CallInv { c with stage := stage, sent := sent } := by
  have ha := h.accounted
  refine ⟨⟨ha.users, ha.weights, fun _ => ha.whole hc, ha.fits, honce.trans ha.once⟩, ?_⟩
  rintro users m rfl
  exact absurd trivial hstage

/-! ## The events -/

/-- The message that `handle` has taken from the list. -/
def Handle.inHand : Handle → List Message
  | .resending msg => [msg]
  | .waiting msg => [msg]
  | _ => []

namespace Sender

/-- A failed message is delivered by the timer, in its list or in its hand, refused by the list, or on
its way there. -/
def Retries (s : Sender) : Prop :=
  (s.resent ++ s.timer.feeds ++ s.handle.inHand ++ s.refused.map Prod.fst ++
    s.calls.flatMap fun c => c.stage.inHand).Perm s.failed

structure Sound (s : Sender) : Prop where
  calls : ∀ c ∈ s.calls, CallInv c
  retries : Retries s
  unlocked : s.timer.locked = false
  handle : ∀ msg, s.handle ≠ .waiting msg
  cap : s.timer.feeds.length ≤ 500001
  refused : ∀ r ∈ s.refused, 500000 < r.2

theorem sound_start (m : DataNodeManager) : Sound (start m) where
  calls _ hc := absurd hc List.not_mem_nil
  retries := List.Perm.refl _
  unlocked := rfl
  handle _ := nofun
  cap := Nat.zero_le _
  refused _ hr := absurd hr List.not_mem_nil

/-- What must hold of an event: a call asks for a block only for a user whose server is in the table,
no message fails that the timer sends again, and what the master does is defined. -/
def Fine (s : Sender) : SendEvent → Prop
  | .op op => op.Defined s.manager
  | .put _ _ => True
  | .next i _ => ∀ u ∈ s.calls[i]?.bind fun c => c.stage.asks,
      (MasterOp.getBlock u true).Defined s.manager ∧ s.manager.Sited u
  | .handle succeeds => ∀ msg, s.handle = .resending msg → succeeds = true

instance (s : Sender) : (e : SendEvent) → Decidable (s.Fine e)
  | .op op => inferInstanceAs (Decidable (op.Defined s.manager))
  | .put _ _ => .isTrue trivial
  | .next _ _ => by unfold Fine; infer_instance
  | .handle succeeds =>
    match hs : s.handle with
    | .resending msg => decidable_of_iff (succeeds = true) (by simp [Fine, hs])
    | .idle | .looping | .waiting _ => .isTrue (by simp [Fine, hs])

theorem count_set {calls : List PutBatch} (h : calls[i]? = some c) (c' : PutBatch) (x : Message) :
    ((calls.set i c').flatMap fun c => c.stage.inHand).count x + c.stage.inHand.count x =
      (calls.flatMap fun c => c.stage.inHand).count x + c'.stage.inHand.count x := by
  induction calls generalizing i with
  | nil => cases h
  | cons d calls ih =>
      cases i with
      | zero =>
          cases h
          rw [List.set_cons_zero, List.flatMap_cons, List.flatMap_cons, List.count_append,
            List.count_append]
          omega
      | succ i =>
          have hrest := ih h
          rw [List.set_cons_succ, List.flatMap_cons, List.flatMap_cons, List.count_append,
            List.count_append]
          omega

/-- How often a message is at one of the places, its calls apart. -/
def places (s : Sender) (x : Message) : ℕ :=
  s.resent.count x + s.timer.feeds.count x + s.handle.inHand.count x + (s.refused.map Prod.fst).count x

theorem retries_iff :
    Retries s ↔ ∀ x, s.places x + (s.calls.flatMap fun c => c.stage.inHand).count x = s.failed.count x := by
  unfold Retries
  rw [List.perm_iff_count]
  refine forall_congr' fun x => ?_
  rw [List.count_append, List.count_append, List.count_append, List.count_append]
  rfl

/-- What a step of a call leaves. -/
structure Stepped (s : Sender) (c : PutBatch) (r : Sender × PutBatch) : Prop where
  call : CallInv r.2
  calls : r.1.calls = s.calls
  handle : r.1.handle = s.handle
  unlocked : r.1.timer.locked = false
  cap : r.1.timer.feeds.length ≤ 500001
  refused : ∀ p ∈ r.1.refused, 500000 < p.2
  count : ∀ x, r.1.places x + r.2.stage.inHand.count x + s.failed.count x =
    s.places x + c.stage.inHand.count x + r.1.failed.count x

/-- A step that changes neither a failed message nor the list. -/
theorem Sound.stepped (h : Sound s) {m : DataNodeManager} {c' : PutBatch} (hcall : CallInv c')
    (hhand : c'.stage.inHand = c.stage.inHand) : Stepped s c ({ s with manager := m }, c') :=
  ⟨hcall, rfl, rfl, h.unlocked, h.cap, h.refused, fun x => by rw [hhand]; rfl⟩

/-- The master's answer for a user. -/
theorem Sound.stepAnswered (h : Sound s) (hc : CallInv c) {m : BlkInfoMap}
    (hstage : c.stage = .collecting (user :: users) m) (hu : user.1 ≠ 0) {reply : Reply}
    (hreply : reply = .null ∨ ∃ info, reply = .block info ∧ info.userId = user.1)
    (manager : DataNodeManager) :
    Stepped s c ({ s with manager := manager }, answered c user users m reply) := by
  rcases hreply with rfl | ⟨info, rfl, hown⟩
  · refine h.stepped (hc.skip hstage) ?_
    rw [hstage]
    rfl
  · refine h.stepped (hc.obtain hstage hu hown rfl) ?_
    rw [hstage]
    rfl

/-- A call that is collecting asks for the block of a user, or has its messages. -/
theorem Sound.stepCollecting (h : Sound s) (hc : CallInv c) (succeeds : Bool)
    (hsited : ∀ u ∈ c.stage.asks,
      (MasterOp.getBlock u true).Defined s.manager ∧ s.manager.Sited u) {m : BlkInfoMap}
    (hstage : c.stage = .collecting users m) : ∃ r ∈ s.stepCall c succeeds, Stepped s c r := by
  unfold Sender.stepCall
  rw [hstage]
  dsimp only
  unfold collect
  cases users with
  | nil =>
      refine ⟨_, rfl, h.stepped (hc.made hstage) ?_⟩
      rw [hstage]
      rfl
  | cons user users =>
      dsimp only
      by_cases hu : user.1 = 0
      · rw [if_pos hu]
        refine ⟨_, rfl, h.stepped (hc.skip hstage) ?_⟩
        rw [hstage]
        rfl
      · rw [if_neg hu]
        have hasks : user.1 ∈ c.stage.asks := by
          rw [hstage]
          exact if_neg hu
        obtain ⟨hdef, hgot⟩ := hsited user.1 hasks
        obtain ⟨reply, manager, hget, hreply⟩ := DataNodeManager.get_of_sited hdef hgot
        rw [hget]
        exact ⟨_, rfl, h.stepAnswered hc hstage hu hreply manager⟩

/-- A call that is sending sends a message, which may fail. -/
theorem Sound.stepSending (h : Sound s) (hc : CallInv c) (succeeds : Bool)
    (hstage : c.stage = .sending msgs) : ∃ r ∈ s.stepCall c succeeds, Stepped s c r := by
  unfold Sender.stepCall
  rw [hstage]
  have hnot : ¬c.stage.Collects := by
    rw [hstage]
    exact id
  cases msgs with
  | nil =>
      refine ⟨_, rfl, h.stepped hc ?_⟩
      rw [hstage]
  | cons msg msgs =>
      have honce : (c.sent ++ [msg]) ++ msgs = c.sent ++ c.stage.left := by
        rw [hstage, List.append_assoc]
        rfl
      dsimp only
      cases succeeds with
      | true =>
          rw [if_pos rfl]
          refine ⟨_, rfl, h.stepped (hc.go hnot id honce) ?_⟩
          rw [hstage]
          rfl
      | false =>
          rw [if_neg Bool.false_ne_true]
          refine ⟨_, rfl, hc.go hnot id honce, rfl, rfl, h.unlocked, h.cap, h.refused, fun x => ?_⟩
          show s.places x + [msg].count x + _ = s.places x + _ + (s.failed ++ [msg]).count x
          rw [List.count_append, hstage]
          show _ = s.places x + [].count x + _
          rw [List.count_nil]
          omega

/-- A failed message goes into the list of the timer, or is refused. -/
theorem Sound.stepPushing (h : Sound s) (hc : CallInv c) (succeeds : Bool)
    (hstage : c.stage = .pushing msg msgs) : ∃ r ∈ s.stepCall c succeeds, Stepped s c r := by
  unfold Sender.stepCall
  rw [hstage]
  have hnot : ¬c.stage.Collects := by
    rw [hstage]
    exact id
  have honce : c.sent ++ msgs = c.sent ++ c.stage.left := by
    rw [hstage]
    rfl
  dsimp only
  unfold RetryTimer.push
  rw [h.unlocked, if_neg Bool.false_ne_true]
  by_cases hfull : 500000 < s.timer.feeds.length
  · rw [if_pos hfull]
    dsimp only
    rw [if_pos hfull]
    refine ⟨_, rfl, hc.go hnot id honce, rfl, rfl, h.unlocked, h.cap, fun r hr => ?_, fun x => ?_⟩
    · rcases List.mem_append.mp hr with hr | hr
      · exact h.refused r hr
      · rw [List.mem_singleton.mp hr]
        exact hfull
    · rw [hstage]
      unfold places
      dsimp only
      rw [List.map_append, List.count_append]
      show _ + ((s.refused.map Prod.fst).count x + [msg].count x) + [].count x + _ = _ + [msg].count x + _
      rw [List.count_nil]
      omega
  · rw [if_neg hfull]
    dsimp only
    rw [if_neg hfull]
    refine ⟨_, rfl, hc.go hnot id honce, rfl, rfl, rfl, ?_, h.refused, fun x => ?_⟩
    · show (s.timer.feeds ++ [msg]).length ≤ 500001
      rw [List.length_append, List.length_singleton]
      omega
    · rw [hstage]
      unfold places
      dsimp only
      rw [List.count_append]
      show _ + [].count x + _ = _ + [msg].count x + _
      rw [List.count_nil]
      omega

/-- **One step of a call.** -/
theorem Sound.stepCall (h : Sound s) (hc : CallInv c) (succeeds : Bool)
    (hsited : ∀ u ∈ c.stage.asks,
      (MasterOp.getBlock u true).Defined s.manager ∧ s.manager.Sited u) :
    ∃ r ∈ s.stepCall c succeeds, Stepped s c r := by
  cases hstage : c.stage with
  | thrown =>
      unfold Sender.stepCall
      rw [hstage]
      refine ⟨_, rfl, h.stepped hc ?_⟩
      rw [hstage]
  | collecting users m => exact h.stepCollecting hc succeeds hsited hstage
  | sending msgs => exact h.stepSending hc succeeds hstage
  | pushing msg msgs => exact h.stepPushing hc succeeds hstage

/-- What `handle` does when the message that it sends again does not fail. -/
theorem Sound.stepHandle (h : Sound s)
    (hfine : ∀ msg, s.handle = .resending msg → succeeds = true) : Sound (s.stepHandle succeeds) := by
  have hcount := retries_iff.mp h.retries
  unfold Sender.stepHandle
  cases hhandle : s.handle with
  | idle =>
      dsimp only
      by_cases hnil : s.timer.feeds = []
      · rw [if_pos hnil]
        exact h
      · rw [if_neg hnil]
        refine ⟨h.calls, retries_iff.mpr fun x => ?_, h.unlocked, fun _ => nofun, h.cap, h.refused⟩
        rw [← hcount x]
        unfold places
        rw [hhandle]
        rfl
  | looping =>
      dsimp only
      cases hfeeds : s.timer.feeds with
      | nil =>
          refine ⟨h.calls, retries_iff.mpr fun x => ?_, h.unlocked, fun _ => nofun, h.cap, h.refused⟩
          rw [← hcount x]
          unfold places
          rw [hhandle]
          rfl
      | cons msg feeds =>
          have hcap := h.cap
          rw [hfeeds, List.length_cons] at hcap
          refine ⟨h.calls, retries_iff.mpr fun x => ?_, h.unlocked, fun _ => nofun, by
            dsimp only
            omega, h.refused⟩
          rw [← hcount x]
          unfold places
          rw [hhandle, hfeeds]
          dsimp only [Handle.inHand]
          simp only [List.count_cons, List.count_nil]
          omega
  | resending msg =>
      rw [hfine msg hhandle]
      dsimp only
      rw [if_pos rfl]
      refine ⟨h.calls, retries_iff.mpr fun x => ?_, h.unlocked, fun _ => nofun, h.cap, h.refused⟩
      rw [← hcount x]
      unfold places
      rw [hhandle]
      dsimp only [Handle.inHand]
      rw [List.count_append, List.count_nil]
      omega
  | waiting msg => exact absurd hhandle (h.handle msg)

/-- The calls and the timer do not see what the master does. -/
theorem Sound.setManager (h : Sound s) (manager : DataNodeManager) :
    Sound { s with manager := manager } :=
  ⟨h.calls, h.retries, h.unlocked, h.handle, h.cap, h.refused⟩

/-- An operation of the running master. -/
theorem event_op_eq (hop : ∀ cluster curNode curCount, op ≠ .restart cluster curNode curCount) :
    s.event (.op op) = (op.step s.manager).map fun r => { s with manager := r.2 } := by
  cases op with
  | restart cluster curNode curCount => exact absurd rfl (hop cluster curNode curCount)
  | _ => rfl

/-- An operation of the master, its restart included. -/
theorem Sound.event_op (h : Sound s) (hdef : op.Defined s.manager) :
    ∃ t ∈ s.event (.op op), Sound t := by
  by_cases hop : ∃ cluster curNode curCount, op = .restart cluster curNode curCount
  · obtain ⟨cluster, curNode, curCount, rfl⟩ := hop
    obtain ⟨manager, hinit⟩ := init_of_defined hdef
    exact ⟨start manager, Option.map_eq_some_iff.mpr ⟨manager, hinit, rfl⟩, sound_start manager⟩
  · obtain ⟨reply, manager, hstep, -⟩ := goes_step hdef
    rw [event_op_eq fun cluster curNode curCount h => hop ⟨cluster, curNode, curCount, h⟩, hstep]
    exact ⟨_, rfl, h.setManager manager⟩

/-- A step of one of the calls. -/
theorem Sound.next (h : Sound s) (hfine : s.Fine (.next i succeeds)) :
    ∃ t ∈ s.next i succeeds, Sound t := by
  unfold Sender.next
  cases hi : s.calls[i]? with
  | none => exact ⟨s, rfl, h⟩
  | some c =>
      have hc := h.calls c (List.mem_of_getElem? hi)
      have hsited : ∀ u ∈ c.stage.asks,
          (MasterOp.getBlock u true).Defined s.manager ∧ s.manager.Sited u := by
        intro u hu
        refine hfine u ?_
        rw [hi]
        exact hu
      obtain ⟨r, hr, hstep⟩ := h.stepCall hc succeeds hsited
      refine ⟨_, Option.map_eq_some_iff.mpr ⟨r, hr, rfl⟩, ?_⟩
      refine ⟨fun d hd => ?_, retries_iff.mpr fun x => ?_, hstep.unlocked, ?_, hstep.cap, hstep.refused⟩
      · dsimp only at hd
        rw [hstep.calls] at hd
        rcases List.mem_or_eq_of_mem_set hd with hd | rfl
        · exact h.calls d hd
        · exact hstep.call
      · have hcount := retries_iff.mp h.retries x
        have hset := count_set hi r.2 x
        have hplaces := hstep.count x
        show r.1.places x + _ = _
        dsimp only
        rw [hstep.calls]
        omega
      · intro msg
        show r.1.handle ≠ _
        rw [hstep.handle]
        exact h.handle msg

/-- **An event that is fine has a result, and keeps all.** -/
theorem Sound.event (h : Sound s) (he : Fine s e) : ∃ t ∈ s.event e, Sound t := by
  cases e with
  | op op => exact h.event_op he
  | put feed usersWeight =>
      refine ⟨_, rfl, fun c hc => ?_, ?_, h.unlocked, h.handle, h.cap, h.refused⟩
      · rcases List.mem_append.mp hc with hc | hc
        · exact h.calls c hc
        · rw [List.mem_singleton.mp hc]
          exact callInv_new feed usersWeight
      · unfold Retries
        show (_ ++ (s.calls ++ [_]).flatMap _).Perm _
        rw [List.flatMap_append]
        exact (List.append_nil _).symm ▸ h.retries
  | handle succeeds => exact ⟨_, rfl, h.stepHandle he⟩
  | next i succeeds => exact h.next he

/-! ## Whole runs -/

/-- Every block that a call was given is in one message; every failed message is at one place, which
is not the list if that was full; and `handle` returns. -/
structure Delivered (s : Sender) : Prop where
  calls : ∀ c ∈ s.calls, Accounted c
  retries : Retries s
  cap : s.timer.feeds.length ≤ 500001 ∧ ∀ r ∈ s.refused, 500000 < r.2
  returns : ∃ n, ((fun s => s.stepHandle true)^[n] s).handle = .idle

/-- `handle` empties the list and returns, when nothing fails. -/
theorem returns_of_looping (n : ℕ) (hn : s.timer.feeds.length = n) (hs : s.handle = .looping) :
    ∃ k, ((fun s => s.stepHandle true)^[k] s).handle = .idle := by
  induction n generalizing s with
  | zero =>
      refine ⟨1, ?_⟩
      show (s.stepHandle true).handle = .idle
      unfold Sender.stepHandle
      rw [hs, List.length_eq_zero_iff.mp hn]
  | succ n ih =>
      cases hfeeds : s.timer.feeds with
      | nil =>
          rw [hfeeds] at hn
          cases hn
      | cons msg feeds =>
          have htwice : (s.stepHandle true).stepHandle true =
              { s with
                timer := { s.timer with feeds := feeds }
                handle := .looping
                resent := s.resent ++ [msg] } := by
            have hone : s.stepHandle true =
                { s with timer := { s.timer with feeds := feeds }, handle := .resending msg } := by
              unfold Sender.stepHandle
              rw [hs]
              dsimp only
              rw [hfeeds]
            rw [hone]
            rfl
          rw [hfeeds, List.length_cons] at hn
          obtain ⟨k, hk⟩ := ih (s := { s with
            timer := { s.timer with feeds := feeds }
            handle := .looping
            resent := s.resent ++ [msg] }) (Nat.succ.inj hn) rfl
          refine ⟨k + 2, ?_⟩
          rw [Function.iterate_add_apply]
          show ((fun s => s.stepHandle true)^[k] ((s.stepHandle true).stepHandle true)).handle = .idle
          rw [htwice]
          exact hk

/-- What is sound is delivered. -/
theorem Sound.delivered (h : Sound s) : Delivered s := by
  refine ⟨fun c hc => (h.calls c hc).accounted, h.retries, ⟨h.cap, h.refused⟩, ?_⟩
  cases hhandle : s.handle with
  | idle => exact ⟨0, hhandle⟩
  | looping => exact returns_of_looping _ rfl hhandle
  | waiting msg => exact absurd hhandle (h.handle msg)
  | resending msg =>
      have hstep : (s.stepHandle true).handle = .looping := by
        unfold Sender.stepHandle
        rw [hhandle]
        rfl
      obtain ⟨k, hk⟩ := returns_of_looping _ rfl hstep
      exact ⟨k + 1, hk⟩

/-- **In a run in which every block is asked for where its server is known, the timer's messages do
not fail again and the master stays in its arrays, no message is lost or doubled, and `handle` always
returns.** -/
theorem delivered_run (m : DataNodeManager) (events : List SendEvent)
    (h : StepsMeet step (WhenLive Fine) (some (start m)) events) :
    ∃ s ∈ runOps step (some (start m)) events, Delivered s := by
  obtain ⟨s, hs, hsound⟩ :=
    partial_run_invariant (fun _ _ hs he => hs.event he) (sound_start m) h
  exact ⟨s, hs, hsound.delivered⟩

/-- Two users of two servers and user 0, whose feeds go out at the second attempt. -/
theorem delivered_run_again :
    let feed : FeedItem := ⟨1, 0, 0, 0, 0, 0⟩
    ∃ s ∈ runOps step (some (start .uninitialised))
      [.op (.restart 2 (-1) 0), .put feed ((OrdMap.empty.insert 5 1).insert 0 1), .next 0 true,
        .next 0 true, .next 0 true, .next 0 false, .next 0 true, .handle true, .handle true,
        .handle true], Delivered s :=
  delivered_run _ _ (by decide +kernel)

/-! ## A message that fails again -/

/-- `handle` waits for the mutex that it holds. -/
def Stuck (s : Sender) : Prop := s.timer.locked = true ∧ ∃ msg, s.handle = .waiting msg

theorem stuck_of_failure (h : s.handle = .resending msg) : Stuck (s.stepHandle false) := by
  unfold Sender.stepHandle
  rw [h]
  exact ⟨rfl, msg, rfl⟩

theorem Stuck.stepHandle (h : Stuck s) (succeeds : Bool) : s.stepHandle succeeds = s := by
  obtain ⟨hlocked, msg, hwaiting⟩ := h
  unfold Sender.stepHandle
  rw [hwaiting]
  dsimp only
  unfold RetryTimer.push
  rw [hlocked, if_pos rfl]

theorem Stuck.not_delivered (h : Stuck s) : ¬Delivered s := by
  rintro ⟨-, -, -, n, hn⟩
  have hfixed : (fun s => s.stepHandle true)^[n] s = s := Function.iterate_fixed (h.stepHandle true) n
  obtain ⟨-, msg, hwaiting⟩ := h
  rw [hfixed, hwaiting] at hn
  cases hn

/-- The data node does not answer twice. -/
theorem handle_waits :
    ¬ ∀ (m : DataNodeManager) (events : List SendEvent),
      ∃ s ∈ runOps step (some (start m)) events, Delivered s := by
  intro h
  let events : List SendEvent := [.op (.restart 1 (-1) 0),
    .put ⟨1, 0, 0, 0, 0, 0⟩ (OrdMap.empty.insert 5 1), .next 0 true,
    .next 0 true, .next 0 false, .next 0 true, .handle true, .handle true]
  have hbefore : (runOps step (some (start .uninitialised)) events).map Sender.handle =
      some (.resending ⟨0, ⟨1, 0, 0, 0, 0, 0⟩, [⟨0, 5, 1, 1, 1, 0, 0, -1, 1⟩]⟩) := by decide +kernel
  obtain ⟨s, hs, hhandle⟩ := Option.map_eq_some_iff.mp hbefore
  obtain ⟨t, ht, hdelivered⟩ := h .uninitialised (events ++ [.handle false])
  rw [runOps_append, hs, runOps_cons, runOps_nil] at ht
  cases ht
  exact (stuck_of_failure hhandle).not_delivered hdelivered

end Sender

end Oce.FeedDB
