import Mathlib.Data.List.Forall2
import Mathlib.Data.List.Nodup
import Oce.MessagePipe.Model.BrokerConnection

/-!
# What an update does to the brokers

The loop that looks for the old object of a child begins at the greatest `size_t`, so it ends where it
begins, and every child gets a new object (`childLoop_new`). Whatever waits in the consumers of a
broker that is listed again is gone with the old object. An update that lists no broker again
(`NoneListedAgain`) does no harm, and in a run of such updates the law of the connection holds, which
it does in no other (`lawful_iff_noneListedAgain`).

A waiting message is handed out when the turn comes to its broker. The turns of all subjects are
counted together, modulo `2 ^ 32`; of twice as many calls for one subject in a row as there are brokers
one finds the broker (`exists_turn`).
-/

set_option autoImplicit false

namespace Oce.MessagePipe

open Function Oce.Base

variable {p m n i : ℕ} {b c b' : Broker} {s' : BrokerConnection} {subject child sub : List Byte}
  {childs : List (List Byte)} {children : Children} {op : BrokerOp} {later : List BrokerOp}

/-! ## The law -/

/-- Arrivals, and calls of `receive` for one subject. -/
def BrokerOp.Quiet (subject : List Byte) : BrokerOp → Prop
  | update _ => False
  | message _ _ => True
  | receive s _ => s = subject

def BrokerOp.isReceive : BrokerOp → Bool
  | receive _ _ => true
  | _ => false

/-- The law of the connection. -/
structure BrokerConnection.Lawful (s : BrokerConnection) : Prop where
  /-- A broker that is listed before and after an update keeps its object, and so its consumers. -/
  kept : ∀ j ∈ s.allBrokers, (∃ i ∈ s.previous, (s.objects i).equals (s.objects j) = true) →
    j ∈ s.previous
  /-- There is one entry for each listed child. -/
  entries : List.Forall₂ (fun i child => s.listedBy i child = true) s.allBrokers s.children
  valid : s.validBrokers = s.allBrokers.filter fun i => (s.objects i).isValid
  /-- No message is handed out twice. -/
  once : s.handed.Nodup
  /-- A message that waits at a broker which has been listed ever since is handed out when `receive`
  is called often enough. -/
  delivered : ∀ w ∈ s.waiting, ∀ later : List BrokerOp, (∀ op ∈ later, op.Quiet w.subject) →
    2 * s.allBrokers.length ≤ later.countP BrokerOp.isReceive →
      (runOps BrokerOp.step s later).handed.count w.message = 1

/-- No child of the update is a broker that is listed already. -/
def BrokerOp.NoneListedAgain (s : BrokerConnection) : BrokerOp → Prop
  | update children => ∀ i ∈ s.allBrokers, ∀ child ∈ children.list, s.listedBy i child = false
  | _ => True

instance (s : BrokerConnection) (op : BrokerOp) : Decidable (op.NoneListedAgain s) := by
  cases op <;> unfold BrokerOp.NoneListedAgain <;> infer_instance

/-! ## Turns -/

/-- Of twice as many turns as there are places one falls on a place, whatever the seed. -/
theorem exists_turn {seed N : ℕ} (hseed : seed < 2 ^ 32) (hN : N < 2 ^ 31) (hp : p < N) :
    ∃ k < 2 * N, ((seed + k) % 2 ^ 32) % N = p := by
  rcases Nat.lt_or_ge (2 ^ 32) (seed + N) with hwrap | hfit
  · -- the seed begins again at zero on the way
    refine ⟨2 ^ 32 - seed + p, by omega, ?_⟩
    have hsum : seed + (2 ^ 32 - seed + p) = p + 2 ^ 32 := by omega
    have hsmall : p < 2 ^ 32 := by omega
    rw [hsum, Nat.add_mod_right, Nat.mod_eq_of_lt hsmall, Nat.mod_eq_of_lt hp]
  · have hr := Nat.mod_lt seed (by omega : 0 < N)
    have hdiv := Nat.div_add_mod seed N
    have hat (k q : ℕ) (hk : k < N) (hq : seed + k = N * q + p) :
        ((seed + k) % 2 ^ 32) % N = p := by
      have hsmall : seed + k < 2 ^ 32 := by omega
      rw [Nat.mod_eq_of_lt hsmall, hq, Nat.mul_add_mod, Nat.mod_eq_of_lt hp]
    rcases Nat.lt_or_ge p (seed % N) with hlt | hge
    · refine ⟨p + N - seed % N, by omega, hat _ (seed / N + 1) (by omega) ?_⟩
      rw [Nat.mul_add, Nat.mul_one]
      omega
    · exact ⟨p - seed % N, by omega, hat _ (seed / N) (by omega) (by omega)⟩

/-! ## New objects -/

variable {s : BrokerConnection}

/-- A consumer of an object has a message in its buffer. -/
def Holds (s : BrokerConnection) (i : ℕ) (subject : List Byte) (m : ℕ) : Prop :=
  ∃ buffers, (s.objects i).subject2Consumer subject = some buffers ∧ m ∈ buffers

/-- What the loop over the children leaves: it is the connection of before with new objects. -/
structure Made (s s' : BrokerConnection) (n : ℕ) : Prop where
  cluster : s'.cluster = s.cluster
  made : s'.made = s.made + n
  old : ∀ i < s.made, s'.objects i = s.objects i
  fresh : ∀ i, s.made ≤ i → i < s'.made → ∀ subject, (s'.objects i).subject2Consumer subject = none
  above : ∀ i, s'.made ≤ i → s'.objects i = s.objects i
  allBrokers : s'.allBrokers = s.allBrokers
  allSeed : s'.allSeed = s.allSeed
  arrived : s'.arrived = s.arrived
  handed : s'.handed = s.handed

theorem Made.refl (s : BrokerConnection) : Made s s 0 :=
  ⟨rfl, rfl, fun _ _ => rfl, fun _ h h' => absurd h (Nat.not_le.mpr h'), fun _ _ => rfl, rfl, rfl, rfl,
    rfl⟩

theorem Made.alloc (s : BrokerConnection) (hb : ∀ subject, b.subject2Consumer subject = none) :
    Made s (s.alloc b) 1 where
  cluster := rfl
  made := rfl
  old i hi := update_of_ne (Nat.ne_of_lt hi) _ _
  fresh i hle hlt subject := by
    have hi : i = s.made := Nat.le_antisymm (Nat.le_of_lt_succ hlt) hle
    rw [hi]
    simp [BrokerConnection.alloc, hb]
  above i hi := update_of_ne (Nat.ne_of_gt hi) _ _
  allBrokers := rfl
  allSeed := rfl
  arrived := rfl
  handed := rfl

theorem Made.trans {s₁ s₂ s₃ : BrokerConnection} (h : Made s₁ s₂ m) (h' : Made s₂ s₃ n) :
    Made s₁ s₃ (m + n) where
  cluster := h'.cluster.trans h.cluster
  made := by rw [h'.made, h.made, Nat.add_assoc]
  old i hi := by
    have hmade := h.made
    rw [h'.old i (by omega), h.old i hi]
  fresh i hle hlt subject := by
    rcases Nat.lt_or_ge i s₂.made with hold | hnew
    · rw [h'.old i hold]
      exact h.fresh i hle hold subject
    · exact h'.fresh i hnew hlt subject
  above i hi := by
    have hmade := h'.made
    rw [h'.above i hi, h.above i (by omega)]
  allBrokers := h'.allBrokers.trans h.allBrokers
  allSeed := h'.allSeed.trans h.allSeed
  arrived := h'.arrived.trans h.arrived
  handed := h'.handed.trans h.handed

/-- An old object holds what it held, and a new one nothing. -/
theorem Made.holds (h : Made s s' n) (hm : Holds s' i subject m) : Holds s i subject m := by
  obtain ⟨buffers, hbuf, hmem⟩ := hm
  rcases Nat.lt_or_ge i s.made with hold | hnew
  · rw [h.old i hold] at hbuf
    exact ⟨buffers, hbuf, hmem⟩
  · rcases Nat.lt_or_ge i s'.made with hfresh | habove
    · rw [h.fresh i hnew hfresh subject] at hbuf
      cases hbuf
    · rw [h.above i habove] at hbuf
      exact ⟨buffers, hbuf, hmem⟩

theorem getZKBrokerInfo_of_parse (cluster : List Byte) (h : (parseChild child).isSome = true) :
    ∃ b, getZKBrokerInfo cluster child = some b ∧ ∀ subject, b.subject2Consumer subject = none := by
  obtain ⟨info, hinfo⟩ := Option.isSome_iff_exists.mp h
  exact ⟨.new cluster info.1 info.2.1 info.2.2, by rw [getZKBrokerInfo, hinfo]; rfl, fun _ => rfl⟩

theorem equals_trans {a : Broker} (h : a.equals b = true) (h' : b.equals c = true) :
    a.equals c = true := by
  simp only [Broker.equals, decide_eq_true_eq] at h h' ⊢
  obtain ⟨h1, h2, h3⟩ := h
  obtain ⟨h1', h2', h3'⟩ := h'
  exact ⟨h1.trans h1', h2.trans h2', h3.trans h3'⟩

theorem equals_self (b : Broker) : b.equals b = true := by
  simp [Broker.equals]

/-- The search ends where it begins. -/
theorem search_eq (hsmall : s.allBrokers.length < 2 ^ 31) (b : Broker) :
    s.allBrokers[s.search b (2 ^ 64 - 1)]? = none := by
  have hge : ¬ 2 ^ 64 - 1 < s.allBrokers.length := by omega
  rw [BrokerConnection.search, if_neg hge]
  exact List.getElem?_eq_none (by omega)

/-- **The loop over the children makes a new object for each of them.** -/
theorem childLoop_new (hsmall : s.allBrokers.length < 2 ^ 31)
    (hdesc : ∀ child ∈ childs, (parseChild child).isSome = true) (curAll curValid : List ℕ) :
    ∃ s', BrokerConnection.childLoop childs s curAll curValid =
        some (s', curAll ++ List.range' s.made childs.length,
          curValid ++ (List.range' s.made childs.length).filter fun i => (s'.objects i).isValid) ∧
      Made s s' childs.length ∧
      List.Forall₂ (fun i child => s'.listedBy i child = true)
        (List.range' s.made childs.length) childs := by
  induction childs generalizing s curAll curValid with
  | nil => exact ⟨s, by simp [BrokerConnection.childLoop], Made.refl s, List.Forall₂.nil⟩
  | cons child childs ih =>
      obtain ⟨b, hb, hfresh⟩ := getZKBrokerInfo_of_parse s.cluster
        (hdesc child List.mem_cons_self)
      obtain ⟨s', hloop, hmade, hlisted⟩ := ih (s := s.alloc b) hsmall
        (fun c hc => hdesc c (List.mem_cons_of_mem _ hc)) (curAll ++ [s.made])
        (if b.isValid then curValid ++ [s.made] else curValid)
      have hobj : s'.objects s.made = b := by
        rw [hmade.old s.made (Nat.lt_succ_self _)]
        exact update_self _ _ _
      refine ⟨s', ?_, ?_, ?_⟩
      · rw [BrokerConnection.childLoop, hb]
        dsimp only
        rw [search_eq hsmall b]
        dsimp only
        rw [hloop, List.length_cons, List.range'_succ, List.filter_cons, hobj]
        split <;> simp [BrokerConnection.alloc]
      · have htrans := (Made.alloc s hfresh).trans hmade
        rw [Nat.add_comm] at htrans
        exact htrans
      · rw [List.length_cons, List.range'_succ]
        refine List.Forall₂.cons ?_ hlisted
        have hcluster : s'.cluster = s.cluster := hmade.cluster
        simp [BrokerConnection.listedBy, hcluster, hb, hobj, equals_self]

/-! ## The lists and the messages -/

/-- What holds of the lists. -/
structure Listed (s : BrokerConnection) : Prop where
  kept : ∀ j ∈ s.allBrokers, (∃ i ∈ s.previous, (s.objects i).equals (s.objects j) = true) →
    j ∈ s.previous
  entries : List.Forall₂ (fun i child => s.listedBy i child = true) s.allBrokers s.children
  valid : s.validBrokers = s.allBrokers.filter fun i => (s.objects i).isValid
  listed : ∀ i ∈ s.allBrokers, i < s.made
  small : s.allBrokers.length < 2 ^ 31
  seed : s.allSeed < 2 ^ 32

/-- What holds of the messages: each is in one place, a buffer or the list of those handed out. -/
structure Stored (s : BrokerConnection) : Prop where
  buffered : ∀ w ∈ s.waiting, w.broker ∈ s.allBrokers ∧ Holds s w.broker w.subject w.message
  nodup : ∀ i subject buffers, (s.objects i).subject2Consumer subject = some buffers → buffers.Nodup
  number : ∀ i subject m, Holds s i subject m → m < s.arrived ∧ m ∉ s.handed
  apart : ∀ i subject i' subject' m, Holds s i subject m → Holds s i' subject' m →
    i = i' ∧ subject = subject'
  handed : ∀ m ∈ s.handed, m < s.arrived
  once : s.handed.Nodup

/-- What is known of an object for good. -/
def Broker.name (b : Broker) : List Byte × List Byte × ℤ × List Byte :=
  (b.cluster, b.host, b.port, b.status)

theorem equals_congr {c' : Broker} (hb : b.name = b'.name) (hc : c.name = c'.name) :
    b.equals c = b'.equals c' := by
  simp only [Broker.name, Prod.mk.injEq] at hb hc
  simp only [Broker.equals, hb, hc]

theorem isValid_congr (hb : b.name = b'.name) : b.isValid = b'.isValid := by
  simp only [Broker.name, Prod.mk.injEq] at hb
  simp only [Broker.isValid, hb]

/-- A step that leaves the lists and the names alone. -/
structure SameLists (s s' : BrokerConnection) : Prop where
  cluster : s'.cluster = s.cluster
  made : s'.made = s.made
  name : ∀ i, (s'.objects i).name = (s.objects i).name
  allBrokers : s'.allBrokers = s.allBrokers
  validBrokers : s'.validBrokers = s.validBrokers
  previous : s'.previous = s.previous
  children : s'.children = s.children

theorem Listed.same (h : Listed s) (hs : SameLists s s') (hseed : s'.allSeed < 2 ^ 32) :
    Listed s' where
  kept j hj hex := by
    rw [hs.allBrokers] at hj
    rw [hs.previous] at hex ⊢
    obtain ⟨i, hi, heq⟩ := hex
    rw [equals_congr (hs.name i) (hs.name j)] at heq
    exact h.kept j hj ⟨i, hi, heq⟩
  entries := by
    rw [hs.allBrokers, hs.children]
    refine h.entries.imp fun i child hchild => ?_
    unfold BrokerConnection.listedBy at hchild ⊢
    rw [hs.cluster]
    cases hb : getZKBrokerInfo s.cluster child with
    | none => simp [hb] at hchild
    | some b =>
        simp only [hb, Option.any_some] at hchild ⊢
        rw [equals_congr (hs.name i) rfl]
        exact hchild
  valid := by
    rw [hs.validBrokers, hs.allBrokers, h.valid]
    congr 1
    funext i
    exact (isValid_congr (hs.name i)).symm
  listed := by
    rw [hs.allBrokers, hs.made]
    exact h.listed
  small := by
    rw [hs.allBrokers]
    exact h.small
  seed := hseed

/-! ## An update -/

section Update

variable {s' : BrokerConnection} {n : ℕ}

/-- The messages of the old objects stay apart; nobody waits for them any more. -/
theorem Stored.made (h : Stored s) (hm : Made s s' n) {all valid previous : List ℕ}
    {children : List (List Byte)} :
    Stored { s' with
      allBrokers := all, validBrokers := valid, previous := previous, children := children,
      waiting := [] } where
  buffered w hw := by cases hw
  nodup i subject buffers hbuf := by
    have hold : buffers = [] ∨ (s.objects i).subject2Consumer subject = some buffers := by
      rcases Nat.lt_or_ge i s.made with hlt | hge
      · exact Or.inr (by rw [← hm.old i hlt]; exact hbuf)
      · rcases Nat.lt_or_ge i s'.made with hfresh | habove
        · have hnone := hm.fresh i hge hfresh subject
          rw [show (s'.objects i).subject2Consumer subject = some buffers from hbuf] at hnone
          cases hnone
        · exact Or.inr (by rw [← hm.above i habove]; exact hbuf)
    rcases hold with rfl | hold
    · exact List.nodup_nil
    · exact h.nodup i subject buffers hold
  number i subject m hmem := by
    obtain ⟨hlt, hnot⟩ := h.number i subject m (hm.holds hmem)
    exact ⟨hm.arrived ▸ hlt, hm.handed ▸ hnot⟩
  apart i subject i' subject' m hmem hmem' := h.apart i subject i' subject' m (hm.holds hmem) (hm.holds hmem')
  handed m hmem := by
    have hold : m ∈ s.handed := hm.handed ▸ hmem
    exact hm.arrived ▸ h.handed m hold
  once := hm.handed ▸ h.once

end Update

/-- What `handleChildChange` leaves. -/
theorem handleChildChange_eq (h : Listed s) (children : Children) :
    ∃ s', s.handleChildChange children.list = some { s' with
        allBrokers := List.range' s.made children.list.length
        validBrokers := (List.range' s.made children.list.length).filter fun i =>
          (s'.objects i).isValid } ∧
      Made s s' children.list.length ∧
      List.Forall₂ (fun i child => s'.listedBy i child = true)
        (List.range' s.made children.list.length) children.list := by
  obtain ⟨s', hloop, hmade, hlisted⟩ := childLoop_new h.small children.described [] []
  exact ⟨s', by simp [BrokerConnection.handleChildChange, hloop], hmade, hlisted⟩

/-- Nobody waits at a broker that is not listed again. -/
theorem waiting_eq_nil (h : Stored s) (hnone : (BrokerOp.update children).NoneListedAgain s) :
    s.waiting.filter (fun w => children.list.any fun child => s.listedBy w.broker child) = [] := by
  refine List.filter_eq_nil_iff.mpr fun w hw hany => ?_
  obtain ⟨child, hchild, hlist⟩ := List.any_eq_true.mp hany
  rw [hnone w.broker (h.buffered w hw).1 child hchild] at hlist
  cases hlist

/-- Every element of the one list has its partner in the other. -/
theorem exists_of_forall₂ {α β : Type*} {R : α → β → Prop} {l : List α} {l' : List β}
    (h : List.Forall₂ R l l') {a : α} (ha : a ∈ l) : ∃ b ∈ l', R a b := by
  induction h with
  | nil => cases ha
  | cons hab _ ih =>
      rcases List.mem_cons.mp ha with rfl | htail
      · exact ⟨_, List.mem_cons_self, hab⟩
      · obtain ⟨b, hb, hr⟩ := ih htail
        exact ⟨b, List.mem_cons_of_mem _ hb, hr⟩

theorem listedBy_eq_true :
    s.listedBy i child = true ↔
      ∃ b, getZKBrokerInfo s.cluster child = some b ∧ (s.objects i).equals b = true := by
  unfold BrokerConnection.listedBy
  cases getZKBrokerInfo s.cluster child <;> simp

/-- An old broker that says the same as a new one is listed by a child. -/
theorem listedBy_of_equals (hmade : Made s s' n) {j : ℕ} (hi : i < s.made)
    (hj : s'.listedBy j child = true) (heq : (s'.objects i).equals (s'.objects j) = true) :
    s.listedBy i child = true := by
  obtain ⟨b, hb, hjb⟩ := listedBy_eq_true.mp hj
  rw [hmade.cluster] at hb
  rw [hmade.old i hi] at heq
  exact listedBy_eq_true.mpr ⟨b, hb, equals_trans heq hjb⟩

/-- **An update that lists no broker again.** -/
theorem update_sound (h : Listed s) (hst : Stored s)
    (hnone : (BrokerOp.update children).NoneListedAgain s) :
    Listed ((BrokerOp.update children).step s) ∧ Stored ((BrokerOp.update children).step s) := by
  obtain ⟨s', hchange, hmade, hlisted⟩ := handleChildChange_eq h children
  simp only [BrokerOp.step, hchange]
  rw [waiting_eq_nil hst hnone]
  refine ⟨⟨fun j hj hex => ?_, hlisted, rfl, fun i hi => ?_, ?_, ?_⟩, hst.made hmade⟩
  · -- an old broker that is listed again is excluded
    obtain ⟨i, hi, heq⟩ := hex
    obtain ⟨child, hchild, hj'⟩ := exists_of_forall₂ hlisted hj
    have hagain := listedBy_of_equals hmade (h.listed i hi) hj' heq
    rw [hnone i hi child hchild] at hagain
    cases hagain
  · have hi' := List.mem_range'_1.mp hi
    have hm := hmade.made
    show i < s'.made
    omega
  · simpa using children.countable
  · exact hmade.allSeed ▸ h.seed

/-- **An update after which every broker that is listed again has its object has listed none again.** -/
theorem noneListedAgain_of_kept (h : Listed s)
    (hkept : ∀ j ∈ ((BrokerOp.update children).step s).allBrokers,
      (∃ i ∈ ((BrokerOp.update children).step s).previous,
        (((BrokerOp.update children).step s).objects i).equals
          (((BrokerOp.update children).step s).objects j) = true) →
        j ∈ ((BrokerOp.update children).step s).previous) :
    (BrokerOp.update children).NoneListedAgain s := by
  obtain ⟨s', hchange, hmade, hlisted⟩ := handleChildChange_eq h children
  simp only [BrokerOp.step, hchange] at hkept
  intro i hi child hchild
  by_contra hagain
  obtain ⟨b, hb, hib⟩ := listedBy_eq_true.mp (by simpa using hagain)
  obtain ⟨j, hj, hjc⟩ := exists_of_forall₂ hlisted.flip hchild
  obtain ⟨b', hb', hjb⟩ := listedBy_eq_true.mp hjc
  rw [hmade.cluster, hb, Option.some_inj] at hb'
  subst hb'
  have heq : (s'.objects i).equals (s'.objects j) = true := by
    rw [hmade.old i (h.listed i hi)]
    simp only [Broker.equals, decide_eq_true_eq] at hib hjb ⊢
    exact ⟨hib.1.trans hjb.1.symm, hib.2.1.trans hjb.2.1.symm, hib.2.2.trans hjb.2.2.symm⟩
  have hold := h.listed j (hkept j hj ⟨i, hi, heq⟩)
  have hnew := (List.mem_range'_1.mp hj).1
  omega

/-! ## An arrival -/

/-- What an arrival does, if the consumer is there. -/
structure Arrives (s s' : BrokerConnection) (broker : ℕ) (subject : List Byte) : Prop
    extends SameLists s s' where
  listed : broker ∈ s.allBrokers
  seed : s'.allSeed = s.allSeed
  arrived : s'.arrived = s.arrived + 1
  handed : s'.handed = s.handed
  waiting : s'.waiting = s.waiting ++ [⟨s.arrived, broker, subject⟩]
  buffers : ∃ buffers, (s.objects broker).subject2Consumer subject = some buffers ∧
    (s'.objects broker).subject2Consumer subject = some (buffers ++ [s.arrived])
  other : ∀ i sub, ¬ (i = broker ∧ sub = subject) →
    (s'.objects i).subject2Consumer sub = (s.objects i).subject2Consumer sub

theorem message_step (s : BrokerConnection) (broker : ℕ) (subject : List Byte) :
    (BrokerOp.message broker subject).step s = s ∨
      Arrives s ((BrokerOp.message broker subject).step s) broker subject := by
  unfold BrokerOp.step
  cases hbuf : (s.objects broker).subject2Consumer subject with
  | none => exact Or.inl (by simp [hbuf])
  | some buffers =>
      by_cases hlisted : broker ∈ s.allBrokers
      · right
        simp only [hbuf, if_pos hlisted]
        refine ⟨⟨rfl, rfl, fun i => ?_, rfl, rfl, rfl, rfl⟩, hlisted, rfl, rfl, rfl, rfl,
          ⟨buffers, hbuf, by simp⟩, fun i sub hne => ?_⟩
        · by_cases hi : i = broker
          · rw [hi]
            simp [Broker.name]
          · simp [update_of_ne hi]
        · by_cases hi : i = broker
          · have hsub : sub ≠ subject := fun he => hne ⟨hi, he⟩
            rw [hi]
            simp [update_of_ne hsub]
          · simp [update_of_ne hi]
      · exact Or.inl (by simp [hbuf, hlisted])

section Arrival

variable {s' : BrokerConnection} {broker : ℕ} {subject : List Byte}

theorem Arrives.holds_iff (h : Arrives s s' broker subject) :
    Holds s' i sub m ↔ Holds s i sub m ∨ i = broker ∧ sub = subject ∧ m = s.arrived := by
  obtain ⟨buffers, hold, hnew⟩ := h.buffers
  by_cases hat : i = broker ∧ sub = subject
  · obtain ⟨rfl, rfl⟩ := hat
    simp [Holds, hold, hnew]
  · have hother := h.other i sub hat
    unfold Holds
    rw [hother]
    refine ⟨Or.inl, fun hm => hm.elim id fun ⟨hi, hsub, _⟩ => absurd ⟨hi, hsub⟩ hat⟩

/-- **An arrival.** -/
theorem Stored.arrives (h : Stored s) (ha : Arrives s s' broker subject) : Stored s' where
  buffered w hw := by
    rw [ha.waiting] at hw
    rw [ha.allBrokers]
    rcases List.mem_append.mp hw with hold | hnew
    · obtain ⟨hlisted, hholds⟩ := h.buffered w hold
      exact ⟨hlisted, ha.holds_iff.mpr (Or.inl hholds)⟩
    · rw [List.mem_singleton.mp hnew]
      exact ⟨ha.listed, ha.holds_iff.mpr (Or.inr ⟨rfl, rfl, rfl⟩)⟩
  nodup i sub buffers hbuf := by
    by_cases hat : i = broker ∧ sub = subject
    · obtain ⟨rfl, rfl⟩ := hat
      obtain ⟨old, hold, hnew⟩ := ha.buffers
      rw [hnew, Option.some_inj] at hbuf
      have hnot : s.arrived ∉ old := fun hm => Nat.lt_irrefl _ (h.number i sub _ ⟨old, hold, hm⟩).1
      rw [← hbuf]
      exact List.nodup_append.mpr ⟨h.nodup i sub old hold, by simp, by
        rintro a ha' b hb rfl
        rw [List.mem_singleton.mp hb] at ha'
        exact hnot ha'⟩
    · rw [ha.other i sub hat] at hbuf
      exact h.nodup i sub buffers hbuf
  number i sub m hm := by
    rw [ha.arrived, ha.handed]
    rcases ha.holds_iff.mp hm with hold | ⟨-, -, rfl⟩
    · obtain ⟨hlt, hnot⟩ := h.number i sub m hold
      exact ⟨by omega, hnot⟩
    · exact ⟨by omega, fun hmem => Nat.lt_irrefl _ (h.handed _ hmem)⟩
  apart i sub i' sub' m hm hm' := by
    rcases ha.holds_iff.mp hm with hold | ⟨hi, hsub, rfl⟩
    · rcases ha.holds_iff.mp hm' with hold' | ⟨-, -, rfl⟩
      · exact h.apart i sub i' sub' m hold hold'
      · exact absurd (h.number i sub _ hold).1 (Nat.lt_irrefl _)
    · rcases ha.holds_iff.mp hm' with hold' | ⟨hi', hsub', -⟩
      · exact absurd (h.number i' sub' _ hold').1 (Nat.lt_irrefl _)
      · exact ⟨hi.trans hi'.symm, hsub.trans hsub'.symm⟩
  handed m hm := by
    rw [ha.handed] at hm
    rw [ha.arrived]
    exact Nat.lt_succ_of_lt (h.handed m hm)
  once := by
    rw [ha.handed]
    exact h.once

end Arrival

/-! ## A call of `receive` -/

/-- What a consumer does that is asked with an empty vector. -/
theorem broker_receive (b : Broker) (subject : List Byte) (connects : Bool) :
    (b.receive subject connects []).2 = (b.subject2Consumer subject).getD [] ∧
      (b.receive subject connects []).1.name = b.name ∧
      (∀ sub, sub ≠ subject →
        (b.receive subject connects []).1.subject2Consumer sub = b.subject2Consumer sub) ∧
      ∀ buffers, (b.receive subject connects []).1.subject2Consumer subject = some buffers →
        buffers = [] := by
  have hswap (buffers : List ℕ) : consumerReceive buffers [] = ([], buffers) := by
    cases buffers <;> simp [consumerReceive]
  unfold Broker.receive
  cases hc : b.subject2Consumer subject with
  | none =>
      cases connects with
      | false => simp [hc]
      | true =>
          simp only [Option.none_or, if_true, hswap, Option.getD_none]
          exact ⟨trivial, rfl, fun sub hsub => update_of_ne hsub _ _, by simp⟩
  | some buffers =>
      simp only [Option.some_or, hswap, Option.getD_some]
      exact ⟨trivial, rfl, fun sub hsub => update_of_ne hsub _ _, by simp⟩

/-- What a call does that has come to a broker. -/
structure Receives (s s' : BrokerConnection) (broker : ℕ) (subject : List Byte) : Prop
    extends SameLists s s' where
  seed : s'.allSeed = (s.allSeed + 1) % 2 ^ 32
  arrived : s'.arrived = s.arrived
  part : ∃ part, s'.handed = s.handed ++ part ∧
    s'.waiting = s.waiting.filter (fun w => w.message ∉ part) ∧
    part = ((s.objects broker).subject2Consumer subject).getD []
  emptied : ∀ buffers, (s'.objects broker).subject2Consumer subject = some buffers → buffers = []
  other : ∀ i sub, ¬ (i = broker ∧ sub = subject) →
    (s'.objects i).subject2Consumer sub = (s.objects i).subject2Consumer sub

/-- The turn, and what comes of it. -/
theorem receive_step (s : BrokerConnection) (subject : List Byte) (connects : Bool)
    (hi : s.allBrokers[s.allSeed % s.allBrokers.length]? = some i) :
    Receives s ((BrokerOp.receive subject connects).step s) i subject := by
  have hpos : s.allBrokers ≠ [] := by
    intro he
    simp [he] at hi
  have hturn : (s.allSeed % s.allBrokers.length + s.allBrokers.length) % s.allBrokers.length =
      s.allSeed % s.allBrokers.length := by
    rw [Nat.add_mod_right, Nat.mod_mod]
  obtain ⟨hpart, hname, hother, hempty⟩ := broker_receive (s.objects i) subject connects
  simp only [BrokerOp.step, BrokerConnection.receive, hturn, hi]
  refine ⟨⟨rfl, rfl, fun j => ?_, rfl, rfl, rfl, rfl⟩, rfl, rfl, ⟨_, rfl, rfl, hpart⟩, ?_, ?_⟩
  · by_cases hj : j = i
    · rw [hj]
      simpa using hname
    · simp [update_of_ne hj]
  · simpa using hempty
  · intro j sub hne
    by_cases hj : j = i
    · rw [hj]
      simpa using hother sub fun he => hne ⟨hj, he⟩
    · simp [update_of_ne hj]

/-- Without brokers nothing is received. -/
theorem receive_step_none (s : BrokerConnection) (subject : List Byte) (connects : Bool)
    (h : s.allBrokers = []) : (BrokerOp.receive subject connects).step s = s := by
  cases s
  simp only at h
  simp [BrokerOp.step, BrokerConnection.receive, h]

theorem receive_step_or (s : BrokerConnection) (subject : List Byte) (connects : Bool) :
    (BrokerOp.receive subject connects).step s = s ∨
      ∃ i, s.allBrokers[s.allSeed % s.allBrokers.length]? = some i ∧
        Receives s ((BrokerOp.receive subject connects).step s) i subject := by
  by_cases hnone : s.allBrokers = []
  · exact Or.inl (receive_step_none s subject connects hnone)
  · right
    have hlt := Nat.mod_lt s.allSeed (List.length_pos_iff.mpr hnone)
    exact ⟨_, List.getElem?_eq_getElem hlt, receive_step s subject connects (List.getElem?_eq_getElem hlt)⟩

section Receive

variable {s' : BrokerConnection} {broker : ℕ} {subject : List Byte}

theorem Receives.holds_iff (h : Receives s s' broker subject) :
    Holds s' i sub m ↔ Holds s i sub m ∧ ¬ (i = broker ∧ sub = subject) := by
  by_cases hat : i = broker ∧ sub = subject
  · obtain ⟨rfl, rfl⟩ := hat
    refine ⟨fun ⟨buffers, hbuf, hm⟩ => ?_, fun hm => absurd ⟨rfl, rfl⟩ hm.2⟩
    rw [h.emptied buffers hbuf] at hm
    cases hm
  · unfold Holds
    rw [h.other i sub hat]
    exact ⟨fun hm => ⟨hm, hat⟩, fun hm => hm.1⟩

theorem mem_getD_iff :
    m ∈ ((s.objects broker).subject2Consumer subject).getD [] ↔ Holds s broker subject m := by
  unfold Holds
  cases (s.objects broker).subject2Consumer subject <;> simp

theorem Receives.mem_handed_iff (h : Receives s s' broker subject) :
    m ∈ s'.handed ↔ m ∈ s.handed ∨ Holds s broker subject m := by
  obtain ⟨part, hhanded, -, hpart⟩ := h.part
  rw [hhanded, List.mem_append, hpart, mem_getD_iff]

/-- **A call of `receive`.** -/
theorem Stored.receives (h : Stored s) (hr : Receives s s' broker subject) : Stored s' where
  buffered w hw := by
    obtain ⟨part, -, hwaiting, hpart⟩ := hr.part
    rw [hwaiting, List.mem_filter] at hw
    obtain ⟨hlisted, hholds⟩ := h.buffered w hw.1
    rw [hr.allBrokers]
    refine ⟨hlisted, hr.holds_iff.mpr ⟨hholds, fun ⟨hb, hs⟩ => ?_⟩⟩
    have hnot : w.message ∉ part := of_decide_eq_true hw.2
    rw [hpart, mem_getD_iff, ← hb, ← hs] at hnot
    exact hnot hholds
  nodup i sub buffers hbuf := by
    by_cases hat : i = broker ∧ sub = subject
    · obtain ⟨rfl, rfl⟩ := hat
      rw [hr.emptied buffers hbuf]
      exact List.nodup_nil
    · rw [hr.other i sub hat] at hbuf
      exact h.nodup i sub buffers hbuf
  number i sub m hm := by
    obtain ⟨hold, hat⟩ := hr.holds_iff.mp hm
    obtain ⟨hlt, hnot⟩ := h.number i sub m hold
    refine ⟨hr.arrived ▸ hlt, fun hmem => ?_⟩
    rcases hr.mem_handed_iff.mp hmem with hhanded | hpart
    · exact hnot hhanded
    · exact hat (h.apart i sub broker subject m hold hpart)
  apart i sub i' sub' m hm hm' :=
    h.apart i sub i' sub' m (hr.holds_iff.mp hm).1 (hr.holds_iff.mp hm').1
  handed m hm := by
    rw [hr.arrived]
    rcases hr.mem_handed_iff.mp hm with hhanded | hpart
    · exact h.handed m hhanded
    · exact (h.number broker subject m hpart).1
  once := by
    obtain ⟨part, hhanded, -, hpart⟩ := hr.part
    rw [hhanded]
    refine List.nodup_append.mpr ⟨h.once, ?_, ?_⟩
    · rw [hpart]
      cases hbuf : (s.objects broker).subject2Consumer subject with
      | none => exact List.nodup_nil
      | some buffers => exact h.nodup broker subject buffers hbuf
    · rintro a ha b hb rfl
      rw [hpart, mem_getD_iff] at hb
      exact (h.number broker subject a hb).2 ha

end Receive

/-! ## Whole runs -/

/-- The invariant. -/
structure ConnectionInv (s : BrokerConnection) : Prop extends Listed s, Stored s

/-- **The step lemma.** -/
theorem ConnectionInv.step (h : ConnectionInv s) (hop : op.NoneListedAgain s) :
    ConnectionInv (op.step s) := by
  cases op with
  | update children =>
      obtain ⟨hlisted, hstored⟩ := update_sound h.toListed h.toStored hop
      exact ⟨hlisted, hstored⟩
  | message broker subject =>
      rcases message_step s broker subject with hsame | harr
      · rw [hsame]
        exact h
      · exact ⟨h.toListed.same harr.toSameLists (harr.seed ▸ h.seed), h.toStored.arrives harr⟩
  | receive subject connects =>
      rcases receive_step_or s subject connects with hsame | ⟨i, -, hrec⟩
      · rw [hsame]
        exact h
      · refine ⟨h.toListed.same hrec.toSameLists ?_, h.toStored.receives hrec⟩
        rw [hrec.seed]
        exact Nat.mod_lt _ (by decide)

/-- Arrivals and calls list nobody. -/
theorem BrokerOp.Quiet.noneListedAgain (h : op.Quiet subject) (s : BrokerConnection) :
    op.NoneListedAgain s := by
  cases op with
  | update children => exact h.elim
  | message | receive => trivial

/-- What was handed out stays so. -/
theorem handed_step (hop : op.Quiet subject) (hm : m ∈ s.handed) : m ∈ (op.step s).handed := by
  cases op with
  | update children => exact hop.elim
  | message broker sub =>
      rcases message_step s broker sub with hsame | harr
      · rwa [hsame]
      · rwa [harr.handed]
  | receive sub connects =>
      rcases receive_step_or s sub connects with hsame | ⟨i, -, hrec⟩
      · rwa [hsame]
      · exact hrec.mem_handed_iff.mpr (Or.inl hm)

theorem handed_run (hlater : ∀ op ∈ later, op.Quiet subject) (hm : m ∈ s.handed) :
    m ∈ (runOps BrokerOp.step s later).handed := by
  induction later generalizing s with
  | nil => exact hm
  | cons op later ih =>
      exact ih (fun o ho => hlater o (List.mem_cons_of_mem _ ho))
        (handed_step (hlater op List.mem_cons_self) hm)

/-- **A message is handed out when the turn comes to its broker.** The turn is counted in calls of
`receive`, from the seed on. -/
theorem handed_of_turn (hlater : ∀ op ∈ later, op.Quiet subject) {k : ℕ}
    (hp : s.allBrokers[p]? = some i) (hm : Holds s i subject m) (hseed : s.allSeed < 2 ^ 32)
    (hk : k < later.countP BrokerOp.isReceive)
    (hturn : ((s.allSeed + k) % 2 ^ 32) % s.allBrokers.length = p) :
    m ∈ (runOps BrokerOp.step s later).handed := by
  induction later generalizing s k with
  | nil => simp at hk
  | cons op later ih =>
      have hrest := fun o ho => hlater o (List.mem_cons_of_mem op ho)
      have hop := hlater op List.mem_cons_self
      rw [runOps_cons]
      cases op with
      | update children => exact hop.elim
      | message broker sub =>
          have hk' : k < later.countP BrokerOp.isReceive := by
            simpa [List.countP_cons, BrokerOp.isReceive] using hk
          rcases message_step s broker sub with hsame | harr
          · rw [hsame]
            exact ih hrest hp hm hseed hk' hturn
          · refine ih hrest (by rwa [harr.allBrokers]) (harr.holds_iff.mpr (Or.inl hm))
              (harr.seed ▸ hseed) hk' ?_
            rwa [harr.seed, harr.allBrokers]
      | receive sub connects =>
          obtain rfl : sub = subject := hop
          have hk' : k < later.countP BrokerOp.isReceive + 1 := by
            simpa [List.countP_cons, BrokerOp.isReceive] using hk
          have hne : s.allBrokers ≠ [] := by
            intro he
            simp [he] at hp
          rcases receive_step_or s sub connects with hsame | ⟨j, hj, hrec⟩
          · have hlt := Nat.mod_lt s.allSeed (List.length_pos_iff.mpr hne)
            have hrec := receive_step s sub connects (List.getElem?_eq_getElem hlt)
            have hseed' := hrec.seed
            rw [hsame] at hseed'
            exact absurd hseed' (by omega)
          · by_cases hat : j = i
            · refine handed_run hrest (hrec.mem_handed_iff.mpr (Or.inr ?_))
              rwa [hat]
            · -- the turn was another's, and the one we wait for is one call nearer
              cases k with
              | zero =>
                  rw [Nat.add_zero, Nat.mod_eq_of_lt hseed] at hturn
                  rw [hturn, hp, Option.some_inj] at hj
                  exact absurd hj.symm hat
              | succ k =>
                  refine ih hrest (k := k) (by rwa [hrec.allBrokers])
                    (hrec.holds_iff.mpr ⟨hm, fun ⟨hi, _⟩ => hat hi.symm⟩) ?_ (by omega) ?_
                  · rw [hrec.seed]
                    exact Nat.mod_lt _ (by decide)
                  · rw [hrec.seed, hrec.allBrokers, Nat.mod_add_mod, Nat.add_assoc, Nat.add_comm 1 k]
                    exact hturn

/-- What the invariant is for. -/
theorem ConnectionInv.lawful (h : ConnectionInv s) : s.Lawful where
  kept := h.kept
  entries := h.entries
  valid := h.valid
  once := h.once
  delivered w hw later hlater hoften := by
    obtain ⟨hlisted, hholds⟩ := h.buffered w hw
    obtain ⟨p, hp⟩ := List.mem_iff_getElem?.mp hlisted
    have hlt := (List.getElem?_eq_some_iff.mp hp).1
    obtain ⟨k, hk, hturn⟩ := exists_turn h.seed h.small hlt
    have hmem := handed_of_turn hlater hp hholds h.seed (Nat.lt_of_lt_of_le hk hoften) hturn
    have hinv : ConnectionInv (runOps BrokerOp.step s later) :=
      run_invariant (C := fun s op => op.NoneListedAgain s) (fun _ _ h hop => h.step hop) h
        ((stepsMeet_of_forall s hlater).mono fun s _ hq => hq.noneListedAgain s)
    exact List.count_eq_one_of_mem hinv.once hmem

/-! ## The start -/

/-- The constructor makes an object for each child as well. -/
theorem getZKBrokers_new (hdesc : ∀ child ∈ childs, (parseChild child).isSome = true) :
    (s.getZKBrokers childs).allBrokers = s.allBrokers ++ List.range' s.made childs.length ∧
      Made { s with allBrokers := (s.getZKBrokers childs).allBrokers } (s.getZKBrokers childs)
        childs.length ∧
      List.Forall₂ (fun i child => (s.getZKBrokers childs).listedBy i child = true)
        (List.range' s.made childs.length) childs ∧
      (s.getZKBrokers childs).waiting = s.waiting ∧ (s.getZKBrokers childs).previous = s.previous ∧
        (s.getZKBrokers childs).children = s.children := by
  induction childs generalizing s with
  | nil => exact ⟨by simp [BrokerConnection.getZKBrokers], Made.refl s, List.Forall₂.nil, rfl, rfl, rfl⟩
  | cons child childs ih =>
      obtain ⟨b, hb, hfresh⟩ := getZKBrokerInfo_of_parse s.cluster
        (hdesc child List.mem_cons_self)
      have hstep : s.getZKBrokers (child :: childs) =
          { s.alloc b with allBrokers := s.allBrokers ++ [s.made] }.getZKBrokers childs := by
        rw [BrokerConnection.getZKBrokers, hb]
      obtain ⟨hall, hmade, hlisted, hwaiting, hprev, hchildren⟩ :=
        ih (s := { s.alloc b with allBrokers := s.allBrokers ++ [s.made] })
          fun c hc => hdesc c (List.mem_cons_of_mem _ hc)
      rw [← hstep] at hall hmade hlisted hwaiting hprev hchildren
      have hfirst := Made.alloc
        { s with allBrokers := (s.getZKBrokers (child :: childs)).allBrokers } hfresh
      have hobj : (s.getZKBrokers (child :: childs)).objects s.made = b := by
        rw [hmade.old s.made (Nat.lt_succ_self _)]
        exact update_self _ _ _
      refine ⟨?_, ?_, ?_, hwaiting, hprev, hchildren⟩
      · rw [hall, List.length_cons, List.range'_succ]
        simp [BrokerConnection.alloc]
      · have htrans := hfirst.trans hmade
        rw [Nat.add_comm] at htrans
        exact htrans
      · rw [List.length_cons, List.range'_succ]
        refine List.Forall₂.cons ?_ hlisted
        have hcluster : (s.getZKBrokers (child :: childs)).cluster = s.cluster := hmade.cluster
        simp [BrokerConnection.listedBy, hcluster, hb, hobj, equals_self]

/-- A new connection has the brokers of its children. -/
theorem ConnectionInv.new (cluster : List Byte) (children : Children) :
    ConnectionInv (.new cluster children) := by
  obtain ⟨hall, hmade, hlisted, hwaiting, hprev, hchildren⟩ :=
    getZKBrokers_new (s := .empty cluster children.list) children.described
  unfold BrokerConnection.new
  dsimp only
  generalize BrokerConnection.getZKBrokers (.empty cluster children.list) children.list = s at *
  have hholds (i : ℕ) (subject : List Byte) (m : ℕ) : ¬ Holds s i subject m := by
    intro hm
    obtain ⟨buffers, hbuf, -⟩ := hmade.holds hm
    cases hbuf
  have hbrokers : s.allBrokers = List.range' 0 children.list.length := hall
  have hhanded : s.handed = [] := hmade.handed
  refine ⟨⟨fun j _ ⟨i, hi, _⟩ => ?_, ?_, rfl, fun i hi => ?_, ?_, ?_⟩, ⟨fun w hw => ?_,
    fun i subject buffers hbuf => ?_, fun i subject m hm => absurd hm (hholds i subject m),
    fun i subject _ _ m hm => absurd hm (hholds i subject m), fun m hm => ?_, ?_⟩⟩
  · rw [show s.previous = [] from hprev] at hi
    cases hi
  · rw [show s.children = children.list from hchildren, hbrokers]
    exact hlisted
  · have hi' : i ∈ List.range' 0 children.list.length := hbrokers ▸ hi
    have hmade' : s.made = 0 + children.list.length := hmade.made
    have hlt := (List.mem_range'_1.mp hi').2
    show i < s.made
    omega
  · show s.allBrokers.length < 2 ^ 31
    rw [hbrokers, List.length_range']
    exact children.countable
  · rw [show s.allSeed = 0 from hmade.allSeed]
    decide
  · rw [show s.waiting = [] from hwaiting] at hw
    cases hw
  · cases buffers with
    | nil => exact List.nodup_nil
    | cons m rest => exact absurd ⟨m :: rest, hbuf, List.mem_cons_self⟩ (hholds i subject m)
  · rw [show s.handed = [] from hhanded] at hm
    cases hm
  · rw [show s.handed = [] from hhanded]
    exact List.nodup_nil

/-- **The law holds in every state of a run exactly when no update of the run lists a broker that is
listed already.** -/
theorem lawful_iff_noneListedAgain (cluster : List Byte) (children : Children) (ops : List BrokerOp) :
    (∀ k, (runOps BrokerOp.step (.new cluster children) (ops.take k)).Lawful) ↔
      StepsMeet BrokerOp.step (fun s op => op.NoneListedAgain s) (.new cluster children) ops := by
  refine @forall_take_iff_stepsMeet _ _ BrokerOp.step (fun s op => op.NoneListedAgain s) ConnectionInv
    BrokerConnection.Lawful (fun _ h => h.lawful) (fun _ _ h hop => h.step hop)
    (fun s op h hlaw => ?_) _ (ConnectionInv.new cluster children) ops
  cases op with
  | update children => exact noneListedAgain_of_kept h.toListed hlaw.kept
  | message | receive => trivial

/-! ## What goes wrong -/

/-- One broker. -/
def oneBroker : Children where
  list := [ascii "h|1|ONLINE"]
  described := by decide
  countable := by decide

/-- A message arrives, ZooKeeper lists the same broker again, and the message is asked for. -/
def listedAgain : List BrokerOp :=
  [.receive [1] true, .message 0 [1], .update oneBroker, .receive [1] true, .receive [1] true]

set_option maxRecDepth 8000 in
/-- The message is not handed out, and the broker has a new object. -/
theorem message_lost :
    (runOps BrokerOp.step (.new [] oneBroker) (listedAgain.take 2)).waiting = [⟨0, 0, [1]⟩] ∧
      (runOps BrokerOp.step (.new [] oneBroker) listedAgain).handed = [] ∧
      ¬ (runOps BrokerOp.step (.new [] oneBroker) listedAgain).Lawful := by
  refine ⟨by decide, by decide, fun h => ?_⟩
  have hkept := h.kept 1 (by decide) ⟨0, by decide, by decide⟩
  exact absurd hkept (by decide)

end Oce.MessagePipe
