import Oce.OnlineCenter.Analysis.Registry

/-!
# What the queries of a pool answer

`select` tells the kinds by the index, and stops at the first client avatar when clients are
not asked for. It answers what is asked for exactly when no avatar that is asked for comes
after a client avatar that is not: `select_length` compares the lengths, for the answer is a
part of the right one. `takeOldest` stops at once when it is not to begin at the first element.
-/

set_option autoImplicit false

namespace Oce.OnlineCenter

open Oce.Base Oce.TalkCommon

variable {u : User} {mask : ℕ} {p : UserPool}

/-! ## By kind -/

/-- SOURCE: User.cpp:149 -/
def kindOfIndex (index : ℤ) : ℕ :=
  if index = 0 then wpOnline else if index = 2 then phoneOnline else imOnline

/-- The avatars whose index says that they are asked for. -/
def asked (mask : ℕ) (l : List (ℤ × Pos)) : List (ℤ × Pos) :=
  l.filter fun e => mask &&& kindOfIndex e.1 ≠ 0

theorem select_cons (e : ℤ × Pos) (l : List (ℤ × Pos)) :
    User.select mask (e :: l) =
      if mask &&& kindOfIndex e.1 ≠ 0 then e.2.avatar :: User.select mask l
      else if kindOfIndex e.1 = imOnline then [] else User.select mask l := by
  rw [User.select]
  unfold kindOfIndex
  by_cases h0 : e.1 = 0
  · rw [if_pos h0, if_pos h0, if_neg (show wpOnline ≠ imOnline by decide)]
  rw [if_neg h0, if_neg h0]
  by_cases h2 : e.1 = 2
  · rw [if_pos h2, if_pos h2, if_neg (show phoneOnline ≠ imOnline by decide)]
  · rw [if_neg h2, if_neg h2, if_pos rfl]

/-- Nothing that is asked for comes after a client avatar that is not. -/
def NoneBehind (mask : ℕ) (l : List (ℤ × Pos)) : Prop :=
  l.Pairwise fun e e' => kindOfIndex e.1 = imOnline → mask &&& kindOfIndex e.1 = 0 →
    mask &&& kindOfIndex e'.1 = 0

theorem select_of_noneBehind {l : List (ℤ × Pos)} (h : NoneBehind mask l) :
    User.select mask l = (asked mask l).map fun e => e.2.avatar := by
  induction l with
  | nil => rfl
  | cons e l ih =>
      obtain ⟨he, hl⟩ := List.pairwise_cons.mp h
      rw [select_cons]
      unfold asked
      by_cases hask : mask &&& kindOfIndex e.1 ≠ 0
      · rw [if_pos hask, ih hl, List.filter_cons_of_pos (by simpa using hask)]
        rfl
      · rw [if_neg hask, List.filter_cons_of_neg (by simpa using hask)]
        split_ifs with hkind
        · have hnil : (l.filter fun e => mask &&& kindOfIndex e.1 ≠ 0) = [] := by
            apply List.filter_eq_nil_iff.mpr
            intro e' he'
            simpa using he e' he' hkind (not_not.mp hask)
          rw [hnil]
          rfl
        · exact ih hl

/-- What is behind a client avatar is missing. -/
theorem select_length (l : List (ℤ × Pos)) :
    (User.select mask l).length ≤ (asked mask l).length ∧
      (¬ NoneBehind mask l → (User.select mask l).length < (asked mask l).length) := by
  induction l with
  | nil => exact ⟨Nat.le_refl _, fun h => absurd List.Pairwise.nil h⟩
  | cons e l ih =>
      rw [select_cons]
      unfold asked at *
      unfold NoneBehind at *
      rw [List.pairwise_cons]
      by_cases hask : mask &&& kindOfIndex e.1 ≠ 0
      · rw [if_pos hask, List.filter_cons_of_pos (by simpa using hask), List.length_cons,
          List.length_cons]
        refine ⟨Nat.succ_le_succ ih.1, fun h => Nat.succ_lt_succ (ih.2 fun hl => h ⟨?_, hl⟩)⟩
        intro e' _ _ hno
        exact absurd hno hask
      · rw [if_neg hask, List.filter_cons_of_neg (by simpa using hask)]
        split_ifs with hkind
        · refine ⟨Nat.zero_le _, fun h => ?_⟩
          rw [List.length_nil]
          apply List.length_pos_iff.mpr
          intro hnil
          have hall := List.filter_eq_nil_iff.mp hnil
          have hzero : ∀ e' ∈ l, mask &&& kindOfIndex e'.1 = 0 := by
            intro e' he'
            simpa using hall e' he'
          refine h ⟨fun e' he' _ _ => hzero e' he', ?_⟩
          exact List.pairwise_of_forall_mem_list fun _ _ e' he' _ _ => hzero e' he'
        · refine ⟨ih.1, fun h => ih.2 fun hl => h ⟨?_, hl⟩⟩
          intro _ _ hkind'
          exact absurd hkind' hkind

/-- The query by kind is right exactly when nothing that is asked for comes after a client
avatar that is not. -/
theorem select_eq_iff {β : Type*} (f : Avatar → β) (l : List (ℤ × Pos)) :
    (User.select mask l).map f = (asked mask l).map (fun e => f e.2.avatar) ↔ NoneBehind mask l := by
  constructor
  · intro h
    by_contra hbehind
    have hlt : (User.select mask l).length < (asked mask l).length := (select_length l).2 hbehind
    have hlen := congrArg List.length h
    rw [List.length_map, List.length_map] at hlen
    omega
  · intro h
    rw [select_of_noneBehind h, List.map_map]
    rfl

/-- The indexes of a user's avatars are those of their kinds. -/
def User.Conforms (u : User) : Prop :=
  ∀ index pos, u.avatars.find index = some pos → kindOfIndex index = pos.kind

/-- The avatars of a user whose kinds are in the mask. -/
def User.ofKinds (u : User) (mask : ℕ) : List Avatar :=
  (u.avatars.values.filter fun pos => mask &&& pos.kind ≠ 0).map Pos.avatar

theorem asked_eq_ofKinds (h : u.Conforms) :
    (asked mask u.avatars.entries).map (fun e => e.2.avatar) = u.ofKinds mask := by
  unfold asked User.ofKinds OrdMap.values
  rw [List.filter_map, List.map_map]
  refine congrArg (List.map _) (List.filter_congr ?_)
  rintro ⟨index, pos⟩ he
  simp [h index pos (u.avatars.mem_entries_iff.mp he)]

/-- **`getAvatars` answers the avatars of the kinds in the mask exactly when no web pager or
phone that is asked for comes after a client that is not.** -/
theorem getAvatars_eq_iff (h : u.Conforms) :
    u.getAvatars mask = u.ofKinds mask ↔ NoneBehind mask u.avatars.entries := by
  rw [← asked_eq_ofKinds h, ← select_eq_iff id, List.map_id]
  rfl

theorem getJidSeq_eq_iff (h : u.Conforms) :
    u.getJidSeq mask = (u.ofKinds mask).map Avatar.jid ↔ NoneBehind mask u.avatars.entries := by
  rw [← asked_eq_ofKinds h, ← select_eq_iff Avatar.jid, List.map_map]
  rfl

/-! ## The oldest -/

theorem takeOldest_eq {beg limit count : ℤ} (h : beg ≤ count) (l : List Pos) :
    UserPool.takeOldest beg limit count l =
      (l.take (beg + limit - count).toNat).map Pos.avatar := by
  induction l generalizing count with
  | nil => simp [UserPool.takeOldest]
  | cons pos l ih =>
      rw [UserPool.takeOldest]
      by_cases hlt : count - beg < limit
      · have hsucc : (beg + limit - count).toNat = (beg + limit - (count + 1)).toNat + 1 := by omega
        rw [if_pos ⟨h, hlt⟩, ih (by omega), hsucc, List.take_succ_cons, List.map_cons]
      · have hzero : (beg + limit - count).toNat = 0 := by omega
        rw [if_neg fun hc => hlt hc.2, hzero, List.take_zero, List.map_nil]

/-- The elements `beg` to `beg + limit - 1` of a list. -/
def slice (l : List Pos) (beg limit : ℤ) : List Avatar :=
  ((l.take (beg + limit).toNat).drop beg.toNat).map Pos.avatar

theorem slice_eq_nil {l : List Pos} {beg limit : ℤ} (h : 0 < beg) :
    slice l beg limit = [] ↔ limit ≤ 0 ∨ (l.length : ℤ) ≤ beg := by
  unfold slice
  rw [List.map_eq_nil_iff, List.drop_eq_nil_iff, List.length_take]
  omega

/-- **`getOldestAvatars` answers the elements that are asked for exactly when they begin with
the first one, or there are none.** -/
theorem getOldestAvatars_eq_iff (p : UserPool) (beg limit : ℤ) (type : ℕ) :
    p.getOldestAvatars beg limit type = slice (p.avatars type) beg limit ↔
      beg ≤ 0 ∨ limit ≤ 0 ∨ ((p.avatars type).length : ℤ) ≤ beg := by
  unfold UserPool.getOldestAvatars
  by_cases hbeg : beg ≤ 0
  · refine ⟨fun _ => .inl hbeg, fun _ => ?_⟩
    have hzero : beg.toNat = 0 := by omega
    rw [takeOldest_eq hbeg]
    unfold slice
    rw [hzero, List.drop_zero, Int.sub_zero]
  · have hnil : UserPool.takeOldest beg limit 0 (p.avatars type) = [] := by
      cases p.avatars type with
      | nil => rfl
      | cons pos l =>
          rw [UserPool.takeOldest, if_neg]
          omega
    rw [hnil, eq_comm, slice_eq_nil (by omega)]
    exact ⟨.inr, fun h => h.resolve_left hbeg⟩

/-! ## The registry -/

/-- Every user has avatars, and what each keeps is live; what the lists hold is kept once; the
type and the status of a user are those of the avatars. -/
structure Consistent (p : UserPool) : Prop where
  present : ∀ userId u, p.users.find userId = some u → u.avatars.entries ≠ []
  live : ∀ userId index pos, Keeps p.users userId index pos → pos ∈ p.avatars pos.kind
  nodup : ∀ kind, ((p.avatars kind).map Pos.node).Nodup
  once : ∀ kind, ∀ pos ∈ p.avatars kind, ∃! e : ℤ × ℤ,
    ∃ q, Keeps p.users e.1 e.2 q ∧ q.node = pos.node
  type_eq : ∀ userId u, p.users.find userId = some u →
    u.onlineType = (u.avatars.values.map Pos.kind).foldl (· ||| ·) unknowType
  stat_min : ∀ userId u, p.users.find userId = some u →
    (∃ pos ∈ u.avatars.values, pos.avatar.stat = u.onlineStat) ∧
      ∀ pos ∈ u.avatars.values, u.onlineStat.val ≤ pos.avatar.stat.val

theorem consistent_of_linked (h : PoolLinked p) (hu : UsersSettled p) : Consistent p where
  present userId u hfind := (hu userId u hfind).nonempty
  live userId index pos hkeeps := ((h.keeps_iff userId index pos).mp hkeeps).1
  nodup := h.ok.nodup
  once kind pos hpos := by
    have hholds : p.avatars.Holds pos := h.ok.holds hpos
    refine ⟨(pos.avatar.jid.userId, pos.avatar.jid.index),
      ⟨pos, (h.keeps_iff _ _ pos).mpr ⟨hholds, rfl, rfl⟩, rfl⟩, ?_⟩
    rintro ⟨userId, index⟩ ⟨q, hkeeps, hnode⟩
    obtain ⟨hq, huser, hindex⟩ := (h.keeps_iff userId index q).mp hkeeps
    have hqpos : q = pos := h.ok.node_inj hq hholds hnode
    rw [← hqpos]
    exact Prod.ext huser.symm hindex.symm
  type_eq userId u hfind := (hu userId u hfind).type_kinds
  stat_min userId u hfind :=
    ⟨(hu userId u hfind).stat_mem, fun _ hpos => (hu userId u hfind).stat_le hpos⟩

/-- A presence that is refused leaves the registry as it was exactly when its endpoint is empty. -/
theorem refused_unchanged_iff (h : PoolLinked p) {avatar : Avatar} (hrefused : (p.add avatar).1 = false) :
    ((p.add avatar).2.users = p.users ∧ (p.add avatar).2.avatars = p.avatars) ↔
      avatar.jid.endpoint = "" := by
  have hnot : User.accepts avatar.jid = false := by
    by_contra hacc
    rw [Bool.not_eq_false] at hacc
    rw [UserPool.add_eq hacc] at hrefused
    cases hrefused
  constructor
  · rintro ⟨-, hlists⟩
    by_contra hne
    rw [(UserPool.add_refused hnot hne).2] at hlists
    have hmem : p.avatars.Holds ⟨p.nodes, avatar⟩ := by
      rw [← hlists]
      exact holds_pushBack.mpr (.inr rfl)
    exact absurd (h.ok.fresh hmem) (Nat.lt_irrefl _)
  · intro hempty
    unfold UserPool.add
    rw [if_pos hempty]
    exact ⟨rfl, rfl⟩

/-- **In every run that is not sent a presence that the pool refuses, the registry is
consistent; a query by kind is right exactly when nothing asked for comes after a client that
is not, and a query of the oldest exactly when it begins with the first or asks for none.** -/
theorem registry_consistent (ops : List PoolOp) (h : StepsMeet PoolOp.step PoolOp.Taken .empty ops) :
    let p := runOps PoolOp.step .empty ops
    Consistent p ∧
      (∀ avatar, (p.add avatar).1 = false →
        ((p.add avatar).2.users = p.users ∧ (p.add avatar).2.avatars = p.avatars ↔
          avatar.jid.endpoint = "")) ∧
      (∀ userId u mask, p.users.find userId = some u → u.Conforms →
        (u.getAvatars mask = u.ofKinds mask ↔ NoneBehind mask u.avatars.entries) ∧
          (u.getJidSeq mask = (u.ofKinds mask).map Avatar.jid ↔
            NoneBehind mask u.avatars.entries)) ∧
      ∀ beg limit type, p.getOldestAvatars beg limit type = slice (p.avatars type) beg limit ↔
        beg ≤ 0 ∨ limit ≤ 0 ∨ ((p.avatars type).length : ℤ) ≤ beg := by
  intro p
  have hlinked : PoolLinked p := run_invariant linked_step poolLinked_empty h
  refine ⟨consistent_of_linked hlinked (usersSettled_run ops), ?_, ?_, ?_⟩
  · intro avatar hrefused
    exact refused_unchanged_iff hlinked hrefused
  · intro userId u mask _ hconforms
    exact ⟨getAvatars_eq_iff hconforms, getJidSeq_eq_iff hconforms⟩
  · exact getOldestAvatars_eq_iff p

/-! ## Sample runs -/

def pagerRun : List PoolOp :=
  [.presence (sampleAvatar 1 "T:p1" 77 .online), .presence (sampleAvatar 1 "WPage" 0 .busy),
    .presence (sampleAvatar 1 "T:p1" 77 .away), .removeEndpoint "T:p1"]

/-- A client and a web pager come on, the client again, and the client's proxy goes. -/
theorem registry_consistent_pager :
    Consistent (runOps PoolOp.step .empty pagerRun) ∧
      (runOps PoolOp.step .empty pagerRun).getOldestAvatars 0 5 wpOnline =
        [sampleAvatar 1 "WPage" 0 .busy] :=
  ⟨(registry_consistent pagerRun
      ⟨.inl (by decide), .inl (by decide), .inl (by decide), trivial, trivial⟩).1, by decide⟩

/-- A presence of an unknown kind is refused, and leaves an avatar that no user keeps. -/
theorem refused_presence_stays :
    let p := (UserPool.empty.add (sampleAvatar 1 "X1" 5 .online)).2
    (UserPool.empty.add (sampleAvatar 1 "X1" 5 .online)).1 = false ∧
      p.avatars unknowType = [⟨0, sampleAvatar 1 "X1" 5 .online⟩] ∧
      ¬ Consistent p := by
  refine ⟨by decide, by decide, fun h => ?_⟩
  obtain ⟨e, ⟨q, ⟨u, hu, -⟩, -⟩, -⟩ := h.once unknowType ⟨0, sampleAvatar 1 "X1" 5 .online⟩ (by decide)
  have hnone : (UserPool.empty.add (sampleAvatar 1 "X1" 5 .online)).2.users.find e.1 = none := rfl
  rw [hnone] at hu
  cases hu

end Oce.OnlineCenter
