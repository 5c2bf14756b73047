import Oce.OnlineCenter.Analysis.Avatars
import Oce.OnlineCenter.Analysis.Lists

/-!
# The users and the lists of a pool

`Linked` says that what the users keep is what the lists hold. The one thing that breaks it is
a presence that is refused: its avatar has been pushed to a list by then, and stays there with
no user that keeps it. `linked_step` is the step lemma for all the others.

That every user is settled (`UsersSettled`) needs no such condition.
-/

set_option autoImplicit false

namespace Oce.OnlineCenter

open Oce.Base Oce.TalkCommon

variable {lists lists' : AvatarLists} {users : OrdMap ℤ User} {u u' : User} {nodes nodes' : ℕ}
  {userId index i j : ℤ} {pos q : Pos} {p : UserPool}

variable {avatar : Avatar} {s : AvatarLists × User}

/-! ## What the users keep -/

/-- The user keeps `pos` at `index`. -/
def Keeps (users : OrdMap ℤ User) (userId index : ℤ) (pos : Pos) : Prop :=
  ∃ u, users.find userId = some u ∧ u.avatars.find index = some pos

theorem keeps_insert : Keeps (users.insert userId u) i j q ↔
    if i = userId then u.avatars.find j = some q else Keeps users i j q := by
  unfold Keeps
  rw [OrdMap.find_insert]
  by_cases hi : i = userId <;> simp [hi]

/-- A user without avatars keeps as much as a user who is not there. -/
theorem keeps_erase (hu : u.avatars.entries = []) :
    Keeps (users.erase userId) i j q ↔ Keeps (users.insert userId u) i j q := by
  rw [keeps_insert]
  unfold Keeps
  rw [OrdMap.find_erase]
  by_cases hi : i = userId
  · simp [hi, OrdMap.find_eq_none_of_nil hu]
  · simp [hi]

/-- A user who is put back as found keeps what it kept. -/
theorem keeps_insert_self (hu : users.find userId = some u) :
    Keeps (users.insert userId u) i j q ↔ Keeps users i j q := by
  rw [keeps_insert]
  by_cases hi : i = userId
  · subst hi
    simp [Keeps, hu]
  · simp [hi]

/-! ## Users and lists -/

/-- The users keep what the lists hold, at the place that the jid says. -/
structure Linked (lists : AvatarLists) (users : OrdMap ℤ User) (nodes : ℕ) : Prop where
  ok : ListsOk lists nodes
  keeps_iff : ∀ i j q, Keeps users i j q ↔
    lists.Holds q ∧ q.avatar.jid.userId = i ∧ q.avatar.jid.index = j

theorem linked_congr {users' : OrdMap ℤ User} (h : Linked lists users nodes)
    (hkeeps : ∀ {i j q}, Keeps users' i j q ↔ Keeps users i j q) : Linked lists users' nodes :=
  ⟨h.ok, fun i j q => hkeeps.trans (h.keeps_iff i j q)⟩

/-- The user's avatar at `index` comes to be `pos`, in the lists and in the user. -/
theorem Linked.set (h : Linked lists (users.insert userId u) nodes) (hok : ListsOk lists' nodes')
    (huser : pos.avatar.jid.userId = userId) (hindex : pos.avatar.jid.index = index)
    (hfind : ∀ j, u'.avatars.find j = if j = index then some pos else u.avatars.find j)
    (hholds : ∀ q, lists'.Holds q ↔
      lists.Holds q ∧ ¬ (q.avatar.jid.userId = userId ∧ q.avatar.jid.index = index) ∨ q = pos) :
    Linked lists' (users.insert userId u') nodes' := by
  refine ⟨hok, fun i j q => ?_⟩
  have hold := h.keeps_iff i j q
  rw [keeps_insert] at hold ⊢
  rw [hholds, hfind]
  by_cases hi : i = userId
  · rw [if_pos hi] at hold ⊢
    by_cases hj : j = index
    · rw [if_pos hj, Option.some.injEq]
      subst hi hj
      constructor
      · rintro rfl
        exact ⟨.inr rfl, huser, hindex⟩
      · rintro ⟨⟨-, hne⟩ | rfl, hq⟩
        · exact absurd hq hne
        · rfl
    · rw [if_neg hj, hold]
      constructor
      · rintro ⟨hq, hqi, hqj⟩
        exact ⟨.inl ⟨hq, fun hne => hj (hqj.symm.trans hne.2)⟩, hqi, hqj⟩
      · rintro ⟨⟨hq, -⟩ | rfl, hqi, hqj⟩
        · exact ⟨hq, hqi, hqj⟩
        · exact absurd (hqj.symm.trans hindex) hj
  · rw [if_neg hi] at hold ⊢
    rw [hold]
    constructor
    · rintro ⟨hq, hqi, hqj⟩
      exact ⟨.inl ⟨hq, fun hne => hi (hqi.symm.trans hne.1)⟩, hqi, hqj⟩
    · rintro ⟨⟨hq, -⟩ | rfl, hqi, hqj⟩
      · exact ⟨hq, hqi, hqj⟩
      · exact absurd (hqi.symm.trans huser) hi

/-- The user's avatar at `index` goes, out of the lists and out of the user. -/
theorem Linked.drop (h : Linked lists (users.insert userId u) nodes)
    (hpos : u.avatars.find index = some pos) (hfind : u'.avatars = u.avatars.erase index) :
    Linked (lists.erase pos) (users.insert userId u') nodes := by
  have hkeeps : Keeps (users.insert userId u) userId index pos := by
    rw [keeps_insert, if_pos rfl]
    exact hpos
  obtain ⟨hholds, huser, hindex⟩ := (h.keeps_iff userId index pos).mp hkeeps
  refine ⟨h.ok.erase pos, fun i j q => ?_⟩
  have hold := h.keeps_iff i j q
  rw [holds_erase h.ok hholds]
  rw [keeps_insert] at hold ⊢
  by_cases hi : i = userId
  · rw [if_pos hi] at hold ⊢
    rw [hfind, OrdMap.find_erase]
    by_cases hj : j = index
    · subst hi hj
      rw [hpos, Option.some.injEq] at hold
      rw [if_pos rfl]
      refine ⟨nofun, ?_⟩
      rintro ⟨⟨hq, hne⟩, hqi, hqj⟩
      exact absurd (hold.mpr ⟨hq, hqi, hqj⟩).symm hne
    · rw [if_neg hj, hold]
      constructor
      · rintro ⟨hq, hqi, hqj⟩
        refine ⟨⟨hq, ?_⟩, hqi, hqj⟩
        rintro rfl
        exact hj (hqj.symm.trans hindex)
      · rintro ⟨⟨hq, -⟩, hqi, hqj⟩
        exact ⟨hq, hqi, hqj⟩
  · rw [if_neg hi] at hold ⊢
    rw [hold]
    constructor
    · rintro ⟨hq, hqi, hqj⟩
      refine ⟨⟨hq, ?_⟩, hqi, hqj⟩
      rintro rfl
      exact hi (hqi.symm.trans huser)
    · rintro ⟨⟨hq, -⟩, hqi, hqj⟩
      exact ⟨hq, hqi, hqj⟩

/-! ## The operations of a user -/

theorem Linked.add (h : Linked lists (users.insert userId u) nodes) (hpos : pos.node = nodes)
    (huser : pos.avatar.jid.userId = userId) (hacc : User.accepts pos.avatar.jid) :
    Linked (u.add (lists.pushBack pos) pos).2.1
      (users.insert userId (u.add (lists.pushBack pos) pos).2.2) (nodes + 1) := by
  have hok : ListsOk (lists.pushBack pos) (nodes + 1) := h.ok.pushBack hpos
  have hadded := User.added_eq u pos
  have hat : ∀ j q, u.avatars.find j = some q ↔
      lists.Holds q ∧ q.avatar.jid.userId = userId ∧ q.avatar.jid.index = j := by
    intro j q
    rw [← h.keeps_iff, keeps_insert, if_pos rfl]
  -- a new node is not in the lists yet
  have hfresh : ¬ lists.Holds pos := by
    intro hmem
    have := h.ok.fresh hmem
    omega
  cases hfind : u.avatars.find pos.avatar.jid.index with
  | none =>
      have hself : u.added pos = pos := by simp [User.added, hfind]
      rw [User.add_lists_new hacc hfind]
      refine h.set hok huser rfl (fun j => ?_) (fun q => ?_)
      · rw [User.find_add hacc, hself]
      · rw [holds_pushBack]
        refine or_congr_left (and_iff_left_of_imp fun hq hplace => ?_).symm
        have := (hat _ q).mpr ⟨hq, hplace⟩
        rw [hfind] at this
        cases this
  | some old =>
      obtain ⟨hold, holdUser, holdIndex⟩ := (hat _ old).mp hfind
      have hkind : pos.kind = (u.added pos).kind := by
        unfold Pos.kind
        rw [hadded.2]
      have hin : (lists.pushBack pos).Holds pos := holds_pushBack.mpr (.inr rfl)
      have hassign := fun q => holds_assign (q := q) hok hin hkind hadded.1.symm
      have hokAssign := hok.assign hin hkind hadded.1.symm
      have hne : old ≠ pos := by
        rintro rfl
        exact hfresh hold
      have hne' : old ≠ u.added pos := by
        intro heq
        have := h.ok.fresh hold
        rw [heq, hadded.1] at this
        omega
      have holdIn : ((lists.pushBack pos).assign (u.added pos)).Holds old :=
        (hassign old).mpr (.inl ⟨holds_pushBack.mpr (.inl hold), hne⟩)
      rw [User.add_lists_replaced hacc hfind]
      refine h.set (hokAssign.erase old) (by rw [hadded.2]; exact huser) (by rw [hadded.2])
        (fun j => User.find_add hacc j) (fun q => ?_)
      rw [holds_erase hokAssign holdIn, hassign, holds_pushBack]
      constructor
      · rintro ⟨⟨hq | rfl, hqpos⟩ | rfl, hqold⟩
        · refine .inl ⟨hq, fun hplace => hqold ?_⟩
          have := (hat _ q).mpr ⟨hq, hplace⟩
          rw [hfind] at this
          exact (Option.some.inj this).symm
        · exact absurd rfl hqpos
        · exact .inr rfl
      · rintro (⟨hq, hplace⟩ | rfl)
        · refine ⟨.inl ⟨.inl hq, ?_⟩, ?_⟩
          · rintro rfl
            exact hfresh hq
          · rintro rfl
            exact hplace ⟨holdUser, holdIndex⟩
        · exact ⟨.inr rfl, hne'.symm⟩

theorem Linked.remove (h : Linked lists (users.insert userId u) nodes) (index : ℤ) :
    Linked (u.remove lists index).1 (users.insert userId (u.remove lists index).2) nodes := by
  cases hfind : u.avatars.find index with
  | none =>
      rw [User.remove_absent hfind]
      exact h
  | some pos =>
      have := h.drop hfind (User.avatars_remove u lists index)
      rw [User.remove_found hfind] at this ⊢
      exact this

/-- The loop over the avatars, each of which the user still has when its turn comes. -/
theorem Linked.foldl_removeAt (endpoint : String) {l : List (ℤ × Pos)}
    (h : Linked lists (users.insert userId u) nodes) (hnodup : (l.map Prod.fst).Nodup)
    (hfind : ∀ e ∈ l, u.avatars.find e.1 = some e.2) :
    let s := l.foldl (User.removeAt endpoint) (lists, u)
    Linked s.1 (users.insert userId s.2) nodes := by
  induction l generalizing lists u with
  | nil => exact h
  | cons e l ih =>
      rw [List.map_cons, List.nodup_cons] at hnodup
      rw [List.foldl_cons]
      unfold User.removeAt
      by_cases hend : e.2.avatar.jid.endpoint ≠ endpoint
      · rw [if_pos hend]
        exact ih h hnodup.2 fun e' he' => hfind e' (List.mem_cons_of_mem _ he')
      · rw [if_neg hend]
        refine ih (h.drop (hfind e (by simp)) rfl) hnodup.2 fun e' he' => ?_
        have hne : e'.1 ≠ e.1 := by
          intro heq
          exact hnodup.1 (heq ▸ List.mem_map_of_mem he')
        rw [OrdMap.find_erase, if_neg hne]
        exact hfind e' (List.mem_cons_of_mem _ he')

theorem Linked.removeEndpoint (h : Linked lists (users.insert userId u) nodes) (endpoint : String) :
    Linked (u.removeEndpoint lists endpoint).1
      (users.insert userId (u.removeEndpoint lists endpoint).2) nodes := by
  have hnodup : (u.avatars.entries.map Prod.fst).Nodup := u.avatars.sorted.imp ne_of_lt
  have hloop := h.foldl_removeAt endpoint hnodup
    fun e he => u.avatars.mem_entries_iff.mp he
  unfold User.removeEndpoint
  dsimp only at hloop ⊢
  split_ifs with hnil
  · exact hloop
  · refine linked_congr hloop ?_
    intro i j q
    rw [keeps_insert, keeps_insert, User.avatars_update]

/-! ## The operations of the pool -/

/-- A presence whose endpoint is taken. -/
theorem UserPool.add_eq (h : User.accepts avatar.jid) : let u := (p.users.find avatar.jid.userId).getD User.new
    let r := u.add (p.avatars.pushBack ⟨p.nodes, avatar⟩) ⟨p.nodes, avatar⟩
    p.add avatar = (true, ⟨p.users.insert avatar.jid.userId r.2.2, r.2.1, p.nodes + 1⟩) := by
  have hne : avatar.jid.endpoint ≠ "" := by
    intro hempty
    simp [User.accepts, hempty] at h
  have hsuccess : ∀ u : User,
      (u.add (p.avatars.pushBack ⟨p.nodes, avatar⟩) ⟨p.nodes, avatar⟩).1 = true :=
    fun u => User.add_success h
  dsimp only
  unfold UserPool.add
  rw [if_neg hne]
  cases hfind : p.users.find avatar.jid.userId with
  | none => simp [hsuccess, hfind]
  | some u => simp [hsuccess, hfind]

/-- A presence that is refused, but not for an empty endpoint: its avatar stays in a list. -/
theorem UserPool.add_refused (h : User.accepts avatar.jid = false)
    (hne : avatar.jid.endpoint ≠ "") :
    (p.add avatar).1 = false ∧ (p.add avatar).2.avatars = p.avatars.pushBack ⟨p.nodes, avatar⟩ := by
  unfold UserPool.add
  rw [if_neg hne]
  have hrefused : ∀ u : User, u.add (p.avatars.pushBack ⟨p.nodes, avatar⟩) ⟨p.nodes, avatar⟩ =
      (false, p.avatars.pushBack ⟨p.nodes, avatar⟩, u) :=
    fun u => User.add_refused h
  cases hfind : p.users.find avatar.jid.userId with
  | none => simp [hrefused, hfind]
  | some u => simp [hrefused, hfind]

theorem linked_put (h : Linked s.1 (p.users.insert userId s.2) p.nodes) :
    Linked (p.put userId s).avatars (p.put userId s).users (p.put userId s).nodes := by
  unfold UserPool.put
  dsimp only
  split_ifs with hnil
  · exact linked_congr h fun {i j q} => keeps_erase (by simpa using hnil)
  · exact h

/-- The users and the lists of a pool are linked. -/
def PoolLinked (p : UserPool) : Prop := Linked p.avatars p.users p.nodes

theorem poolLinked_empty : PoolLinked .empty := by
  refine ⟨listsOk_nil, fun i j q => ?_⟩
  constructor
  · rintro ⟨u, hu, -⟩
    cases hu
  · rintro ⟨hq, -⟩
    cases hq

theorem PoolLinked.user (h : PoolLinked p) (hu : p.users.find userId = some u) :
    Linked p.avatars (p.users.insert userId u) p.nodes :=
  linked_congr h fun {_ _ _} => keeps_insert_self hu

/-- A presence that the pool takes, or one that throws. -/
def PoolOp.Taken (_ : UserPool) : PoolOp → Prop
  | .presence avatar => User.accepts avatar.jid ∨ avatar.jid.endpoint = ""
  | _ => True

theorem linked_add (h : PoolLinked p) (ha : User.accepts avatar.jid ∨ avatar.jid.endpoint = "") :
    PoolLinked (p.add avatar).2 := by
  rcases ha with hacc | hempty
  · rw [UserPool.add_eq hacc]
    refine Linked.add ?_ rfl rfl hacc
    refine linked_congr h fun {i j q} => ?_
    cases hfind : p.users.find avatar.jid.userId with
    | some u => exact keeps_insert_self hfind
    | none =>
        rw [keeps_insert]
        by_cases hi : i = avatar.jid.userId
        · subst hi
          simp [Keeps, hfind, User.new]
        · simp [hi]
  · unfold UserPool.add
    rw [if_pos hempty]
    exact h

theorem linked_remove (h : PoolLinked p) (jid : Jid) : PoolLinked (p.remove jid) := by
  unfold UserPool.remove
  cases hfind : p.users.find jid.userId with
  | none => exact h
  | some u => exact linked_put ((h.user hfind).remove jid.index)

theorem linked_removeEndpointOf (h : PoolLinked p) (endpoint : String) (userId : ℤ) :
    PoolLinked (p.removeEndpointOf endpoint userId) := by
  unfold UserPool.removeEndpointOf
  cases hfind : p.users.find userId with
  | none => exact h
  | some u => exact linked_put ((h.user hfind).removeEndpoint endpoint)

/-- **What the users keep is what the lists hold, as long as no presence is refused.** -/
theorem linked_step (p : UserPool) (a : PoolOp) (h : PoolLinked p) (ha : a.Taken p) :
    PoolLinked (a.step p) := by
  cases a with
  | presence avatar => exact linked_add h ha
  | offline jid => exact linked_remove h jid
  | removeEndpoint endpoint =>
      exact List.foldlRecOn _ _ h fun p hp userId _ => linked_removeEndpointOf hp endpoint userId

/-! ## Every user is settled -/

def UsersSettled (p : UserPool) : Prop := ∀ userId u, p.users.find userId = some u → u.Settled

theorem usersSettled_put (h : UsersSettled p) (hs : s.2.avatars.entries ≠ [] → s.2.Settled) :
    UsersSettled (p.put userId s) := by
  intro i u hu
  unfold UserPool.put at hu
  dsimp only at hu
  split_ifs at hu with hnil
  · rw [OrdMap.find_erase] at hu
    split_ifs at hu
    exact h i u hu
  · rw [OrdMap.find_insert] at hu
    split_ifs at hu
    · cases hu
      exact hs (by simpa using hnil)
    · exact h i u hu

/-- An added avatar leaves its user settled. -/
theorem usersSettled_add (h : UsersSettled p) : UsersSettled (p.add avatar).2 := by
  by_cases hacc : User.accepts avatar.jid
  · rw [UserPool.add_eq hacc]
    intro i u hu
    dsimp only at hu
    rw [OrdMap.find_insert] at hu
    split_ifs at hu
    · cases hu
      refine User.settled_add hacc ?_
      cases hfind : p.users.find avatar.jid.userId with
      | none => exact User.accepted_new
      | some u => exact (h _ u hfind).accepted
    · exact h i u hu
  · have hrefused : User.accepts avatar.jid = false := by simpa using hacc
    have hadd (u : User) (lists : AvatarLists) :
        u.add lists ⟨p.nodes, avatar⟩ = (false, lists, u) := User.add_refused hrefused
    intro i u hu
    unfold UserPool.add at hu
    by_cases hempty : avatar.jid.endpoint = ""
    · rw [if_pos hempty] at hu
      exact h i u hu
    · rw [if_neg hempty] at hu
      cases hfind : p.users.find avatar.jid.userId with
      | none =>
          simp only [hfind, hadd] at hu
          exact h i u hu
      | some u' =>
          simp only [hfind, hadd] at hu
          rw [OrdMap.find_insert] at hu
          split_ifs at hu with hi
          · cases hu
            exact h _ u hfind
          · exact h i u hu

theorem usersSettled_remove (h : UsersSettled p) (jid : Jid) : UsersSettled (p.remove jid) := by
  unfold UserPool.remove
  cases hfind : p.users.find jid.userId with
  | none => exact h
  | some u => exact usersSettled_put h fun hleft => (h _ u hfind).remove hleft

theorem usersSettled_removeEndpointOf (h : UsersSettled p) (endpoint : String) (userId : ℤ) :
    UsersSettled (p.removeEndpointOf endpoint userId) := by
  unfold UserPool.removeEndpointOf
  cases hfind : p.users.find userId with
  | none => exact h
  | some u => exact usersSettled_put h fun hleft => (h _ u hfind).removeEndpoint hleft

theorem usersSettled_step (p : UserPool) (a : PoolOp) (h : UsersSettled p) :
    UsersSettled (a.step p) := by
  cases a with
  | presence avatar => exact usersSettled_add h
  | offline jid => exact usersSettled_remove h jid
  | removeEndpoint endpoint =>
      exact List.foldlRecOn _ _ h fun p hp userId _ =>
        usersSettled_removeEndpointOf hp endpoint userId

theorem usersSettled_run (ops : List PoolOp) : UsersSettled (runOps PoolOp.step .empty ops) :=
  run_invariant_all usersSettled_step (fun _ _ h => by cases h) ops

/-- An avatar of the sample runs. -/
def sampleAvatar (userId : ℤ) (endpoint : String) (index : ℤ) (stat : OnlineStat) : Avatar :=
  ⟨⟨userId, endpoint, index⟩, stat, "", "", 0⟩

end Oce.OnlineCenter
