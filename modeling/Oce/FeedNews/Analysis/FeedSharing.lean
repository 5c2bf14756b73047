import Mathlib.Algebra.BigOperators.Group.List.Basic
import Mathlib.Algebra.GroupWithZero.Nat
import Mathlib.Data.List.Induction
import Oce.Base.Counted
import Oce.FeedNews.Analysis.RingLaw
import Oce.FeedNews.Model.FeedPool

/-!
# Feeds are shared and freed

The count of a feed is what holds it: the handles, in and outside the calls, and the calls with
its pointer. A section changes the count of one feed and the holders of that feed alike, so the
invariant is kept by one lemma for all sections that leave the feed there; the others are the
first section that makes a feed and the last one that deletes it. The second section of a call
need not look whether the count is zero, for the handle of the call holds the feed.
-/

set_option autoImplicit false

namespace Oce.FeedNews.PoolState

open Oce.Base

/-! ## What holds in every state -/

/-- One feed for an id; the maps point to the feeds and to nothing else; the counts are right, and a
feed is there as long as something holds it. -/
structure Shared (s : PoolState) : Prop where
  one : ∀ f g x y, s.heap f = some x → s.heap g = some y → x.id = y.id → f = g
  live : ∀ i id f, s.feedMap i id = some f → ∃ x, s.heap f = some x ∧ x.id = id
  mapped : ∀ f x, s.heap f = some x → ∃ i, getIndex x.id = some i ∧ s.feedMap i x.id = some f
  count : ∀ f x, s.heap f = some x → x.refCount = s.refs f
  freed : ∀ f, s.heap f = none ↔ s.refs f = 0

/-- Also, a shard has its own ids only, and the section of a call is in the shard of its feed. -/
structure Inv (s : PoolState) : Prop where
  live : ∀ i id f, s.feedMap i id = some f → getIndex id = some i ∧ ∃ x, s.heap f = some x ∧ x.id = id
  mapped : ∀ f x, s.heap f = some x → ∃ i, getIndex x.id = some i ∧ s.feedMap i x.id = some f
  count : ∀ f x, s.heap f = some x → x.refCount = s.refs f
  freed : ∀ f, s.heap f = none ↔ s.refs f = 0
  locked : ∀ c ∈ s.calls, ∃ x, s.heap c.feed = some x ∧ getIndex x.id = some c.index

theorem Inv.shared {s : PoolState} (h : Inv s) : Shared s where
  one f g x y hf hg hid := by
    obtain ⟨i, hi, hmap⟩ := h.mapped f x hf
    obtain ⟨j, hj, hmap'⟩ := h.mapped g y hg
    rw [← hid, hi] at hj
    cases hj
    rw [← hid, hmap] at hmap'
    exact Option.some_inj.mp hmap'
  live i id f hmap := (h.live i id f hmap).2
  mapped := h.mapped
  count := h.count
  freed := h.freed

theorem setMap_feedMap (s : PoolState) (i : ℕ) (id : ℤ) (o : Option ℕ) (j : ℕ) (id' : ℤ) :
    (s.setMap i id o).feedMap j id' = if j = i ∧ id' = id then o else s.feedMap j id' := by
  show Function.update s.feedMap i _ j id' = _
  by_cases hj : j = i
  · subst hj
    rw [Function.update_self]
    by_cases hid : id' = id
    · rw [hid, Function.update_self, if_pos ⟨rfl, rfl⟩]
    · rw [Function.update_of_ne hid, if_neg fun hboth => hid hboth.2]
  · rw [Function.update_of_ne hj, if_neg fun hboth => hj hboth.1]

theorem inv_new : Inv new where
  live _ _ _ h := nomatch h
  mapped _ _ h := nomatch h
  count _ _ h := nomatch h
  freed _ := ⟨fun _ => rfl, fun _ => rfl⟩
  locked _ h := nomatch h

theorem getIndex_isSome (feedId : ℤ) : (getIndex feedId).isSome = true ↔ feedId.natAbs < 2 ^ 63 := by
  unfold getIndex
  dsimp only
  split_ifs <;> simp <;> omega

/-! ## Counts -/

/-- How often a call holds the feed. -/
def callRefs (f : ℕ) (c : PoolCall) : ℕ :=
  if c.feed = f then if c.constructed then 2 else 1 else 0

/-- The references of a feed: its handles and its calls. -/
theorem refs_eq (s : PoolState) (f : ℕ) : s.refs f = s.handles.count f + (s.calls.map (callRefs f)).sum := by
  unfold refs liveHandles rawPointers
  rw [List.count_append, Nat.add_assoc]
  refine congrArg _ ?_
  induction s.calls with
  | nil => rfl
  | cons c calls ih =>
      rw [List.map_cons, List.map_cons, List.sum_cons, ← ih, List.count_cons, List.filter_cons]
      unfold callRefs
      by_cases hf : c.feed = f
      · cases hc : c.constructed with
        | true =>
            rw [if_pos rfl, List.map_cons, List.count_cons, if_pos hf, if_pos rfl]
            simp only [hf, beq_self_eq_true, if_true]
            omega
        | false =>
            rw [if_neg Bool.false_ne_true, if_pos hf, if_neg Bool.false_ne_true]
            simp only [hf, beq_self_eq_true, if_true]
            omega
      · have hb : (c.feed == f) = false := beq_eq_false_iff_ne.mpr hf
        rw [hb, if_neg hf, if_neg Bool.false_ne_true]
        split
        · rw [List.map_cons, List.count_cons, hb, if_neg Bool.false_ne_true]
          omega
        · omega

theorem count_eraseIdx {l : List ℕ} {k f : ℕ} (h : l[k]? = some f) (g : ℕ) :
    (l.eraseIdx k).count g + (if f = g then 1 else 0) = l.count g := by
  rw [(perm_of_getElem? h).count_eq, List.count_cons]
  simp

/-! ## Sections that leave the feed there -/

section Sections

variable {s s' : PoolState} {f : ℕ} {x : CountedFeed}

/-- **A section that changes the count of a feed as it changes what holds it.** -/
theorem Inv.recount (h : Inv s) (hf : s.heap f = some x) {n : ℤ}
    (hheap : s'.heap = Function.update s.heap f (some { x with refCount := n }))
    (hmap : s'.feedMap = s.feedMap) (hn : n = s'.refs f) (hpos : 0 < s'.refs f)
    (hother : ∀ g, g ≠ f → s'.refs g = s.refs g)
    (hlocked : ∀ c ∈ s'.calls, ∃ y, s.heap c.feed = some y ∧ getIndex y.id = some c.index) : Inv s' := by
  have hself : s'.heap f = some { x with refCount := n } := hheap ▸ Function.update_self _ _ _
  have hne : ∀ g, g ≠ f → s'.heap g = s.heap g := fun g hg => hheap ▸ Function.update_of_ne hg _ _
  have hid : ∀ g y, s.heap g = some y → ∃ z, s'.heap g = some z ∧ z.id = y.id := by
    intro g y hy
    by_cases hg : g = f
    · subst hg
      rw [hf] at hy
      cases hy
      exact ⟨_, hself, rfl⟩
    · exact ⟨y, (hne g hg).trans hy, rfl⟩
  refine ⟨fun i id g hg => ?_, fun g y hy => ?_, fun g y hy => ?_, fun g => ?_, fun c hc => ?_⟩
  · obtain ⟨hi, y, hy, heq⟩ := h.live i id g (hmap ▸ hg)
    obtain ⟨z, hz, hzid⟩ := hid g y hy
    exact ⟨hi, z, hz, hzid.trans heq⟩
  · rw [hmap]
    by_cases hg : g = f
    · subst hg
      rw [hself] at hy
      cases hy
      exact h.mapped g x hf
    · exact h.mapped g y ((hne g hg).symm.trans hy)
  · by_cases hg : g = f
    · subst hg
      rw [hself] at hy
      cases hy
      exact hn
    · rw [hother g hg]
      exact h.count g y ((hne g hg).symm.trans hy)
  · by_cases hg : g = f
    · subst hg
      rw [hself]
      exact ⟨nofun, fun hzero => absurd hzero (Nat.ne_of_gt hpos)⟩
    · rw [hne g hg, hother g hg]
      exact h.freed g
  · obtain ⟨y, hy, hi⟩ := hlocked c hc
    obtain ⟨z, hz, hzid⟩ := hid _ y hy
    exact ⟨z, hz, hzid.symm ▸ hi⟩

/-- What holds a feed keeps it. -/
theorem Inv.held (h : Inv s) (hpos : 0 < s.refs f) : ∃ x, s.heap f = some x := by
  cases hf : s.heap f with
  | some x => exact ⟨x, rfl⟩
  | none => exact absurd ((h.freed f).mp hf) (Nat.ne_of_gt hpos)

/-- An event goes through exactly when `ok`, and keeps the invariant then. -/
structure Goes (ok : Prop) (o : Option PoolState) : Prop where
  keeps : ok → ∃ s', o = some s' ∧ Inv s'
  fails : ¬ok → o = none

theorem Goes.of_inv (h : Inv s) {ok : Prop} (hok : ok) : Goes ok (some s) :=
  ⟨fun _ => ⟨s, rfl, h⟩, fun hnot => absurd hok hnot⟩

theorem Goes.congr {ok ok' : Prop} {o : Option PoolState} (h : Goes ok o) (hiff : ok ↔ ok') : Goes ok' o :=
  ⟨fun hok => h.keeps (hiff.mpr hok), fun hnot => h.fails fun hok => hnot (hiff.mp hok)⟩

/-- The count goes up where there is room. -/
theorem Inv.incRef (h : Inv s) (hf : s.heap f = some x) :
    s.incRef f = if s.room f then some (s.setFeed f (some { x with refCount := s.refs f + 1 })) else none := by
  unfold PoolState.incRef
  rw [hf, Option.bind_some, h.count f x hf]
  rfl

/-- A section that counts one more holder. -/
theorem Inv.more (h : Inv s) (hf : s.heap f = some x) {g : PoolState → PoolState} (handles : List ℕ)
    (calls : List PoolCall)
    (hg : g (s.setFeed f (some { x with refCount := s.refs f + 1 })) =
      ⟨Function.update s.heap f (some { x with refCount := s.refs f + 1 }), s.feedMap, handles, calls⟩)
    (hrefs : ∀ f', handles.count f' + (calls.map (callRefs f')).sum =
      s.handles.count f' + (s.calls.map (callRefs f')).sum + if f = f' then 1 else 0)
    (hlocked : ∀ c ∈ calls, ∃ y, s.heap c.feed = some y ∧ getIndex y.id = some c.index) :
    Goes (s.room f) ((s.incRef f).map g) := by
  rw [h.incRef hf]
  by_cases hroom : s.room f
  · rw [if_pos hroom, Option.map_some, hg]
    have hcount : ∀ f', refs ⟨Function.update s.heap f (some { x with refCount := s.refs f + 1 }), s.feedMap,
        handles, calls⟩ f' = s.refs f' + if f = f' then 1 else 0 := by
      intro f'
      rw [refs_eq, refs_eq s f']
      exact hrefs f'
    refine ⟨fun _ => ⟨_, rfl, h.recount hf rfl rfl ?_ ?_ (fun f' hne => ?_) hlocked⟩,
      fun hnot => absurd hroom hnot⟩
    · rw [hcount, if_pos rfl]
      push_cast
      rfl
    · rw [hcount, if_pos rfl]
      exact Nat.succ_pos _
    · rw [hcount, if_neg fun heq => hne heq.symm]
      rfl
  · rw [if_neg hroom]
    exact ⟨fun hroom' => absurd hroom' hroom, fun _ => rfl⟩

theorem Inv.hold (h : Inv s) (hf : s.heap f = some x) {i : ℕ} (hi : getIndex x.id = some i) :
    Goes (s.room f) (s.hold i f) := by
  refine h.more hf s.handles (s.calls ++ [⟨i, f, false⟩]) rfl (fun f' => ?_) fun c hc => ?_
  · rw [List.map_append, List.sum_append, List.map_singleton, List.sum_singleton, Nat.add_assoc]
    rfl
  · rcases List.mem_append.mp hc with hc | hc
    · exact h.locked c hc
    · rw [List.mem_singleton.mp hc]
      exact ⟨x, hf, hi⟩

theorem Inv.inc_eq (h : Inv s) (hf : s.heap f = some x) : s.inc f = s.incRef f := by
  obtain ⟨i, hi, -⟩ := h.mapped f x hf
  unfold PoolState.inc
  rw [hf, Option.bind_some, hi, Option.bind_some]

theorem callRefs_constructed {c : PoolCall} (hc : ¬c.constructed = true) (f : ℕ) :
    callRefs f { c with constructed := true } = callRefs f c + if c.feed = f then 1 else 0 := by
  unfold callRefs
  rw [if_neg hc]
  split
  · rfl
  · rfl

/-- A constructed feed goes to the room of its call. -/
theorem Inv.construct (h : Inv s) (k : ℕ) :
    Goes (∀ c ∈ s.calls[k]?, c.constructed = false → s.room c.feed) (s.construct k) := by
  unfold PoolState.construct
  cases hk : s.calls[k]? with
  | none => exact .of_inv h fun c hc => nomatch hc
  | some c =>
      dsimp only
      by_cases hc : c.constructed = true
      · rw [if_pos hc]
        refine .of_inv h fun c' hc' hfalse => ?_
        rw [← Option.some_inj.mp hc', hc] at hfalse
        cases hfalse
      · rw [if_neg hc]
        obtain ⟨x, hf, hi⟩ := h.locked c (List.mem_of_getElem? hk)
        rw [h.inc_eq hf]
        have hgoes : Goes (s.room c.feed) ((s.incRef c.feed).map fun s =>
            { s with calls := s.calls.set k { c with constructed := true } }) := by
          refine h.more hf s.handles (s.calls.set k { c with constructed := true }) rfl
            (fun f' => ?_) fun c' hc' => ?_
          · have hset := sum_set hk (callRefs f') { c with constructed := true }
            rw [callRefs_constructed hc] at hset
            omega
          · rcases List.mem_or_eq_of_mem_set hc' with hc' | rfl
            · exact h.locked c' hc'
            · exact ⟨x, hf, hi⟩
        refine hgoes.congr ⟨fun hroom c' hc' _ => Option.some_inj.mp hc' ▸ hroom, fun hall => ?_⟩
        exact hall c rfl (Bool.eq_false_iff.mpr hc)

theorem Inv.copy (h : Inv s) (k : ℕ) : Goes (∀ f ∈ s.handles[k]?, s.room f) (s.copy k) := by
  unfold PoolState.copy
  cases hk : s.handles[k]? with
  | none => exact .of_inv h fun f hf => nomatch hf
  | some f =>
      have hpos : 0 < s.refs f := by
        rw [refs_eq]
        exact Nat.add_pos_left (List.count_pos_iff.mpr (List.mem_of_getElem? hk)) _
      obtain ⟨x, hf⟩ := h.held hpos
      dsimp only
      rw [h.inc_eq hf]
      have hgoes : Goes (s.room f) ((s.incRef f).map fun s => { s with handles := s.handles ++ [f] }) := by
        refine h.more hf (s.handles ++ [f]) s.calls rfl (fun f' => ?_) h.locked
        rw [List.count_append, List.count_singleton]
        simp only [beq_iff_eq]
        omega
      exact hgoes.congr ⟨fun hroom f' hf' => Option.some_inj.mp hf' ▸ hroom, fun hall => hall f rfl⟩

/-- The handle of the call holds its feed, so the second section need not look at the count. -/
theorem Inv.finish (h : Inv s) (k : ℕ) : Goes True (s.finish k) := by
  unfold PoolState.finish
  cases hk : s.calls[k]? with
  | none => exact .of_inv h trivial
  | some c =>
      dsimp only
      by_cases hc : c.constructed = true
      · rw [if_pos hc]
        obtain ⟨x, hf, hi⟩ := h.locked c (List.mem_of_getElem? hk)
        rw [hf, Option.map_some]
        have hrefs : ∀ f', (s.handles ++ [c.feed]).count f' + ((s.calls.eraseIdx k).map (callRefs f')).sum +
            (if c.feed = f' then 1 else 0) = s.refs f' := by
          intro f'
          have herase := sum_eraseIdx hk (callRefs f')
          have htwo : callRefs f' c = if c.feed = f' then 2 else 0 := by
            unfold callRefs
            rw [if_pos hc]
          rw [htwo] at herase
          rw [refs_eq, List.count_append, List.count_singleton]
          simp only [beq_iff_eq]
          by_cases heq : c.feed = f'
          · rw [if_pos heq] at herase ⊢
            omega
          · rw [if_neg heq] at herase ⊢
            omega
        refine ⟨fun _ => ⟨_, rfl, h.recount hf rfl rfl ?_ ?_ (fun f' hne => ?_) fun c' hc' => ?_⟩,
          fun hnot => absurd trivial hnot⟩
        · rw [h.count _ x hf, ← hrefs, refs_eq, if_pos rfl]
          push_cast
          exact Int.add_sub_cancel _ _
        · rw [refs_eq]
          refine Nat.add_pos_left (List.count_pos_iff.mpr ?_) _
          exact List.mem_append_right _ List.mem_cons_self
        · rw [← hrefs f', refs_eq, if_neg fun heq => hne heq.symm]
          rfl
        · exact h.locked c' (List.mem_of_mem_eraseIdx hc')
      · rw [if_neg hc]
        exact .of_inv h trivial

/-! ## The first and the last section of a feed -/

/-- An id that no feed has gets one. -/
theorem Inv.insert (h : Inv s) {item : RFeedItem} {i addr : ℕ} (hi : getIndex item.feed = some i)
    (hmap : s.feedMap i item.feed = none) (haddr : s.heap addr = none) :
    ∃ s', ((s.setFeed addr (some ⟨.ofItem item, 0⟩)).setMap i item.feed (some addr)).hold i addr = some s' ∧
      Inv s' := by
  have hzero := (h.freed addr).mp haddr
  set x : CountedFeed := ⟨.ofItem item, 1⟩ with hx
  set s' : PoolState := ⟨Function.update s.heap addr (some x),
    Function.update s.feedMap i (Function.update (s.feedMap i) item.feed (some addr)), s.handles,
    s.calls ++ [⟨i, addr, false⟩]⟩ with hs'
  have hself : s'.heap addr = some x := Function.update_self _ _ _
  have hother : ∀ f, f ≠ addr → s'.heap f = s.heap f := fun f hf => Function.update_of_ne hf _ _
  have hat : ∀ j id, s'.feedMap j id =
      if j = i ∧ id = item.feed then some addr else s.feedMap j id := setMap_feedMap s i item.feed (some addr)
  have hrefs : ∀ f, s'.refs f = s.refs f + if addr = f then 1 else 0 := by
    intro f
    rw [refs_eq, refs_eq, hs']
    dsimp only
    rw [List.map_append, List.sum_append, List.map_singleton, List.sum_singleton, ← Nat.add_assoc]
    rfl
  refine ⟨s', ?_, fun j id f hf => ?_, fun f y hf => ?_, fun f y hf => ?_, fun f => ?_, fun c hc => ?_⟩
  · unfold PoolState.hold PoolState.incRef PoolState.setMap PoolState.setFeed
    dsimp only
    rw [Function.update_self, Option.bind_some, if_pos (show (0 : ℤ) < maxInt by decide),
      Option.map_some, Function.update_idem]
    rfl
  · rw [hat] at hf
    split at hf
    · rename_i hboth
      cases hf
      exact ⟨hboth.1 ▸ hboth.2 ▸ hi, x, hself, hboth.2.symm⟩
    · obtain ⟨hj, y, hy, hid⟩ := h.live j id f hf
      refine ⟨hj, y, (hother f fun heq => ?_).trans hy, hid⟩
      rw [heq, haddr] at hy
      cases hy
  · by_cases heq : f = addr
    · subst heq
      rw [hself] at hf
      cases hf
      exact ⟨i, hi, (hat _ _).trans (if_pos ⟨rfl, rfl⟩)⟩
    · rw [hother f heq] at hf
      obtain ⟨j, hj, hmapped⟩ := h.mapped f y hf
      refine ⟨j, hj, (hat _ _).trans ((if_neg ?_).trans hmapped)⟩
      rintro ⟨rfl, hid⟩
      rw [hid, hmap] at hmapped
      cases hmapped
  · rw [hrefs]
    by_cases heq : f = addr
    · subst heq
      rw [hself] at hf
      cases hf
      rw [hzero, if_pos rfl]
      rfl
    · rw [hother f heq] at hf
      rw [if_neg fun heq' => heq heq'.symm]
      exact h.count f y hf
  · rw [hrefs]
    by_cases heq : f = addr
    · subst heq
      rw [hself, if_pos rfl]
      exact ⟨nofun, fun hzero' => absurd hzero' (Nat.succ_ne_zero _)⟩
    · rw [hother f heq, if_neg fun heq' => heq heq'.symm]
      exact h.freed f
  · rcases List.mem_append.mp hc with hc | hc
    · obtain ⟨y, hy, hindex⟩ := h.locked c hc
      refine ⟨y, (hother _ fun heq => ?_).trans hy, hindex⟩
      rw [heq, haddr] at hy
      cases hy
    · rw [List.mem_singleton.mp hc]
      exact ⟨x, hself, hi⟩

/-- A section that finds the feed of an id, if there is one. -/
theorem Inv.find (h : Inv s) (feedId : ℤ) {otherwise : ℕ → Option PoolState}
    (hother : ∀ i, getIndex feedId = some i → s.feedMap i feedId = none → Goes True (otherwise i)) :
    Goes (s.fitsId feedId) ((getIndex feedId).bind fun i =>
      match s.feedMap i feedId with
      | some f => s.hold i f
      | none => otherwise i) := by
  unfold fitsId
  have hsome := getIndex_isSome feedId
  cases hi : getIndex feedId with
  | none =>
      rw [hi] at hsome
      exact ⟨fun hok => absurd (hsome.mpr hok.1) Bool.false_ne_true, fun _ => rfl⟩
  | some i =>
      rw [hi] at hsome
      have hlong := hsome.mp rfl
      rw [Option.bind_some]
      cases hf : s.feedMap i feedId with
      | none =>
          refine (hother i hi hf).congr ⟨fun _ => ⟨hlong, fun j hj f hf' => ?_⟩, fun _ => trivial⟩
          cases hj
          rw [hf] at hf'
          cases hf'
      | some f =>
          obtain ⟨-, x, hx, hid⟩ := h.live i feedId f hf
          refine (h.hold hx (hid.symm ▸ hi)).congr ⟨fun hroom => ⟨hlong, fun j hj f' hf' => ?_⟩, fun hok => ?_⟩
          · cases hj
            rw [hf] at hf'
            cases hf'
            exact hroom
          · exact hok.2 i rfl f hf

theorem Inv.add (h : Inv s) (item : RFeedItem) (addr : ℕ) : Goes (s.fitsId item.feed) (s.add item addr) := by
  refine h.find item.feed fun i hi hmap => ?_
  cases haddr : s.heap addr with
  | some x => exact .of_inv h trivial
  | none => exact ⟨fun _ => h.insert hi hmap haddr, fun hnot => absurd trivial hnot⟩

theorem Inv.get (h : Inv s) (feedId : ℤ) : Goes (s.fitsId feedId) (s.get feedId) :=
  h.find feedId fun _ _ _ => .of_inv h trivial

/-- The feed goes with what held it. -/
theorem Inv.remove (h : Inv s) (hf : s.heap f = some x) {i : ℕ} (hi : getIndex x.id = some i)
    (handles : List ℕ)
    (hrefs : ∀ g, refs ⟨Function.update s.heap f none, (s.setMap i x.id none).feedMap, handles, s.calls⟩ g =
      if f = g then 0 else s.refs g) :
    Inv ⟨Function.update s.heap f none, (s.setMap i x.id none).feedMap, handles, s.calls⟩ := by
  obtain ⟨i', hi', hmap⟩ := h.mapped f x hf
  rw [hi] at hi'
  cases hi'
  have hother : ∀ g, g ≠ f → Function.update s.heap f none g = s.heap g := fun g hg =>
    Function.update_of_ne hg _ _
  have hnot : ∀ g, g = f → Function.update s.heap f none g = none := fun g hg =>
    hg ▸ Function.update_self _ _ _
  refine ⟨fun j id g hg => ?_, fun g y hg => ?_, fun g y hg => ?_, fun g => ?_, fun c hc => ?_⟩
  · dsimp only at hg ⊢
    rw [setMap_feedMap] at hg
    split at hg
    · cases hg
    · rename_i hne
      obtain ⟨hj, y, hy, hid⟩ := h.live j id g hg
      refine ⟨hj, y, (hother g ?_).trans hy, hid⟩
      rintro rfl
      rw [hf] at hy
      cases hy
      rw [← hid, hi] at hj
      cases hj
      exact hne ⟨rfl, hid.symm⟩
  · dsimp only at hg ⊢
    by_cases heq : g = f
    · rw [hnot g heq] at hg
      cases hg
    · rw [hother g heq] at hg
      obtain ⟨j, hj, hmapped⟩ := h.mapped g y hg
      refine ⟨j, hj, ?_⟩
      rw [setMap_feedMap, if_neg]
      · exact hmapped
      · rintro ⟨rfl, hid⟩
        rw [hid, hmap] at hmapped
        exact heq (Option.some_inj.mp hmapped).symm
  · dsimp only at hg
    by_cases heq : g = f
    · rw [hnot g heq] at hg
      cases hg
    · rw [hother g heq] at hg
      rw [hrefs, if_neg fun heq' => heq heq'.symm]
      exact h.count g y hg
  · dsimp only
    rw [hrefs]
    by_cases heq : g = f
    · rw [hnot g heq, if_pos heq.symm]
      exact ⟨fun _ => rfl, fun _ => rfl⟩
    · rw [hother g heq, if_neg fun heq' => heq heq'.symm]
      exact h.freed g
  · obtain ⟨y, hy, hindex⟩ := h.locked c hc
    refine ⟨y, (hother _ fun heq => ?_).trans hy, hindex⟩
    have hzero := hrefs f
    rw [if_pos rfl] at hzero
    unfold refs rawPointers at hzero
    exact List.count_eq_zero.mp (Nat.eq_zero_of_add_eq_zero_left hzero) (heq ▸ List.mem_map_of_mem hc)

/-- **The last handle of a feed takes the feed with it.** -/
theorem Inv.destroy (h : Inv s) (k : ℕ) : Goes True (s.destroy k) := by
  unfold PoolState.destroy
  cases hk : s.handles[k]? with
  | none => exact .of_inv h trivial
  | some f =>
      have hrefs : ∀ g, (s.handles.eraseIdx k).count g + (s.calls.map (callRefs g)).sum +
          (if f = g then 1 else 0) = s.refs g := by
        intro g
        have herase := count_eraseIdx hk g
        rw [refs_eq]
        omega
      have hself := hrefs f
      rw [if_pos rfl] at hself
      obtain ⟨x, hf⟩ := h.held (f := f) (hself ▸ Nat.succ_pos _)
      obtain ⟨i, hi, hmap⟩ := h.mapped f x hf
      dsimp only
      unfold PoolState.release
      rw [hf, Option.bind_some, hi, Option.map_some, Option.map_some]
      refine ⟨fun _ => ⟨_, rfl, ?_⟩, fun hnot => absurd trivial hnot⟩
      have hcount := h.count f x hf
      by_cases hlast : x.refCount - 1 = 0
      · rw [if_pos hlast]
        refine h.remove hf hi (s.handles.eraseIdx k) fun g => ?_
        have hall := hrefs g
        rw [refs_eq]
        by_cases hg : f = g
        · subst hg
          rw [if_pos rfl] at hall ⊢
          dsimp only
          omega
        · rw [if_neg hg] at hall ⊢
          exact hall
      · rw [if_neg hlast]
        refine h.recount hf rfl rfl ?_ ?_ (fun g hg => ?_) h.locked
        · rw [refs_eq]
          show _ = (((s.handles.eraseIdx k).count f + (s.calls.map (callRefs f)).sum : ℕ) : ℤ)
          omega
        · rw [refs_eq]
          show 0 < (s.handles.eraseIdx k).count f + (s.calls.map (callRefs f)).sum
          omega
        · rw [← hrefs g, refs_eq, if_neg fun heq => hg heq.symm]
          rfl

theorem Inv.event (h : Inv s) (e : Event) : Goes (s.fits e) (s.event e) := by
  cases e with
  | add item addr => exact h.add item addr
  | get feedId => exact h.get feedId
  | construct k => exact h.construct k
  | finish k => exact h.finish k
  | copy k => exact h.copy k
  | destroy k => exact h.destroy k

end Sections

/-! ## Runs -/

/-- The state is defined, and feeds are shared and freed in it. -/
def Sound (o : Option PoolState) : Prop := ∃ s, o = some s ∧ Shared s

/-- The event fits the state that it finds. -/
def Fits (o : Option PoolState) (e : Event) : Prop := ∀ s ∈ o, s.fits e

theorem inv_run (events : List Event) (h : StepsMeet step Fits (some new) events) (k : ℕ) :
    ∃ s, runOps step (some new) (events.take k) = some s ∧ Inv s := by
  refine @run_invariant_take _ _ step Fits (fun o => ∃ s, o = some s ∧ Inv s) ?_ _ ⟨new, rfl, inv_new⟩ _ h k
  rintro o e ⟨s, rfl, hs⟩ hfits
  exact (hs.event e).keeps (hfits s rfl)

/-- **Feeds are shared and freed in every state of a run exactly when no event names the least id or
counts more holders than an `int` has.** -/
theorem shared_run (events : List Event) :
    (∀ k, Sound (runOps step (some new) (events.take k))) ↔ StepsMeet step Fits (some new) events := by
  constructor
  · intro hall
    induction events using List.reverseRecOn with
    | nil => trivial
    | append_singleton events e ih =>
        have hmeet : StepsMeet step Fits (some new) events := by
          refine ih fun k => ?_
          have hk := hall (min k events.length)
          rw [List.take_append_of_le_length (Nat.min_le_right _ _), ← List.take_eq_take_min] at hk
          exact hk
        obtain ⟨s, hs, hinv⟩ := inv_run events hmeet events.length
        rw [List.take_length] at hs
        rw [stepsMeet_append, hs]
        refine ⟨hmeet, fun s' hs' => ?_, trivial⟩
        cases hs'
        refine Classical.byContradiction fun hnot => ?_
        obtain ⟨s', hs', -⟩ := hall (events.length + 1)
        rw [List.take_of_length_le (by simp), runOps_append, hs] at hs'
        have hfail := (hinv.event e).fails hnot
        have hstep : s.event e = some s' := hs'
        rw [hfail] at hstep
        cases hstep
  · intro h k
    obtain ⟨s, hs, hinv⟩ := inv_run events h k
    exact ⟨s, hs, hinv.shared⟩

/-- The least id has no shard. -/
theorem least_id_unsound :
    ¬Sound (runOps step (some new) [.add ⟨⟨-9223372036854775808, 1, 502, 100⟩, 0, 7⟩ 0]) := by
  rintro ⟨s, hs, -⟩
  cases hs

end Oce.FeedNews.PoolState
