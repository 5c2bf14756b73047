import Mathlib.Data.List.Perm.Subperm
import Oce.UtilCxx.Model.Evictor

/-!
# The evictor keeps its keys in the order of their last use

`Kept` is the invariant that ties the map and the queue to a list of entries: node by node, the
queue has the keys of the list, and the map leads from each key to its object and to its own
node. Each operation takes a key out of all three, puts one in at the front, or cuts the
back off, so one lemma for each of these carries the invariant through every call.
-/

set_option autoImplicit false

namespace Oce.UtilCxx

variable {κ α : Type*} [DecidableEq κ]

namespace HookedEvictor

/-- The map leads from the key of the entry to its object and to the node. -/
def Hooks (map : EvictorMap κ α) (n : ℕ × κ) (p : κ × α) : Prop :=
  n.2 = p.1 ∧ map.lookup p.1 = some ⟨p.2, n.1⟩

/-- The map and the nodes of a queue hold the entries. -/
structure Kept (map : EvictorMap κ α) (nodes : List (ℕ × κ)) (entries : List (κ × α)) : Prop where
  hooks : List.Forall₂ (Hooks map) nodes entries
  length : map.keys.length = entries.length
  distinct : (nodes.map Prod.fst).Nodup
  keys : (entries.map Prod.fst).Nodup

section Kept

variable {map : EvictorMap κ α} {nodes : List (ℕ × κ)} {entries : List (κ × α)} {id : κ}

theorem kept_empty : Kept (∅ : EvictorMap κ α) [] [] :=
  ⟨.nil, rfl, List.nodup_nil, List.nodup_nil⟩

theorem Hooks.mem {n : ℕ × κ} {p : κ × α} (h : Hooks map n p) : p.1 ∈ map.keys := by
  rw [← AList.mem_keys, ← AList.lookup_isSome, h.2]
  rfl

theorem Kept.map_snd (h : Kept map nodes entries) : nodes.map Prod.snd = entries.map Prod.fst := by
  obtain ⟨hooks, -, -, -⟩ := h
  induction hooks with
  | nil => rfl
  | cons hn _ ih => rw [List.map_cons, List.map_cons, hn.1, ih]

/-- The keys of the map are those of the entries. -/
theorem Kept.perm (h : Kept map nodes entries) : (entries.map Prod.fst).Perm map.keys := by
  have hsub : entries.map Prod.fst ⊆ map.keys := by
    intro k hk
    obtain ⟨p, hp, rfl⟩ := List.mem_map.mp hk
    obtain ⟨i, hi, hpi⟩ := List.mem_iff_getElem.mp hp
    have hlen := h.hooks.length_eq
    have hooks := h.hooks.get (by omega) hi
    rw [List.get_eq_getElem, List.get_eq_getElem, hpi] at hooks
    exact hooks.mem
  exact (h.keys.subperm hsub).perm_of_length_le (by rw [h.length, List.length_map])

/-- What the map says of a key stands in the list, at the place that the map gives. -/
theorem Kept.mem_of_lookup (h : Kept map nodes entries) {entry : EvictorEntry α}
    (hl : map.lookup id = some entry) : (entry.pos, id) ∈ nodes ∧ (id, entry.obj) ∈ entries := by
  have hmem : id ∈ entries.map Prod.fst := by
    rw [h.perm.mem_iff, ← AList.mem_keys, ← AList.lookup_isSome, hl]
    rfl
  obtain ⟨p, hp, rfl⟩ := List.mem_map.mp hmem
  obtain ⟨i, hi, hpi⟩ := List.mem_iff_getElem.mp hp
  have hlen := h.hooks.length_eq
  have hn : i < nodes.length := by omega
  have hooks := h.hooks.get hn hi
  rw [List.get_eq_getElem, List.get_eq_getElem, hpi] at hooks
  obtain ⟨hkey, hlook⟩ := hooks
  rw [hl] at hlook
  cases hlook
  refine ⟨?_, hp⟩
  rw [← hkey]
  exact List.getElem_mem hn

theorem Kept.lookup_eq (h : Kept map nodes entries) (id : κ) :
    SizedEvictor.lookup entries id = (map.lookup id).map EvictorEntry.obj := by
  cases hl : map.lookup id with
  | none =>
      have hnot : id ∉ entries.map Prod.fst := by
        rw [h.perm.mem_iff, ← AList.mem_keys, ← AList.lookup_eq_none]
        exact hl
      unfold SizedEvictor.lookup
      rw [List.find?_eq_none.mpr]
      · rfl
      · intro p hp hid
        exact hnot (by rw [← of_decide_eq_true hid]; exact List.mem_map_of_mem hp)
  | some entry =>
      have hmem := (h.mem_of_lookup hl).2
      unfold SizedEvictor.lookup
      cases hf : entries.find? fun p => decide (p.1 = id) with
      | none =>
          have := List.find?_eq_none.mp hf _ hmem
          simp at this
      | some p =>
          have hid : p.1 = id := by simpa using List.find?_some hf
          have heq := List.inj_on_of_nodup_map h.keys (List.mem_of_find?_eq_some hf) hmem hid
          rw [heq]
          rfl

/-- **A key is taken out of the map and the queue.** -/
theorem Kept.erase (h : Kept map nodes entries) {entry : EvictorEntry α}
    (hl : map.lookup id = some entry) :
    Kept (map.erase id) (nodes.filter fun n => n.1 ≠ entry.pos) (SizedEvictor.without entries id) := by
  obtain ⟨hnode, hentry⟩ := h.mem_of_lookup hl
  have hiff : ∀ n p, n ∈ nodes ∧ Hooks map n p → (n.1 ≠ entry.pos ↔ p.1 ≠ id) := by
    rintro n p ⟨hn, hkey, hlook⟩
    refine not_congr ⟨fun hpos => ?_, fun hid => ?_⟩
    · have heq := List.inj_on_of_nodup_map h.distinct hn hnode hpos
      rw [← hkey, heq]
    · rw [hid, hl] at hlook
      cases hlook
      rfl
  have hmem : List.Forall₂ (fun n p => n ∈ nodes ∧ Hooks map n p) nodes entries :=
    (List.forall₂_and_left _ _).mpr ⟨fun _ hn => hn, h.hooks⟩
  have hfilter := List.rel_filter (R := fun n p => n ∈ nodes ∧ Hooks map n p)
    (p := fun n => decide (n.1 ≠ entry.pos)) (q := fun p => decide (p.1 ≠ id))
    (fun n p hnp => by simpa using hiff n p hnp) hmem
  refine ⟨?_, ?_, ?_, ?_⟩
  · have hrest := (List.forall₂_and_left (p := fun n : ℕ × κ => n.1 ≠ entry.pos) _ _).mpr
      ⟨fun n hn => by simpa using (List.mem_filter.mp hn).2, hfilter⟩
    refine hrest.imp fun n p hnp => ⟨hnp.2.2.1, ?_⟩
    rw [AList.lookup_erase_ne ((hiff n p hnp.2).mp hnp.1)]
    exact hnp.2.2.2
  · have hkeys : (SizedEvictor.without entries id).map Prod.fst = (entries.map Prod.fst).erase id := by
      rw [h.keys.erase_eq_filter, List.filter_map]
      refine congrArg _ (List.filter_congr fun p _ => ?_)
      by_cases hid : p.1 = id
      · simp [hid]
      · simp [hid]
    have hin : id ∈ entries.map Prod.fst := List.mem_map_of_mem hentry
    have hlen := congrArg List.length hkeys
    rw [List.length_map, List.length_erase_of_mem hin, List.length_map] at hlen
    rw [AList.keys_erase, List.length_erase_of_mem (h.perm.mem_iff.mp hin), h.length, hlen]
  · exact h.distinct.sublist (List.filter_sublist.map Prod.fst)
  · exact SizedEvictor.nodup_without h.keys id

/-- A key that is not there is put in at the front. -/
theorem Kept.push (h : Kept map nodes entries) (hl : map.lookup id = none) {pos : ℕ}
    (hpos : pos ∉ nodes.map Prod.fst) (obj : α) :
    Kept (map.insert id ⟨obj, pos⟩) ((pos, id) :: nodes) ((id, obj) :: entries) := by
  have hnot : id ∉ map.keys := by
    rw [← AList.mem_keys, ← AList.lookup_eq_none]
    exact hl
  have hnot' : id ∉ entries.map Prod.fst := fun hmem => hnot (h.perm.mem_iff.mp hmem)
  refine ⟨.cons ⟨rfl, AList.lookup_insert map⟩ ?_, ?_, ?_, ?_⟩
  · refine h.hooks.imp fun n p hnp => ⟨hnp.1, ?_⟩
    have hne : p.1 ≠ id := fun he => hnot (he ▸ hnp.mem)
    rw [AList.lookup_insert_ne hne]
    exact hnp.2
  · rw [AList.keys_insert, List.length_cons, List.length_cons, List.erase_of_not_mem hnot, h.length]
  · exact List.nodup_cons.mpr ⟨hpos, h.distinct⟩
  · exact List.nodup_cons.mpr ⟨hnot', h.keys⟩

/-- A key that the map does not know is not among the entries. -/
theorem Kept.without_of_none (h : Kept map nodes entries) (hl : map.lookup id = none) :
    SizedEvictor.without entries id = entries := by
  refine List.filter_eq_self.mpr fun p hp => ?_
  have hnot : id ∉ entries.map Prod.fst := by
    rw [h.perm.mem_iff, ← AList.mem_keys, ← AList.lookup_eq_none]
    exact hl
  exact decide_eq_true fun he => hnot (he ▸ List.mem_map_of_mem hp)

/-- The entries are what the map has for the keys of the queue. -/
theorem Kept.filterMap_eq (h : Kept map nodes entries) :
    (nodes.filterMap fun n => (map.lookup n.2).map fun entry => (n.2, entry.obj)) = entries := by
  obtain ⟨hooks, -, -, -⟩ := h
  induction hooks with
  | nil => rfl
  | cons hn _ ih =>
      rw [List.filterMap_cons, hn.1, hn.2, ih]
      rfl

theorem insert_erase (map : EvictorMap κ α) (id : κ) (entry : EvictorEntry α) :
    (map.erase id).insert id entry = map.insert id entry := by
  refine AList.ext ?_
  rw [AList.entries_insert, AList.entries_insert]
  exact congrArg _ (List.kerase_of_notMem_keys (List.notMem_keys_kerase id map.nodupKeys))

theorem Kept.reverse (h : Kept map nodes entries) : Kept map nodes.reverse entries.reverse := by
  refine ⟨List.forall₂_reverse_iff.mpr h.hooks, by rw [h.length, List.length_reverse], ?_, ?_⟩
  · rw [List.map_reverse]
    exact List.nodup_reverse.mpr h.distinct
  · rw [List.map_reverse]
    exact List.nodup_reverse.mpr h.keys

omit [DecidableEq κ] in
theorem forall₂_imp_of_mem {β γ : Type*} {R S : β → γ → Prop} {l : List β} {l' : List γ}
    (h : List.Forall₂ R l l') (hRS : ∀ b c, c ∈ l' → R b c → S b c) : List.Forall₂ S l l' := by
  induction h with
  | nil => exact .nil
  | cons hbc _ ih =>
      exact .cons (hRS _ _ List.mem_cons_self hbc) (ih fun b c hc => hRS b c (List.mem_cons_of_mem _ hc))

/-- The first node goes, with its key. -/
theorem Kept.tail {n : ℕ × κ} {p : κ × α} (h : Kept map (n :: nodes) (p :: entries)) :
    Kept (map.erase n.2) nodes entries := by
  cases h.hooks with
  | cons hn htail =>
    have hkeys := List.nodup_cons.mp h.keys
    refine ⟨?_, ?_, (List.nodup_cons.mp h.distinct).2, hkeys.2⟩
    · rw [hn.1]
      refine forall₂_imp_of_mem htail fun m q hq hmq => ⟨hmq.1, ?_⟩
      have hne : q.1 ≠ p.1 := fun he => hkeys.1 (he ▸ List.mem_map_of_mem hq)
      rw [AList.lookup_erase_ne hne]
      exact hmq.2
    · have hlen := h.length
      rw [List.length_cons] at hlen
      rw [hn.1, AList.keys_erase, List.length_erase_of_mem hn.mem]
      omega

/-- **The loop of `evict` cuts the back off, down to the limit.** -/
theorem Kept.evictLoop (h : Kept map nodes entries) (size : ℕ) :
    ∃ map' nodes', evictLoop size map nodes = some (map', nodes') ∧
      Kept map' nodes' (entries.drop (entries.length - size)) ∧ nodes' <:+ nodes := by
  induction nodes generalizing map entries with
  | nil =>
      have hnil : entries = [] := List.forall₂_nil_left_iff.mp h.hooks
      subst hnil
      have hlen : ¬size < map.keys.length := by
        rw [h.length]
        exact Nat.not_lt_zero _
      refine ⟨map, [], if_neg hlen, ?_, List.suffix_refl _⟩
      rw [List.drop_nil]
      exact h
  | cons n nodes ih =>
      obtain ⟨p, entries, -, -, rfl⟩ := List.forall₂_cons_left_iff.mp h.hooks
      unfold HookedEvictor.evictLoop
      by_cases hlt : size < map.keys.length
      · rw [if_pos hlt]
        obtain ⟨map', nodes', hloop, hkept, hsuffix⟩ := ih h.tail
        refine ⟨map', nodes', hloop, ?_, hsuffix.trans (List.suffix_cons _ _)⟩
        have hdrop : (p :: entries).length - size = (entries.length - size) + 1 := by
          rw [h.length, List.length_cons] at hlt
          rw [List.length_cons]
          omega
        rw [hdrop, List.drop_succ_cons]
        exact hkept
      · rw [if_neg hlt]
        refine ⟨map, n :: nodes, rfl, ?_, List.suffix_refl _⟩
        have hdrop : (p :: entries).length - size = 0 := by
          rw [h.length] at hlt
          omega
        rw [hdrop, List.drop_zero]
        exact h

end Kept

/-! ## The calls -/

/-- The evictor holds the entries of the list, and a node that it gets next is a new one. -/
structure Follows (e : HookedEvictor κ α) (l : SizedEvictor κ α) : Prop where
  size : e.size = l.size
  kept : Kept e.map e.queue.nodes l.entries
  fresh : ∀ n ∈ e.queue.nodes, n.1 < e.queue.next

variable {e : HookedEvictor κ α} {l : SizedEvictor κ α} {id : κ}

theorem follows_new (size : ℕ) : Follows (new size : HookedEvictor κ α) (.new size) :=
  ⟨rfl, kept_empty, fun _ hn => nomatch hn⟩

/-- What a key that is taken out leaves. -/
theorem Follows.erase (h : Follows e l) {entry : EvictorEntry α} (hl : e.map.lookup id = some entry) :
    ∃ q, e.queue.erase entry.pos = some q ∧
      Follows { e with map := e.map.erase id, queue := q } (l.remove id) := by
  have hpos : entry.pos ∈ e.queue.nodes.map Prod.fst :=
    List.mem_map_of_mem (f := Prod.fst) (h.kept.mem_of_lookup hl).1
  refine ⟨_, if_pos hpos, h.size, h.kept.erase hl, ?_⟩
  exact fun n hn => h.fresh n (List.mem_filter.mp hn).1

/-- What a key that is put in leaves. -/
theorem Follows.hook (h : Follows e l) (hl : e.map.lookup id = none) (obj : α)
    (l' : SizedEvictor κ α) (hsize : l'.size = l.size) (hentries : l'.entries = (id, obj) :: l.entries) :
    Follows (e.hook id obj) l' := by
  refine ⟨h.size.trans hsize.symm, ?_, ?_⟩
  · rw [hentries]
    refine h.kept.push hl ?_ obj
    intro hmem
    obtain ⟨n, hn, hpos⟩ := List.mem_map.mp hmem
    have hnext : n.1 = e.queue.next := hpos
    exact absurd (h.fresh n hn) (by omega)
  · intro n hn
    show n.1 < e.queue.next + 1
    rcases List.mem_cons.mp hn with rfl | hn
    · exact Nat.lt_succ_self _
    · exact Nat.lt_succ_of_lt (h.fresh n hn)

/-- What `evict` leaves. -/
theorem Follows.evict (h : Follows e l) (l' : SizedEvictor κ α) (hsize : l'.size = l.size)
    (hentries : l'.entries = SizedEvictor.evict l.size l.entries) : ∃ e', e.evict = some e' ∧ Follows e' l' := by
  unfold HookedEvictor.evict
  unfold SizedEvictor.evict at hentries
  rw [h.size]
  by_cases hpos : 0 < l.size
  · rw [if_pos hpos] at hentries ⊢
    obtain ⟨map', nodes', hloop, hkept, hsuffix⟩ := h.kept.reverse.evictLoop l.size
    rw [hloop]
    refine ⟨_, rfl, hsize.symm, ?_, ?_⟩
    · have hkept' := hkept.reverse
      rw [List.reverse_drop, List.reverse_reverse, List.length_reverse] at hkept'
      have htake : l.entries.take (l.entries.length - (l.entries.length - l.size)) =
          l.entries.take l.size := by
        by_cases hle : l.size ≤ l.entries.length
        · rw [Nat.sub_sub_self hle]
        · rw [List.take_of_length_le (by omega), List.take_of_length_le (by omega)]
      rw [htake, ← hentries] at hkept'
      exact hkept'
    · intro n hn
      have hmem : n ∈ e.queue.nodes.reverse := hsuffix.subset (List.mem_reverse.mp hn)
      exact h.fresh n (List.mem_reverse.mp hmem)
  · rw [if_neg hpos] at hentries ⊢
    refine ⟨e, rfl, h.size.trans hsize.symm, ?_, h.fresh⟩
    rw [hentries]
    exact h.kept

theorem lookup_of_none (h : Follows e l) (hl : e.map.lookup id = none) :
    SizedEvictor.lookup l.entries id = none := by
  rw [h.kept.lookup_eq, hl]
  rfl

theorem without_of_none (h : Follows e l) (hl : e.map.lookup id = none) :
    SizedEvictor.without l.entries id = l.entries := h.kept.without_of_none hl

/-- **An add puts the key to the front, whether it was there or not.** -/
theorem Follows.add (h : Follows e l) (obj : α) (id : κ) :
    ∃ e', e.add obj id = some e' ∧ Follows e' (l.add obj id) := by
  have hnew : ∀ {e : HookedEvictor κ α} {l' : SizedEvictor κ α}, Follows e l' → l'.size = l.size →
      e.map.lookup id = none → l'.entries = SizedEvictor.without l.entries id →
      ∃ e', e.add obj id = some e' ∧ Follows e' (l.add obj id) := by
    intro e l' h' hsize hl hentries
    have hhook := h'.hook hl obj
      ⟨(id, obj) :: SizedEvictor.without l.entries id, l.size, SizedEvictor.nodup_front l.nodup id obj⟩
      hsize.symm (by rw [hentries])
    obtain ⟨e', he', hfollows⟩ := hhook.evict (l.add obj id) rfl rfl
    refine ⟨e', ?_, hfollows⟩
    rw [HookedEvictor.add]
    split
    · exact he'
    · next entry hentry =>
        rw [hl] at hentry
        cases hentry
  cases hl : e.map.lookup id with
  | none => exact hnew h rfl hl (without_of_none h hl).symm
  | some entry =>
      obtain ⟨q, hq, hrest⟩ := h.erase hl
      -- the second round finds the key gone
      obtain ⟨e', he', hfollows⟩ := hnew hrest rfl (AList.lookup_erase id e.map) rfl
      refine ⟨e', ?_, hfollows⟩
      rw [HookedEvictor.add]
      split
      · next hnone =>
          rw [hl] at hnone
          cases hnone
      · next entry' hentry' =>
          rw [hl] at hentry'
          cases hentry'
          rw [hq]
          exact he'

theorem Follows.locate (h : Follows e l) (id : κ) (dflt : α) :
    ∃ e', e.locate id dflt = some ((l.locate id).1.getD dflt, e') ∧ Follows e' (l.locate id).2 := by
  unfold HookedEvictor.locate SizedEvictor.locate
  cases hl : e.map.lookup id with
  | none =>
      rw [lookup_of_none h hl]
      exact ⟨e, rfl, h⟩
  | some entry =>
      have hlook : SizedEvictor.lookup l.entries id = some entry.obj := by
        rw [h.kept.lookup_eq, hl]
        rfl
      rw [hlook]
      obtain ⟨q, hq, hrest⟩ := h.erase hl
      dsimp only
      rw [hq]
      have hhook := hrest.hook (AList.lookup_erase id e.map) entry.obj
        ⟨(id, entry.obj) :: SizedEvictor.without l.entries id, l.size,
          SizedEvictor.nodup_front l.nodup id entry.obj⟩ rfl rfl
      refine ⟨_, rfl, ?_⟩
      unfold HookedEvictor.hook at hhook ⊢
      dsimp only at hhook ⊢
      rw [insert_erase] at hhook
      exact hhook

theorem Follows.find (h : Follows e l) (id : κ) (dflt : α) : e.find id dflt = (l.find id).getD dflt := by
  unfold HookedEvictor.find SizedEvictor.find
  rw [h.kept.lookup_eq]
  cases e.map.lookup id with
  | none => rfl
  | some entry => rfl

theorem Follows.remove (h : Follows e l) (id : κ) :
    ∃ e', e.remove id = some (l.find id, e') ∧ Follows e' (l.remove id) := by
  unfold HookedEvictor.remove SizedEvictor.find
  rw [h.kept.lookup_eq]
  cases hl : e.map.lookup id with
  | none =>
      refine ⟨e, rfl, h.size, ?_, h.fresh⟩
      show Kept e.map e.queue.nodes (SizedEvictor.without l.entries id)
      rw [without_of_none h hl]
      exact h.kept
  | some entry =>
      obtain ⟨q, hq, hrest⟩ := h.erase hl
      dsimp only
      rw [hq]
      exact ⟨_, rfl, hrest⟩

/-- **A call of the evictor and the call of the list return the same and leave the same.** -/
theorem Follows.step (h : Follows e l) (op : EvictorOp κ α) :
    ∃ e', op.step e = some ((op.stepList l).1, e') ∧ Follows e' (op.stepList l).2 := by
  cases op with
  | add obj id =>
      obtain ⟨e', he', hfollows⟩ := h.add obj id
      refine ⟨e', ?_, hfollows⟩
      show (e.add obj id).map (none, ·) = _
      rw [he']
      rfl
  | locate id dflt =>
      obtain ⟨e', he', hfollows⟩ := h.locate id dflt
      refine ⟨e', ?_, hfollows⟩
      show (e.locate id dflt).map (fun r => (some r.1, r.2)) = _
      rw [he']
      rfl
  | find id dflt =>
      refine ⟨e, ?_, h⟩
      show some (some (e.find id dflt), e) = _
      rw [h.find]
      rfl
  | remove id => exact h.remove id
  | clear => exact ⟨e.clear, rfl, h.size, kept_empty, fun _ hn => nomatch hn⟩
  | size n => exact ⟨e.setSize n, rfl, rfl, h.kept, h.fresh⟩

/-! ## Whole runs -/

theorem Follows.run (h : Follows e l) (ops : List (EvictorOp κ α)) :
    ∃ e', EvictorOp.run e ops = some ((EvictorOp.runList l ops).1, e') ∧
      Follows e' (EvictorOp.runList l ops).2 := by
  induction ops generalizing e l with
  | nil => exact ⟨e, rfl, h⟩
  | cons op ops ih =>
      obtain ⟨e₁, hstep, h₁⟩ := h.step op
      obtain ⟨e', hrun, h'⟩ := ih h₁
      refine ⟨e', ?_, h'⟩
      unfold EvictorOp.run
      rw [hstep]
      show (EvictorOp.run e₁ ops).bind _ = _
      rw [hrun]
      rfl

/-- The queue has the keys of the map, each once, and every entry of the map leads to its own node. -/
structure Hooked (e : HookedEvictor κ α) : Prop where
  perm : (e.queue.nodes.map Prod.snd).Perm e.map.keys
  distinct : (e.queue.nodes.map Prod.fst).Nodup
  own : ∀ id entry, e.map.lookup id = some entry → (entry.pos, id) ∈ e.queue.nodes

/-- The objects in the order of the queue. -/
def contents (e : HookedEvictor κ α) : List (κ × α) :=
  e.queue.nodes.filterMap fun n => (e.map.lookup n.2).map fun entry => (n.2, entry.obj)

theorem Follows.hooked (h : Follows e l) : Hooked e where
  perm := by
    rw [h.kept.map_snd]
    exact h.kept.perm
  distinct := h.kept.distinct
  own _ _ hl := (h.kept.mem_of_lookup hl).1

theorem Follows.contents (h : Follows e l) : e.contents = l.entries := h.kept.filterMap_eq

/-- **Whatever is called in whatever order, no call touches a place that is not there; the map and
the queue are in step; what is in them, and what every call returns, is as with the list of
the entries in the order of their last use. An add with a limit leaves at most so many, and
takes them from the front of that list.** -/
theorem evictor_law (size : ℕ) (ops : List (EvictorOp κ α)) :
    let r := EvictorOp.runList (.new size) ops
    ∃ e, EvictorOp.run (new size) ops = some (r.1, e) ∧ Hooked e ∧ e.contents = r.2.entries ∧
      ∀ obj id, ∃ e', e.add obj id = some e' ∧ Hooked e' ∧
        (e.size = 0 → e'.contents = (id, obj) :: SizedEvictor.without e.contents id) ∧
        (0 < e.size → e'.contents.length ≤ e.size ∧
          e'.contents = ((id, obj) :: SizedEvictor.without e.contents id).take e.size) := by
  intro r
  obtain ⟨e, hrun, h⟩ := (follows_new size).run ops
  refine ⟨e, hrun, h.hooked, h.contents, fun obj id => ?_⟩
  obtain ⟨e', he', h'⟩ := h.add obj id
  refine ⟨e', he', h'.hooked, fun hzero => ?_, fun hpos => ?_⟩
  · rw [h'.contents, h.contents]
    rw [h.size] at hzero
    exact if_neg (by omega)
  · rw [h'.contents, h.contents]
    have hentries : (r.2.add obj id).entries =
        ((id, obj) :: SizedEvictor.without r.2.entries id).take e.size := by
      rw [h.size]
      rw [h.size] at hpos
      exact if_pos hpos
    refine ⟨?_, hentries⟩
    rw [hentries]
    exact List.length_take_le _ _

end HookedEvictor

end Oce.UtilCxx
