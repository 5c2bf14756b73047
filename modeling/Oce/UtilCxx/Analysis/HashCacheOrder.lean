import Mathlib.Data.List.Perm.Subperm
import Mathlib.Tactic.SplitIfs
import Oce.UtilCxx.Model.Evictor
import Oce.UtilCxx.Model.HashCache

/-!
# The list and the map of the hash cache

`Lru` is what the cache is to be: the values in the order of their last use. `Follows` ties the list
and the map of the cache to it. A find, an erase and a replace of too many keep the tie; an insert
keeps it only where the key is not there, for it leaves the old node in the list, and a replace is
not defined where there are too few.
-/

set_option autoImplicit false

namespace Oce.UtilCxx

variable {κ α : Type*} [DecidableEq κ]

/-! ## The order of use -/

/-- The values with their keys, the one used last at the end. -/
structure Lru (κ α : Type*) where
  entries : List (κ × α)
  maxSize : ℕ

namespace Lru

/-- A value goes to the end. -/
def put (l : Lru κ α) (key : κ) (v : α) : Lru κ α :=
  { l with entries := SizedEvictor.without l.entries key ++ [(key, v)] }

def find (l : Lru κ α) (key : κ) : Option α := SizedEvictor.lookup l.entries key

/-- A value that is found goes to the end. -/
def touch (l : Lru κ α) (key : κ) : Lru κ α :=
  match l.find key with
  | none => l
  | some v => l.put key v

/-- What is too much goes, the values used least recently first. -/
def replace (l : Lru κ α) : Lru κ α := { l with entries := l.entries.drop (l.entries.length - l.maxSize) }

/-- An event, with the value that it returns. -/
def step (l : Lru κ α) : CacheEvent κ α → Option α × Lru κ α
  | .find key => (l.find key, l.touch key)
  | .insert key v => (none, l.put key v)
  | .erase key => (none, { l with entries := SizedEvictor.without l.entries key })
  | .replace => (none, l.replace)

end Lru

namespace HashCache

variable {c c' : HashCache κ α} {l : Lru κ α} {key : κ} {v : α} {ev : CacheEvent κ α}

/-! ## The list and the map in step -/

/-- The keys of the list are distinct and those of the map, which leads from each to its own node. -/
structure InStep (c : HashCache κ α) : Prop where
  distinct : (c.list.map fun n => n.2.1).Nodup
  perm : (c.list.map fun n => n.2.1).Perm c.map.keys
  nodes : (c.list.map Prod.fst).Nodup
  own : ∀ n ∈ c.list, c.map.lookup n.2.1 = some n.1

/-- The values with their keys, in the order of the list. -/
def contents (c : HashCache κ α) : List (κ × α) := c.list.map Prod.snd

/-- The cache is in step and holds what the order of use does, and its next node is a new one. -/
structure Follows (c : HashCache κ α) (l : Lru κ α) : Prop where
  inStep : c.InStep
  contents : c.contents = l.entries
  maxSize : c.maxSize = l.maxSize
  fresh : ∀ n ∈ c.list, n.1 < c.next

theorem follows_new (maxSize : ℕ) : Follows (new maxSize : HashCache κ α) ⟨[], maxSize⟩ :=
  ⟨⟨List.nodup_nil, .refl _, List.nodup_nil, fun _ hn => nomatch hn⟩, rfl, rfl, fun _ hn => nomatch hn⟩

theorem InStep.size_eq (h : c.InStep) : c.size = c.list.length := by
  unfold size
  rw [← h.perm.length_eq, List.length_map]

/-- What the map knows is in the list. -/
theorem InStep.mem_of_lookup (h : c.InStep) {pos : ℕ} (hl : c.map.lookup key = some pos) :
    ∃ v, (pos, key, v) ∈ c.list := by
  have hmem : key ∈ c.list.map fun n => n.2.1 := by
    rw [h.perm.mem_iff, ← AList.mem_keys, ← AList.lookup_isSome, hl]
    rfl
  obtain ⟨⟨pos', key', v⟩, hn, rfl⟩ := List.mem_map.mp hmem
  have hown := h.own _ hn
  rw [hl] at hown
  cases hown
  exact ⟨v, hn⟩

theorem InStep.not_mem_of_lookup (h : c.InStep) (hl : c.map.lookup key = none) :
    ∀ n ∈ c.list, n.2.1 ≠ key := by
  rintro n hn rfl
  rw [h.own n hn] at hl
  cases hl

/-- A node of the list is the only one of its number and of its key. -/
theorem InStep.fst_eq_iff (h : c.InStep) {pos : ℕ} (hn : (pos, key, v) ∈ c.list) {m : ℕ × κ × α}
    (hm : m ∈ c.list) : m.1 = pos ↔ m.2.1 = key := by
  constructor
  · intro heq
    have hsame := List.inj_on_of_nodup_map h.nodes hm hn heq
    rw [hsame]
  · intro heq
    have hsame := List.inj_on_of_nodup_map h.distinct hm hn heq
    rw [hsame]

theorem InStep.filter_eq (h : c.InStep) {pos : ℕ} (hn : (pos, key, v) ∈ c.list) :
    c.list.filter (fun m => m.1 ≠ pos) = c.list.filter fun m => m.2.1 ≠ key := by
  apply List.filter_congr
  intro m hm
  simp [h.fst_eq_iff hn hm]

/-- The list without a key. -/
theorem map_without (l : List (ℕ × κ × α)) (key : κ) :
    (l.filter fun m => m.2.1 ≠ key).map Prod.snd = SizedEvictor.without (l.map Prod.snd) key := by
  unfold SizedEvictor.without
  rw [List.filter_map]
  rfl

theorem lookup_contents (h : c.InStep) {pos : ℕ} (hn : (pos, key, v) ∈ c.list) :
    SizedEvictor.lookup c.contents key = some v := by
  unfold SizedEvictor.lookup HashCache.contents
  cases hfind : (c.list.map Prod.snd).find? fun p => decide (p.1 = key) with
  | none =>
      have hnone := List.find?_eq_none.mp hfind _ (List.mem_map_of_mem hn)
      simp at hnone
  | some p =>
      obtain ⟨m, hm, rfl⟩ := List.mem_map.mp (List.mem_of_find?_eq_some hfind)
      have hkey : m.2.1 = key := by simpa using List.find?_some hfind
      have hsame := List.inj_on_of_nodup_map h.distinct hm hn hkey
      rw [hsame]
      rfl

theorem lookup_contents_none (h : c.InStep) (hl : c.map.lookup key = none) :
    SizedEvictor.lookup c.contents key = none := by
  unfold SizedEvictor.lookup HashCache.contents
  rw [List.find?_eq_none.mpr]
  · rfl
  · intro p hp
    obtain ⟨n, hn, rfl⟩ := List.mem_map.mp hp
    simpa using h.not_mem_of_lookup hl n hn

/-! ## Events -/

/-- The nodes of the other keys, and the map without the key. -/
theorem InStep.erase (h : c.InStep) (key : κ) :
    ({ c with list := c.list.filter fun m => m.2.1 ≠ key, map := c.map.erase key } : HashCache κ α).InStep := by
  have hsub : (c.list.filter fun m => m.2.1 ≠ key).Sublist c.list := List.filter_sublist
  refine ⟨h.distinct.sublist (hsub.map _), ?_, h.nodes.sublist (hsub.map _), fun n hn => ?_⟩
  · have hkeys : (c.list.filter fun m => m.2.1 ≠ key).map (fun n => n.2.1) =
        (c.list.map fun n => n.2.1).erase key := by
      rw [h.distinct.erase_eq_filter, List.filter_map]
      refine congrArg _ (List.filter_congr fun n _ => ?_)
      by_cases heq : n.2.1 = key
      · simp [heq]
      · simp [heq]
    change (List.map (fun n => n.2.1) (c.list.filter fun m => m.2.1 ≠ key)).Perm (c.map.erase key).keys
    rw [hkeys, AList.keys_erase]
    exact h.perm.erase key
  · obtain ⟨hmem, hne⟩ := List.mem_filter.mp hn
    change (c.map.erase key).lookup n.2.1 = some n.1
    rw [AList.lookup_erase_ne (by simpa using hne)]
    exact h.own n hmem

/-- A node that is moved to the end. -/
theorem InStep.perm_move (h : c.InStep) {n : ℕ × κ × α} (hn : n ∈ c.list) :
    (c.list.filter (fun m => m.1 ≠ n.1) ++ [n]).Perm c.list := by
  obtain ⟨s, t, hlist⟩ := List.append_of_mem hn
  have hnodes := h.nodes
  rw [hlist, List.map_append, List.map_cons, List.nodup_append] at hnodes
  obtain ⟨-, hcons, hdisj⟩ := hnodes
  have hs : s.filter (fun m => m.1 ≠ n.1) = s := by
    rw [List.filter_eq_self]
    intro m hm
    exact decide_eq_true (hdisj m.1 (List.mem_map_of_mem hm) n.1 List.mem_cons_self)
  have ht : t.filter (fun m => m.1 ≠ n.1) = t := by
    rw [List.filter_eq_self]
    intro m hm
    apply decide_eq_true
    intro heq
    exact (List.nodup_cons.mp hcons).1 (heq ▸ List.mem_map_of_mem hm)
  rw [hlist, List.filter_append, List.filter_cons_of_neg (by simp), hs, ht, List.append_assoc]
  exact (List.perm_append_comm : (t ++ [n]).Perm ([n] ++ t)).append_left s

/-- A cache whose nodes stand in another order is in step too. -/
theorem InStep.of_perm (h : c.InStep) {list : List (ℕ × κ × α)} (hperm : list.Perm c.list) :
    ({ c with list := list } : HashCache κ α).InStep where
  distinct := (hperm.map _).nodup_iff.mpr h.distinct
  perm := (hperm.map _).trans h.perm
  nodes := (hperm.map _).nodup_iff.mpr h.nodes
  own n hn := h.own n (hperm.mem_iff.mp hn)

theorem Follows.length_eq (h : Follows c l) : c.list.length = l.entries.length := by
  rw [← h.contents]
  exact (List.length_map _).symm

/-- A lookup touches its key. -/
theorem Follows.find (h : Follows c l) (key : κ) :
    ∃ c', c.find key = some (l.find key, c') ∧ Follows c' (l.touch key) := by
  unfold HashCache.find Lru.touch Lru.find
  rw [← h.contents]
  cases hl : c.map.lookup key with
  | none =>
      rw [lookup_contents_none h.inStep hl]
      exact ⟨c, rfl, h⟩
  | some pos =>
      obtain ⟨v, hn⟩ := h.inStep.mem_of_lookup hl
      have hfind : (c.list.find? fun n => n.1 = pos) = some (pos, key, v) := by
        cases hf : c.list.find? fun n => decide (n.1 = pos) with
        | none =>
            have hnone := List.find?_eq_none.mp hf _ hn
            simp at hnone
        | some n =>
            have hpos : n.1 = pos := by simpa using List.find?_some hf
            rw [List.inj_on_of_nodup_map h.inStep.nodes (List.mem_of_find?_eq_some hf) hn hpos]
      have hperm := h.inStep.perm_move hn
      rw [lookup_contents h.inStep hn]
      dsimp only
      rw [hfind]
      refine ⟨_, rfl, h.inStep.of_perm hperm, ?_, h.maxSize, fun n hmem => h.fresh n (hperm.mem_iff.mp hmem)⟩
      unfold HashCache.contents Lru.put
      rw [List.map_append, h.inStep.filter_eq hn, map_without, ← h.contents]
      rfl

/-- An erased key leaves the order. -/
theorem Follows.erase (h : Follows c l) (key : κ) :
    ∃ c', c.erase key = some c' ∧ Follows c' { l with entries := SizedEvictor.without l.entries key } := by
  unfold HashCache.erase
  cases hl : c.map.lookup key with
  | none =>
      refine ⟨c, rfl, h.inStep, ?_, h.maxSize, h.fresh⟩
      have hsame : (c.list.filter fun m => m.2.1 ≠ key) = c.list := by
        rw [List.filter_eq_self]
        exact fun n hn => decide_eq_true (h.inStep.not_mem_of_lookup hl n hn)
      change c.contents = SizedEvictor.without l.entries key
      rw [← h.contents]
      unfold HashCache.contents
      rw [← map_without, hsame]
  | some pos =>
      obtain ⟨v, hn⟩ := h.inStep.mem_of_lookup hl
      have hpos : pos ∈ c.list.map Prod.fst := by
        rw [List.mem_map]
        exact ⟨_, hn, rfl⟩
      dsimp only
      rw [if_pos hpos, h.inStep.filter_eq hn]
      refine ⟨_, rfl, h.inStep.erase key, ?_, h.maxSize, fun n hmem => h.fresh n (List.mem_of_mem_filter hmem)⟩
      unfold HashCache.contents
      rw [map_without]
      exact congrArg (SizedEvictor.without · key) h.contents

/-- The flag that a replace is on its way is no part of the tie. -/
theorem Follows.replacing (h : Follows c l) (b : Bool) : Follows { c with replacing := b } l :=
  ⟨⟨h.inStep.distinct, h.inStep.perm, h.inStep.nodes, h.inStep.own⟩, h.contents, h.maxSize, h.fresh⟩

/-- The cache with a node more, before it is looked whether it is too large. -/
def push (c : HashCache κ α) (key : κ) (v : α) : HashCache κ α :=
  { c with list := c.list ++ [(c.next, key, v)], next := c.next + 1, map := c.map.insert key c.next }

theorem insert_eq (c : HashCache κ α) (key : κ) (v : α) :
    c.insert key v = c.push key v ∨ c.insert key v = { c.push key v with replacing := true } := by
  unfold insert
  dsimp only
  split_ifs
  · exact .inr rfl
  · exact .inl rfl

theorem Follows.mem_iff (h : Follows c l) :
    key ∈ l.entries.map Prod.fst ↔ key ∈ c.list.map fun n => n.2.1 := by
  rw [← h.contents]
  unfold HashCache.contents
  rw [List.map_map]
  rfl

/-- **An insert of a key that is not there keeps the tie.** -/
theorem Follows.insert (h : Follows c l) (hkey : key ∉ l.entries.map Prod.fst) (v : α) :
    Follows (c.insert key v) (l.put key v) := by
  have hlist : key ∉ c.list.map fun n => n.2.1 := fun hmem => hkey (h.mem_iff.mpr hmem)
  have hnext : c.next ∉ c.list.map Prod.fst := by
    intro hmem
    obtain ⟨n, hn, heq⟩ := List.mem_map.mp hmem
    have hlt := h.fresh n hn
    omega
  have hmap : key ∉ c.map.keys := fun hmem => hlist (h.inStep.perm.mem_iff.mpr hmem)
  have hpush : Follows (c.push key v) (l.put key v) := by
    refine ⟨⟨?_, ?_, ?_, ?_⟩, ?_, h.maxSize, ?_⟩
    · change ((c.list ++ [(c.next, key, v)]).map fun n => n.2.1).Nodup
      rw [List.map_append, List.map_singleton]
      exact List.nodup_append.mpr ⟨h.inStep.distinct, List.nodup_singleton _, fun a ha b hb => by
        rw [List.mem_singleton.mp hb]
        rintro rfl
        exact hlist ha⟩
    · change ((c.list ++ [(c.next, key, v)]).map fun n => n.2.1).Perm (c.map.insert key c.next).keys
      rw [List.map_append, List.map_singleton, AList.keys_insert, List.erase_of_not_mem hmap]
      exact List.perm_append_comm.trans (h.inStep.perm.cons key)
    · change ((c.list ++ [(c.next, key, v)]).map Prod.fst).Nodup
      rw [List.map_append, List.map_singleton]
      exact List.nodup_append.mpr ⟨h.inStep.nodes, List.nodup_singleton _, fun a ha b hb => by
        rw [List.mem_singleton.mp hb]
        rintro rfl
        exact hnext ha⟩
    · intro n hn
      change (c.map.insert key c.next).lookup n.2.1 = some n.1
      obtain hn | hn := List.mem_append.mp hn
      · have hne : n.2.1 ≠ key := fun heq => hlist (heq ▸ List.mem_map_of_mem (f := fun n => n.2.1) hn)
        rw [AList.lookup_insert_ne hne]
        exact h.inStep.own n hn
      · rw [List.mem_singleton.mp hn]
        exact AList.lookup_insert c.map
    · change (c.list ++ [(c.next, key, v)]).map Prod.snd = SizedEvictor.without l.entries key ++ [(key, v)]
      have hwithout : SizedEvictor.without l.entries key = l.entries := by
        refine List.filter_eq_self.mpr fun p hp => ?_
        exact decide_eq_true fun heq => hkey (heq ▸ List.mem_map_of_mem hp)
      rw [List.map_append, List.map_singleton, hwithout, ← h.contents]
      rfl
    · intro n hn
      change n.1 < c.next + 1
      obtain hn | hn := List.mem_append.mp hn
      · exact Nat.lt_succ_of_lt (h.fresh n hn)
      · rw [List.mem_singleton.mp hn]
        exact Nat.lt_succ_self _
  obtain heq | heq := c.insert_eq key v
  · rwa [heq]
  · rw [heq]
    exact hpush.replacing true

/-- **An insert of a key that is there puts it into the list twice.** -/
theorem Follows.not_inStep_insert (h : Follows c l) (hkey : key ∈ l.entries.map Prod.fst) (v : α) :
    ¬(c.insert key v).InStep := by
  intro hstep
  have hlist : (c.insert key v).list = c.list ++ [(c.next, key, v)] := by
    obtain heq | heq := c.insert_eq key v
    · rw [heq]
      rfl
    · rw [heq]
      rfl
  have hdistinct := hstep.distinct
  rw [hlist, List.map_append, List.map_singleton] at hdistinct
  exact (List.nodup_append.mp hdistinct).2.2 key (h.mem_iff.mp hkey) key List.mem_cons_self rfl

/-- The nodes behind the first ones, and the map without the keys of these. -/
theorem InStep.drop (h : c.InStep) (count : ℕ) :
    ({ c with
        list := c.list.drop count
        map := (c.list.take count).foldl (fun m n => m.erase n.2.1) c.map } : HashCache κ α).InStep := by
  induction count generalizing c with
  | zero => exact ⟨h.distinct, h.perm, h.nodes, h.own⟩
  | succ count ih =>
      cases hlist : c.list with
      | nil =>
          rw [List.take_nil, List.drop_nil]
          obtain ⟨hdistinct, hperm, hnodes, hown⟩ := h
          rw [hlist] at hdistinct hperm hnodes hown
          exact ⟨hdistinct, hperm, hnodes, hown⟩
      | cons n rest =>
          have herase := h.erase n.2.1
          have hrest : (c.list.filter fun m => m.2.1 ≠ n.2.1) = rest := by
            have hnot := (List.nodup_cons.mp (hlist ▸ h.distinct : (List.map _ (n :: rest)).Nodup)).1
            rw [hlist, List.filter_cons_of_neg (by simp), List.filter_eq_self]
            intro m hm
            apply decide_eq_true
            intro heq
            exact hnot (heq ▸ List.mem_map_of_mem (f := fun n => n.2.1) hm)
          rw [hrest] at herase
          exact ih herase

/-- **A replace leaves the values used last, as many as there may be.** -/
theorem Follows.replace (h : Follows c l) (hsize : l.maxSize ≤ l.entries.length) :
    ∃ count c', c.replace = some (count, c') ∧ Follows c' l.replace := by
  have hlength := h.length_eq
  unfold HashCache.replace
  rw [h.inStep.size_eq, h.maxSize, if_neg (by omega)]
  dsimp only
  rw [if_neg (by omega)]
  refine ⟨_, _, rfl, ⟨(h.inStep.drop _).distinct, (h.inStep.drop _).perm, (h.inStep.drop _).nodes,
    (h.inStep.drop _).own⟩, ?_, rfl, fun n hn => h.fresh n (List.mem_of_mem_drop hn)⟩
  change (c.list.drop _).map Prod.snd = l.entries.drop _
  rw [List.map_drop, ← hlength]
  exact congrArg (List.drop _) h.contents

/-! ## Interleavings -/

/-- Every event returns what it does to the order of use, and before and behind each the cache is in
step and holds the values in that order. -/
def Exact (c : HashCache κ α) (l : Lru κ α) : List (CacheEvent κ α) → Prop
  | [] => c.InStep ∧ c.contents = l.entries
  | ev :: evs => (c.InStep ∧ c.contents = l.entries) ∧
      ∃ c', ev.step c = some ((l.step ev).1, c') ∧ Exact c' (l.step ev).2 evs

/-- An insert finds no value of its key, and a replace no less than the limit. -/
def Fits (l : Lru κ α) : CacheEvent κ α → Prop
  | .insert key _ => key ∉ l.entries.map Prod.fst
  | .replace => l.maxSize ≤ l.entries.length
  | _ => True

/-- All events of an interleaving fit. -/
def AllFit (l : Lru κ α) : List (CacheEvent κ α) → Prop
  | [] => True
  | ev :: evs => Fits l ev ∧ AllFit (l.step ev).2 evs

/-- One event that fits. -/
theorem Follows.step (h : Follows c l) (hfits : Fits l ev) :
    ∃ c', ev.step c = some ((l.step ev).1, c') ∧ Follows c' (l.step ev).2 := by
  cases ev with
  | find key => exact h.find key
  | insert key v => exact ⟨c.insert key v, rfl, h.insert hfits v⟩
  | erase key =>
      obtain ⟨c', herase, hfollows⟩ := h.erase key
      refine ⟨c', ?_, hfollows⟩
      change (c.erase key).map (none, ·) = _
      rw [herase]
      rfl
  | replace =>
      obtain ⟨count, c', hreplace, hfollows⟩ := h.replace hfits
      refine ⟨c', ?_, hfollows⟩
      change c.replace.map (fun r => (none, r.2)) = _
      rw [hreplace]
      rfl

/-- One event that does not fit. -/
theorem Follows.not_step (h : Follows c l) (hfits : ¬Fits l ev) {r : Option α}
    (hstep : ev.step c = some (r, c')) : ¬c'.InStep := by
  cases ev with
  | find key => exact absurd trivial hfits
  | insert key v =>
      unfold Fits at hfits
      cases hstep
      exact h.not_inStep_insert (not_not.mp hfits) v
  | erase key => exact absurd trivial hfits
  | replace =>
      unfold Fits at hfits
      have hlength := h.length_eq
      have hnone : c.replace = none := by
        unfold HashCache.replace
        rw [h.inStep.size_eq, h.maxSize, if_pos (by omega)]
      change c.replace.map (fun r => (none, r.2)) = _ at hstep
      rw [hnone] at hstep
      cases hstep

theorem Exact.inStep {evs : List (CacheEvent κ α)} (h : Exact c l evs) : c.InStep := by
  cases evs with
  | nil => exact h.1
  | cons ev evs => exact h.1.1

/-- The interleavings of a cache that is in step. -/
theorem Follows.stays_exact_iff (h : Follows c l) (evs : List (CacheEvent κ α)) :
    Exact c l evs ↔ AllFit l evs := by
  induction evs generalizing c l with
  | nil => exact ⟨fun _ => trivial, fun _ => ⟨h.inStep, h.contents⟩⟩
  | cons ev evs ih =>
      unfold Exact AllFit
      constructor
      · rintro ⟨-, c', hstep, hrest⟩
        have hfits : Fits l ev := by
          by_contra hnot
          exact h.not_step hnot hstep hrest.inStep
        obtain ⟨c₁, hstep₁, h₁⟩ := h.step hfits
        rw [hstep] at hstep₁
        cases hstep₁
        exact ⟨hfits, (ih h₁).mp hrest⟩
      · rintro ⟨hfits, hrest⟩
        obtain ⟨c₁, hstep₁, h₁⟩ := h.step hfits
        exact ⟨⟨h.inStep, h.contents⟩, c₁, hstep₁, (ih h₁).mpr hrest⟩

/-- **The cache keeps its list and its map in step exactly as long as no insert finds its key there
and no replace finds less than the limit.** -/
theorem cache_exact_iff (maxSize : ℕ) (evs : List (CacheEvent κ α)) :
    Exact (new maxSize) ⟨[], maxSize⟩ evs ↔ AllFit ⟨[], maxSize⟩ evs :=
  (follows_new maxSize).stays_exact_iff evs

/-- Two threads locate a key at once: both miss, and both insert what they created. -/
theorem two_locates : ¬∀ (maxSize : ℕ) (evs : List (CacheEvent ℕ Char)),
    Exact (new maxSize) ⟨[], maxSize⟩ evs := by
  intro h
  have hexact := h 10 [.find 1, .find 1, .insert 1 'a', .insert 1 'a']
  rw [(follows_new 10).stays_exact_iff] at hexact
  obtain ⟨-, -, -, hfits, -⟩ := hexact
  revert hfits
  unfold Fits
  decide

end HashCache

end Oce.UtilCxx
