import Mathlib.Data.List.AList
import Mathlib.Data.List.Nodup
import Mathlib.Logic.Function.Basic
import Oce.Base.Int32

/-!
# The sized evictor

A map with a queue of its keys, of which the front is the key used last; what is behind the
first `_size` keys is evicted. The queue and the map have the same keys, so they are one
list here. Every operation holds the evictor's mutex from its beginning to its end.
-/

set_option autoImplicit false

namespace Oce.UtilCxx

variable {κ α : Type*} [DecidableEq κ]

/-- SOURCE: Evictor.h:35-165 -/
structure SizedEvictor (κ α : Type*) where
  entries : List (κ × α)
  size : ℕ
  nodup : (entries.map Prod.fst).Nodup

namespace SizedEvictor

def new (size : ℕ) : SizedEvictor κ α := ⟨[], size, List.nodup_nil⟩

/-- What a key maps to. -/
def lookup (entries : List (κ × α)) (id : κ) : Option α :=
  (entries.find? fun p => p.1 = id).map Prod.snd

/-- The entries of the other keys. -/
def without (entries : List (κ × α)) (id : κ) : List (κ × α) := entries.filter fun p => p.1 ≠ id

theorem nodup_without {entries : List (κ × α)} (h : (entries.map Prod.fst).Nodup) (id : κ) :
    ((without entries id).map Prod.fst).Nodup :=
  h.sublist (List.filter_sublist.map Prod.fst)

theorem nodup_front {entries : List (κ × α)} (h : (entries.map Prod.fst).Nodup) (id : κ) (obj : α) :
    (((id, obj) :: without entries id).map Prod.fst).Nodup := by
  rw [List.map_cons, List.nodup_cons]
  refine ⟨fun hmem => ?_, nodup_without h id⟩
  obtain ⟨p, hp, he⟩ := List.mem_map.mp hmem
  have hne := (List.mem_filter.mp hp).2
  simp [he] at hne

/-- SOURCE: Evictor.h:86-97 -/
def find (e : SizedEvictor κ α) (id : κ) : Option α := lookup e.entries id

/-- SOURCE: Evictor.h:68-84 -/
def locate (e : SizedEvictor κ α) (id : κ) : Option α × SizedEvictor κ α :=
  match lookup e.entries id with
  | none => (none, e)
  | some obj => (some obj, ⟨(id, obj) :: without e.entries id, e.size, nodup_front e.nodup id obj⟩)

/-- What is left of the queue. SOURCE: Evictor.h:144-154 -/
def evict (size : ℕ) (entries : List (κ × α)) : List (κ × α) :=
  if 0 < size then entries.take size else entries

omit [DecidableEq κ] in
theorem evict_sublist (size : ℕ) (entries : List (κ × α)) : (evict size entries).Sublist entries := by
  unfold evict
  split
  · exact List.take_sublist _ _
  · exact List.Sublist.refl _

/-- SOURCE: Evictor.h:99-118 -/
def add (e : SizedEvictor κ α) (obj : α) (id : κ) : SizedEvictor κ α :=
  ⟨evict e.size ((id, obj) :: without e.entries id), e.size,
    (nodup_front e.nodup id obj).sublist ((evict_sublist _ _).map Prod.fst)⟩

/-- SOURCE: Evictor.h:120-130 -/
def remove (e : SizedEvictor κ α) (id : κ) : SizedEvictor κ α :=
  ⟨without e.entries id, e.size, nodup_without e.nodup id⟩

/-! ## What the operations leave -/

theorem mem_without {entries : List (κ × α)} {id : κ} {p : κ × α} :
    p ∈ without entries id ↔ p ∈ entries ∧ p.1 ≠ id := by
  simp [without]

theorem mem_of_lookup {entries : List (κ × α)} {id : κ} {obj : α} (h : lookup entries id = some obj) :
    (id, obj) ∈ entries := by
  obtain ⟨⟨id', obj'⟩, hfind, rfl⟩ := Option.map_eq_some_iff.mp h
  have hid : id' = id := by simpa using List.find?_some hfind
  exact hid ▸ List.mem_of_find?_eq_some hfind

theorem mem_of_find {e : SizedEvictor κ α} {id : κ} {obj : α} (h : e.find id = some obj) :
    (id, obj) ∈ e.entries :=
  mem_of_lookup h

/-- A lookup moves an entry and leaves the entries as they are. -/
theorem mem_of_mem_locate {e : SizedEvictor κ α} {id : κ} {p : κ × α}
    (h : p ∈ (e.locate id).2.entries) : p ∈ e.entries := by
  unfold locate at h
  split at h
  · exact h
  · next obj hobj =>
      rcases List.mem_cons.mp h with rfl | hmem
      · exact mem_of_lookup hobj
      · exact (mem_without.mp hmem).1

theorem mem_of_locate {e : SizedEvictor κ α} {id : κ} {obj : α} (h : (e.locate id).1 = some obj) :
    (id, obj) ∈ e.entries := by
  unfold locate at h
  split at h
  · cases h
  · next obj' hobj =>
      cases h
      exact mem_of_lookup hobj

theorem mem_of_mem_add {e : SizedEvictor κ α} {id : κ} {obj : α} {p : κ × α}
    (h : p ∈ (e.add obj id).entries) : p = (id, obj) ∨ p ∈ e.entries := by
  rcases List.mem_cons.mp ((evict_sublist _ _).subset h) with rfl | hmem
  · exact .inl rfl
  · exact .inr (mem_without.mp hmem).1

theorem mem_remove {e : SizedEvictor κ α} {id : κ} {p : κ × α} :
    p ∈ (e.remove id).entries ↔ p ∈ e.entries ∧ p.1 ≠ id := mem_without

/-- What has just been added is not evicted. -/
theorem find_add_self (e : SizedEvictor κ α) (obj : α) (id : κ) : (e.add obj id).find id = some obj := by
  have hfront : ∃ rest, (e.add obj id).entries = (id, obj) :: rest := by
    show ∃ rest, evict e.size _ = _
    unfold evict
    split
    · next hpos =>
        obtain ⟨n, hn⟩ : ∃ n, e.size = n + 1 := ⟨_, (Nat.succ_pred_eq_of_pos hpos).symm⟩
        rw [hn, List.take_succ_cons]
        exact ⟨_, rfl⟩
    · exact ⟨_, rfl⟩
  obtain ⟨rest, hrest⟩ := hfront
  unfold find lookup
  rw [hrest]
  simp

end SizedEvictor

/-!
## The map and the queue of the evictor

A `SizedEvictor` with the iterators by which its map knows the places of its keys in the queue. An
iterator is the number of its node; a node that is erased is never used again, and erasing
one that is not in the queue, or looking at the back of an empty queue, has no defined result,
which is `none`.

The hash map is an association list in which every key stands once. `EvictorOp` lists the calls;
each holds the mutex from its beginning to its end.
-/

/-! ## The queue -/

/-- A `std::list` of keys: its nodes, and the number of the next one. -/
structure EvictorQueue (κ : Type*) where
  nodes : List (ℕ × κ)
  next : ℕ

namespace EvictorQueue

/-- `insert(begin(), key)`, with the iterator it returns. -/
def pushFront (q : EvictorQueue κ) (id : κ) : ℕ × EvictorQueue κ :=
  (q.next, ⟨(q.next, id) :: q.nodes, q.next + 1⟩)

/-- `erase(pos)`. -/
def erase (q : EvictorQueue κ) (pos : ℕ) : Option (EvictorQueue κ) :=
  if pos ∈ q.nodes.map Prod.fst then some { q with nodes := q.nodes.filter fun n => n.1 ≠ pos }
  else none

end EvictorQueue

/-- SOURCE: Evictor.h:39-42 -/
structure EvictorEntry (α : Type*) where
  obj : α
  pos : ℕ

/-- SOURCE: Evictor.h:43-47 -/
abbrev EvictorMap (κ α : Type*) := AList fun _ : κ => EvictorEntry α

/-! ## The evictor -/

/-- SOURCE: Evictor.h:35-57, 160-164 -/
structure HookedEvictor (κ α : Type*) where
  map : EvictorMap κ α
  queue : EvictorQueue κ
  size : ℕ

namespace HookedEvictor

def new (size : ℕ) : HookedEvictor κ α := ⟨∅, ⟨[], 0⟩, size⟩

/-- The queue gets a node for the key, and the map its place. SOURCE: Evictor.h:156-158 -/
def hook (e : HookedEvictor κ α) (id : κ) (obj : α) : HookedEvictor κ α :=
  let r := e.queue.pushFront id
  { e with map := e.map.insert id ⟨obj, r.1⟩, queue := r.2 }

/-- The loop of `evict`, with the back of the queue first. SOURCE: Evictor.h:147-153 -/
def evictLoop (size : ℕ) (map : EvictorMap κ α) :
    List (ℕ × κ) → Option (EvictorMap κ α × List (ℕ × κ))
  | [] => if size < map.keys.length then none else some (map, [])
  | n :: nodes =>
    if size < map.keys.length then evictLoop size (map.erase n.2) nodes else some (map, n :: nodes)

/-- SOURCE: Evictor.h:144-154 -/
def evict (e : HookedEvictor κ α) : Option (HookedEvictor κ α) :=
  if 0 < e.size then
    (evictLoop e.size e.map e.queue.nodes.reverse).map fun r =>
      { e with map := r.1, queue := { e.queue with nodes := r.2.reverse } }
  else some e

/-- SOURCE: Evictor.h:86-97 -/
def find (e : HookedEvictor κ α) (id : κ) (dflt : α) : α :=
  match e.map.lookup id with
  | some entry => entry.obj
  | none => dflt

/-- SOURCE: Evictor.h:68-84 -/
def locate (e : HookedEvictor κ α) (id : κ) (dflt : α) : Option (α × HookedEvictor κ α) :=
  match e.map.lookup id with
  | some entry =>
    (e.queue.erase entry.pos).map fun q => (entry.obj, { e with queue := q }.hook id entry.obj)
  | none => some (dflt, e)

theorem length_erase_lt {map : EvictorMap κ α} {id : κ} {entry : EvictorEntry α}
    (h : map.lookup id = some entry) : (map.erase id).keys.length < map.keys.length := by
  have hmem : id ∈ map.keys := by
    rw [← AList.mem_keys, ← AList.lookup_isSome, h]
    rfl
  have hpos := List.length_pos_of_mem hmem
  rw [AList.keys_erase, List.length_erase_of_mem hmem]
  omega

/-- The loop inserts the key, or takes it out of both and tries again.
SOURCE: Evictor.h:99-118 -/
def add (e : HookedEvictor κ α) (obj : α) (id : κ) : Option (HookedEvictor κ α) :=
  match _h : e.map.lookup id with
  | none => (e.hook id obj).evict
  | some entry =>
    match e.queue.erase entry.pos with
    | none => none
    | some q => { e with map := e.map.erase id, queue := q }.add obj id
termination_by e.map.keys.length
decreasing_by exact length_erase_lt _h

/-- SOURCE: Evictor.h:120-130 -/
def remove (e : HookedEvictor κ α) (id : κ) : Option (Option α × HookedEvictor κ α) :=
  match e.map.lookup id with
  | some entry =>
    (e.queue.erase entry.pos).map fun q =>
      (some entry.obj, { e with map := e.map.erase id, queue := q })
  | none => some (none, e)

/-- SOURCE: Evictor.h:132-136 -/
def clear (e : HookedEvictor κ α) : HookedEvictor κ α :=
  { e with map := ∅, queue := { e.queue with nodes := [] } }

/-- SOURCE: Evictor.h:58-61 -/
def setSize (e : HookedEvictor κ α) (size : ℕ) : HookedEvictor κ α := { e with size := size }

end HookedEvictor

/-! ## Calls -/

/-- The calls. `locate` and `find` name the object that they return for a key that is not there. -/
inductive EvictorOp (κ α : Type*) where
  | add (obj : α) (id : κ)
  | locate (id : κ) (dflt : α)
  | find (id : κ) (dflt : α)
  | remove (id : κ)
  | clear
  | size (n : ℕ)

namespace EvictorOp

/-- A call of the evictor, with the object that it returns. -/
def step (e : HookedEvictor κ α) : EvictorOp κ α → Option (Option α × HookedEvictor κ α)
  | add obj id => (e.add obj id).map (none, ·)
  | locate id dflt => (e.locate id dflt).map fun r => (some r.1, r.2)
  | find id dflt => some (some (e.find id dflt), e)
  | remove id => e.remove id
  | clear => some (none, e.clear)
  | size n => some (none, e.setSize n)

/-- The same call of a list of the entries, in the order of their last use. -/
def stepList (e : SizedEvictor κ α) : EvictorOp κ α → Option α × SizedEvictor κ α
  | add obj id => (none, e.add obj id)
  | locate id dflt => (some ((e.locate id).1.getD dflt), (e.locate id).2)
  | find id dflt => (some ((e.find id).getD dflt), e)
  | remove id => (e.find id, e.remove id)
  | clear => (none, ⟨[], e.size, List.nodup_nil⟩)
  | size n => (none, { e with size := n })

/-- A run, with what the calls return. -/
def run (e : HookedEvictor κ α) : List (EvictorOp κ α) → Option (List (Option α) × HookedEvictor κ α)
  | [] => some ([], e)
  | op :: ops => do
    let (r, e) ← op.step e
    let (rs, e) ← run e ops
    some (r :: rs, e)

def runList (e : SizedEvictor κ α) : List (EvictorOp κ α) → List (Option α) × SizedEvictor κ α
  | [] => ([], e)
  | op :: ops => ((op.stepList e).1 :: (runList (op.stepList e).2 ops).1, (runList (op.stepList e).2 ops).2)

end EvictorOp

end Oce.UtilCxx
