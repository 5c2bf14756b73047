import Oce.UtilCxx.Model.Evictor

/-!
# The hash cache

`HashCache` of `base` keeps its values in a list, the one used last at the end, and the places of
the keys in a map. A `Locate` that misses leaves the lock, has the value created and inserts it
under the lock again, so it is a lookup and, where a value was created, an insert some time later;
what other threads do stands between the two. `Replace` is posted when the cache has grown too large
and runs some time later, or is called.

A place is the number of its node, and no number is given twice. Moving or erasing a node that is
not there, and advancing from the front by a number that is none, have no defined result.
-/

set_option autoImplicit false


namespace Oce.UtilCxx

variable {κ α : Type*} [DecidableEq κ]

/-- SOURCE: base/cache.h:19-25, 133-139 -/
structure HashCache (κ α : Type*) where
  list : List (ℕ × κ × α)
  next : ℕ
  map : AList fun _ : κ => ℕ
  maxSize : ℕ
  replacing : Bool

namespace HashCache

def new (maxSize : ℕ) : HashCache κ α := ⟨[], 0, ∅, maxSize, false⟩

def size (c : HashCache κ α) : ℕ := c.map.keys.length

/-- SOURCE: base/cache.h:119-123 -/
def exceed (c : HashCache κ α) : Bool := c.maxSize < c.size ∧ c.maxSize / 10 < c.size - c.maxSize

/-- The first half of `Locate`, and `Find`: the value goes to the end of the list.
SOURCE: base/cache.h:27-37, 49-62 -/
def find (c : HashCache κ α) (key : κ) : Option (Option α × HashCache κ α) :=
  match c.map.lookup key with
  | none => some (none, c)
  | some pos =>
    match c.list.find? fun n => n.1 = pos with
    | none => none
    | some n => some (some n.2.2, { c with list := c.list.filter (fun m => m.1 ≠ pos) ++ [n] })

/-- SOURCE: base/cache.h:64-72 -/
def erase (c : HashCache κ α) (key : κ) : Option (HashCache κ α) :=
  match c.map.lookup key with
  | none => some c
  | some pos =>
    if pos ∈ c.list.map Prod.fst then
      some { c with list := c.list.filter fun m => m.1 ≠ pos, map := c.map.erase key }
    else none

/-- SOURCE: base/cache.h:74-86 -/
def insert (c : HashCache κ α) (key : κ) (v : α) : HashCache κ α :=
  let c := { c with list := c.list ++ [(c.next, key, v)], next := c.next + 1, map := c.map.insert key c.next }
  if !c.replacing && c.exceed then { c with replacing := true } else c

/-- The difference of the sizes is unsigned. SOURCE: base/cache.h:88-105 -/
def replace (c : HashCache κ α) : Option (ℕ × HashCache κ α) :=
  if c.size < c.maxSize then none
  else
    let count := c.size - c.maxSize
    if c.list.length < count then none
    else
      some (count, { c with
        list := c.list.drop count
        map := (c.list.take count).foldl (fun m n => m.erase n.2.1) c.map
        replacing := false })

end HashCache

/-- What a thread does while it holds the lock. -/
inductive CacheEvent (κ α : Type*) where
  | find (key : κ)
  | insert (key : κ) (v : α)
  | erase (key : κ)
  | replace

namespace CacheEvent

/-- An event, with the value that it returns. -/
def step (c : HashCache κ α) : CacheEvent κ α → Option (Option α × HashCache κ α)
  | find key => c.find key
  | insert key v => some (none, c.insert key v)
  | erase key => (c.erase key).map (none, ·)
  | replace => c.replace.map fun r => (none, r.2)

end CacheEvent

end Oce.UtilCxx
