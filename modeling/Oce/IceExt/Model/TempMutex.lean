import Oce.Base.Int32
import Oce.Base.LockTable
import Oce.Base.OrdMap
import Oce.Base.Run

/-!
# Mutexes that are there while they are needed

`TempMutexManagerT` keeps a mutex for every key that somebody has asked for, in one of its holders,
and counts who has; `Locks` tries the mutexes of several keys and gives those it got back in its
destructor, and `Lock`, of `TempMutex.h`, waits for the one of a single key. What is done under the
mutex of a holder, and each call of a mutex, is a step of its own; the steps of all threads come in any
order.

A mutex is known by its address, and no address is used twice. `fault` is set when an object is touched
that is not there, when a count leaves the range of an `int`, when somebody unlocks what he does not
have, and when a mutex is deleted that somebody has. `log` is not in the source: what has become of the
locks so far.
-/

set_option autoImplicit false

namespace Oce.IceExt.TempMutex

open Function Oce.Base
open Oce.Base.LockTable (Event)

/-- SOURCE: TempMutexT.h:14-41, TempMutex.h:14-41 -/
structure TempMutexT where
  refCount : ℤ
  owner : Option ℕ
  deriving DecidableEq

/-- Where a thread is. -/
inductive Phase (κ : Type) where
  | idle
  /-- In the constructor, before the keys in `todo`. -/
  | getting (todo : List κ)
  /-- It has the mutex of `key`, and locks it next. -/
  | locking (key : κ) (p : ℕ) (todo : List κ)
  | working
  /-- In the destructor, before the locks in `todo`. -/
  | releasing (todo : List (κ × ℕ))
  /-- It has unlocked the mutex of `key`. -/
  | dropping (key : κ) (todo : List (κ × ℕ))
  /-- The constructor has thrown. -/
  | thrown
  deriving DecidableEq

/-- A thread with its `Locks`, which tries, or its `Lock`, which waits. -/
structure Thread (κ : Type) [LinearOrder κ] where
  phase : Phase κ
  waits : Bool
  locksMap : OrdMap κ ℕ
  lockedKeys : List κ
  failedKeys : List κ

/-- The manager, the mutexes and the threads. -/
structure State (κ : Type) [LinearOrder κ] where
  mutexMap : ℕ → κ → Option ℕ
  heap : ℕ → Option TempMutexT
  next : ℕ
  threads : List (Thread κ)
  fault : Bool
  log : List (Event ℕ κ)

variable {κ : Type} [LinearOrder κ]

namespace State

/-- Something is done to a mutex, if it is there. -/
def touch (s : State κ) (p : ℕ) (f : TempMutexT → Option TempMutexT) : State κ :=
  match (s.heap p).bind f with
  | some m => { s with heap := update s.heap p (some m) }
  | none => { s with fault := true }

/-- SOURCE: TempMutexT.h:24-28 -/
def inc (s : State κ) (p : ℕ) : State κ :=
  s.touch p fun m => if IsInt (m.refCount + 1) then some { m with refCount := m.refCount + 1 } else none

/-- SOURCE: TempMutexT.h:30-34 -/
def dec (s : State κ) (p : ℕ) : State κ :=
  s.touch p fun m => if IsInt (m.refCount - 1) then some { m with refCount := m.refCount - 1 } else none

/-- `delete`. -/
def free (s : State κ) (p : ℕ) : State κ :=
  { s with heap := update s.heap p none, fault := s.fault || (s.heap p).any fun m => m.owner.isSome }

def setThread (s : State κ) (t : ℕ) (th : Thread κ) : State κ := { s with threads := s.threads.set t th }

section Manager

variable (number : κ → ℤ) (holderSize : ℤ)

/-- The holder of a key; `at` throws if there is none. SOURCE: TempMutexT.h:83-116 -/
def holder (key : κ) : Option ℕ :=
  let i := (number key).tmod holderSize
  if 0 ≤ i ∧ i < holderSize then some i.toNat else none

/-- The new mutex is deleted at once if there is one for the key. SOURCE: TempMutexT.h:49-63 -/
def getMutex (s : State κ) (i : ℕ) (key : κ) : State κ × ℕ :=
  match s.mutexMap i key with
  | some p => (s.inc p, p)
  | none =>
    let p := s.next
    let s := { s with
      heap := update s.heap p (some ⟨0, none⟩)
      mutexMap := update s.mutexMap i (update (s.mutexMap i) key (some p))
      next := p + 1 }
    (s.inc p, p)

/-- SOURCE: TempMutexT.h:65-77 -/
def releaseMutex (s : State κ) (i : ℕ) (key : κ) : State κ :=
  match s.mutexMap i key with
  | none => s
  | some p =>
    let s := s.dec p
    if (s.heap p).map TempMutexT.refCount = some 0 then
      { s with mutexMap := update s.mutexMap i (update (s.mutexMap i) key none) }.free p
    else s

/-- What the thread does with the mutex it has just got. SOURCE: TempMutexT.h:130-144 -/
def lock (s : State κ) (t : ℕ) (th : Thread κ) (key : κ) (p : ℕ) (todo : List κ) : State κ :=
  match s.heap p with
  | none => { s with fault := true }
  | some m =>
    if m.owner = none then
      { s with
        heap := update s.heap p (some { m with owner := some t })
        log := s.log ++ [Event.acquired t key] }.setThread t
          { th with
            phase := .getting todo
            locksMap := th.locksMap.insertNew key p
            lockedKeys := th.lockedKeys ++ [key] }
    else if th.waits then s
    else
      { s with log := s.log ++ [Event.refused t key] }.setThread t
        { th with phase := .getting todo, failedKeys := th.failedKeys ++ [key] }

/-- `release` of a lock. SOURCE: TempMutexT.h:149 -/
def unlock (s : State κ) (t : ℕ) (key : κ) (p : ℕ) : State κ :=
  match s.heap p with
  | none => { s with fault := true }
  | some m =>
    if m.owner = some t then
      { s with
        heap := update s.heap p (some { m with owner := none })
        log := s.log ++ [Event.released t key] }
    else { s with fault := true }

/-- The next step of a thread. SOURCE: TempMutexT.h:130-156, TempMutex.h:125-133 -/
def advance (s : State κ) (t : ℕ) (th : Thread κ) : State κ :=
  match th.phase with
  | .idle => s
  | .getting [] => s.setThread t { th with phase := .working }
  | .getting (key :: todo) =>
    match holder number holderSize key with
    | none => s.setThread t { th with phase := .thrown }
    | some i =>
      let (s, p) := s.getMutex i key
      s.setThread t { th with phase := .locking key p todo }
  | .locking key p todo => s.lock t th key p todo
  | .working => s.setThread t { th with phase := .releasing th.locksMap.entries }
  | .releasing [] => s.setThread t { th with phase := .idle, locksMap := .empty }
  | .releasing ((key, p) :: todo) => (s.unlock t key p).setThread t { th with phase := .dropping key todo }
  | .dropping key todo =>
    match holder number holderSize key with
    | none => s.setThread t { th with phase := .thrown }
    | some i => (s.releaseMutex i key).setThread t { th with phase := .releasing todo }
  | .thrown => s

end Manager

end State

/-- A thread begins with a `Locks` or a `Lock`, or takes its next step. -/
inductive Op (κ : Type) where
  | locks (t : ℕ) (keys : List κ)
  | lock (t : ℕ) (key : κ)
  | advance (t : ℕ)

/-- A constructor begins, where the thread is idle. -/
def State.enter (s : State κ) (t : ℕ) (waits : Bool) (keys : List κ) : State κ :=
  match s.threads[t]? with
  | some ⟨.idle, _, _, _, _⟩ => s.setThread t ⟨.getting keys, waits, .empty, [], []⟩
  | _ => s

def step (number : κ → ℤ) (holderSize : ℤ) (s : State κ) : Op κ → State κ
  | .locks t keys => s.enter t false keys
  | .lock t key => s.enter t true [key]
  | .advance t =>
    match s.threads[t]? with
    | some th => s.advance number holderSize t th
    | none => s

/-- A manager that nobody has used yet, and `n` threads. -/
def State.new (n : ℕ) : State κ :=
  { mutexMap := fun _ _ => none
    heap := fun _ => none
    next := 0
    threads := List.replicate n ⟨.idle, false, .empty, [], []⟩
    fault := false
    log := [] }

end Oce.IceExt.TempMutex
