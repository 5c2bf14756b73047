import Mathlib.Data.List.Rotate
import Mathlib.Data.String.Basic
import Oce.Base.OrdMap
import Oce.Base.Run

/-!
# The cache manager

`get`, `load` and `deleteCache` run side by side. Each works in rounds: it tries to lock the keys
that are left, works if it got any, lets go of them and goes on with those it did not get.

A call takes one step at a time (`Call.next`): it looks at the locks, the source and the cache
and leaves at most one trace on them (`Effect`). What it does not decide itself is its `Choice`:
whether a lock is held by one of the calls on lists, which key the producer or the cache turns to
next, what the producer says of it, and whether the cache was reached. The order of the steps of
all calls is a run.

Data is counted by the version of the source it was produced from, empty data being none. A lock
is one for a name, whatever the namespace and the business; the cache knows an entry by its
namespace and `businessId_key`. Both the cache client and the producer client are there.
-/

set_option autoImplicit false

namespace Oce.Tripod.CacheManager

open Oce.Base

/-- Which cache a call is about. -/
structure Scope where
  namespaceId : String
  businessId : String
  deriving DecidableEq

/-- SOURCE: internalclient/CacheClient.cpp:234-236. -/
def bigKey (businessId key : String) : String := businessId ++ "_" ++ key

/-- Data by the version it was produced from, none if it is empty. -/
abbrev Data := Option ℕ

/-- A `DataMap` as its list of entries. -/
abbrev DataMap := List (String × Data)

/-- `res.insert(m.begin(), m.end())`: a key that is there keeps its data. -/
def insertAll (res m : DataMap) : DataMap :=
  m.foldl (fun res e =>
    if (OrdMap.findEntry e.1 res).isSome then res else OrdMap.insertEntry e.1 e.2 res) res

inductive Kind
  | get
  | load
  | deleteCache
  deriving DecidableEq

/-- Where a call stands. -/
inductive Phase
  /-- Before `cache->get`. -/
  | lookup
  /-- In the constructor of `Locks`. -/
  | locking (todo lockedKeys failedLockedKeys : List String)
  /-- In `produce`, which has not turned to `todo` yet. -/
  | producing (todo : List String) (singleRes : DataMap) (lockedKeys failedLockedKeys : List String)
  /-- In `cache->set`. -/
  | storing (todo : DataMap) (lockedKeys failedLockedKeys : List String)
  /-- In `cache->remove`. -/
  | removing (todo lockedKeys failedLockedKeys : List String)
  /-- In the destructor of `Locks`, at the end of the loop or behind its `break`. -/
  | unlocking (todo inputKeys : List String) (again : Bool)
  | returned
  deriving DecidableEq

/-- A call with what it has computed for its caller. -/
structure Call where
  kind : Kind
  scope : Scope
  keys : List String
  phase : Phase
  res : DataMap
  sucFlag : Bool

/-- What a producer answers for a key. -/
inductive Answer
  | nothing
  | emptyData
  | data

/-- What a step does not decide itself. -/
structure Choice where
  hit : String → Bool
  busy : Bool
  pick : ℕ
  answer : Answer
  applied : Bool
  flag : Bool

/-- The trace of a step. -/
inductive Effect
  | nothing
  | lock (key : String)
  | unlock (key : String)
  | write (key : String) (data : Data)
  deriving DecidableEq

namespace Call

/-- Back to the locks for the keys that are left, or out of the loop. -/
def endRound (c : Call) (lockedKeys failedLockedKeys : List String) : Call :=
  { c with phase := .unlocking lockedKeys failedLockedKeys !failedLockedKeys.isEmpty }

/-- One step of a call. `free`, `cached` and `source` are what it finds: whether a key is not
locked, its entry, and the version of its source.

SOURCE: cachemanager/CacheManagerI.cpp:62-123 (get), 125-169 (load), 171-205 (deleteCache),
internalclient/CacheClient.cpp:76-116 (set), 150-183 (remove), IceExt/src/TempMutexT.h:130-155. -/
def next (free : String → Bool) (cached : String → Option ℕ) (source : String → ℕ) (ch : Choice)
    (c : Call) : Call × Effect :=
  match c.phase with
  | .lookup =>
    let found := fun k => if ch.hit k then cached k else none
    let inputKeys := c.keys.filter fun k => (found k).isNone
    let res := insertAll [] (c.keys.filterMap fun k => (found k).map fun v => (k, some v))
    if inputKeys.isEmpty then ({ c with phase := .returned, res := res }, .nothing)
    else ({ c with phase := .locking inputKeys [] [], res := res }, .nothing)
  | .locking [] [] failed => ({ c with phase := .unlocking [] failed true }, .nothing)
  | .locking [] (k :: locked) failed =>
    match c.kind with
    | .deleteCache => ({ c with phase := .removing c.keys (k :: locked) failed }, .nothing)
    | _ => ({ c with phase := .producing c.keys [] (k :: locked) failed }, .nothing)
  | .locking (k :: todo) locked failed =>
    if free k && !ch.busy then ({ c with phase := .locking todo (locked ++ [k]) failed }, .lock k)
    else ({ c with phase := .locking todo locked (failed ++ [k]) }, .nothing)
  | .producing todo singleRes locked failed =>
    match todo.rotate ch.pick with
    | [] =>
      if singleRes.isEmpty then (c.endRound locked failed, .nothing)
      else
        ({ c with phase := .storing singleRes locked failed, res := insertAll c.res singleRes },
          .nothing)
    | k :: rest =>
      match ch.answer with
      | .nothing => ({ c with phase := .producing rest singleRes locked failed }, .nothing)
      | .emptyData =>
        ({ c with phase := .producing rest (OrdMap.insertEntry k none singleRes) locked failed },
          .nothing)
      | .data =>
        ({ c with
            phase := .producing rest (OrdMap.insertEntry k (some (source k)) singleRes) locked failed },
          .nothing)
  | .storing todo locked failed =>
    match todo.rotate ch.pick with
    | [] => (c.endRound locked failed, .nothing)
    | (k, data) :: rest =>
      if ch.applied then
        ({ c with phase := .storing rest locked failed, sucFlag := c.sucFlag && ch.flag },
          .write k data)
      else ({ c with phase := .storing rest locked failed, sucFlag := false }, .nothing)
  | .removing todo locked failed =>
    match todo.rotate ch.pick with
    | [] => (c.endRound locked failed, .nothing)
    | k :: rest =>
      if ch.applied then
        ({ c with phase := .removing rest locked failed, sucFlag := c.sucFlag && ch.flag },
          .write k none)
      else ({ c with phase := .removing rest locked failed, sucFlag := false }, .nothing)
  | .unlocking [] inputKeys again =>
    if again then ({ c with phase := .locking inputKeys [] [] }, .nothing)
    else ({ c with phase := .returned }, .nothing)
  | .unlocking (k :: todo) inputKeys again =>
    ({ c with phase := .unlocking todo inputKeys again }, .unlock k)
  | .returned => (c, .nothing)

end Call

/-- The locks, the source, the caches and the calls, those that have returned included. -/
structure State where
  holder : String → Option ℕ
  source : String → String → ℕ
  cache : String → String → Option ℕ
  calls : ℕ → Option Call

namespace State

/-- Before the first call. -/
def init : State := ⟨fun _ => none, fun _ _ => 0, fun _ _ => none, fun _ => none⟩

/-- The entry of a key. -/
def entry (s : State) (scope : Scope) (key : String) : Option ℕ :=
  s.cache scope.namespaceId (bigKey scope.businessId key)

def setHolder (s : State) (key : String) (h : Option ℕ) : State :=
  { s with holder := fun k => if k = key then h else s.holder k }

def setEntry (s : State) (namespaceId key : String) (data : Data) : State :=
  { s with cache := fun n k => if n = namespaceId ∧ k = key then data else s.cache n k }

def setCall (s : State) (id : ℕ) (c : Call) : State :=
  { s with calls := fun i => if i = id then some c else s.calls i }

/-- The trace of a step of the call `id`. -/
def apply (s : State) (id : ℕ) (scope : Scope) : Effect → State
  | .nothing => s
  | .lock k => s.setHolder k (some id)
  | .unlock k => s.setHolder k none
  | .write k data => s.setEntry scope.namespaceId (bigKey scope.businessId k) data

/-- One step of the call `id`. -/
def advance (s : State) (id : ℕ) (ch : Choice) : State :=
  match s.calls id with
  | none => s
  | some c =>
    let r := c.next (fun k => (s.holder k).isNone) (s.entry c.scope)
      (s.source c.scope.businessId) ch
    (s.apply id c.scope r.2).setCall id r.1

/-- A new call. -/
def start (s : State) (id : ℕ) (kind : Kind) (scope : Scope) (keys : List String) : State :=
  match s.calls id with
  | some _ => s
  | none =>
    s.setCall id ⟨kind, scope, keys, if kind = .get then .lookup else .locking keys [] [], [], true⟩

end State

/-- What can happen: a call begins or takes a step, a source changes, an entry expires. -/
inductive Op
  | start (id : ℕ) (kind : Kind) (scope : Scope) (keys : List String)
  | advance (id : ℕ) (ch : Choice)
  | change (businessId key : String)
  | expire (namespaceId key : String)

def step (s : State) : Op → State
  | .start id kind scope keys => s.start id kind scope keys
  | .advance id ch => s.advance id ch
  | .change businessId key =>
    { s with source := fun b k =>
        if b = businessId ∧ k = key then s.source b k + 1 else s.source b k }
  | .expire namespaceId key => s.setEntry namespaceId key none

end Oce.Tripod.CacheManager
