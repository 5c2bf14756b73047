import Mathlib.Algebra.Order.Group.Int
import Oce.Base.OrdMap
import Oce.UtilCxx.Model.Evictor

/-!
# The object cache

`ObjectEvictor` with the calls that are under way. A chunk of the cache has an evictor and a
factory; a step of a call is one access to an evictor, one read of the store, or what it does
while it holds the monitor of a factory. A `SyncServantFactory` lets one task read the store
for all calls that wait for the same id; its requests are found under the id's low 32 bits.

Beside the cache stands the store that the factories read. Its updates are numbered, and an
object carries the number of the last update that its read can have seen.
-/

set_option autoImplicit false

namespace Oce.IceExt

open Oce.Base Oce.UtilCxx

variable {V : Type*}

/-- What a factory makes of the store's value, and how many updates there had been. -/
structure Built (V : Type*) where
  value : V
  readAt : ℕ
  deriving DecidableEq

/-! ## Factories -/

/-- A request that calls wait for. The task that handles it has `loaded` the object, or not yet.
SOURCE: ObjectCacheI.h:262-277 -/
structure Request (V : Type*) where
  id : ℤ
  finished : Bool
  loaded : Bool
  count : ℤ
  object : Option (Built V)

/-- The requests of a `SyncServantFactory`. -/
abbrev RequestMap (V : Type*) := ℕ → Option (Request V)

/-- The key of an id, an `Ice::Int`. SOURCE: ObjectCacheI.h:271 -/
def requestKey (id : ℤ) : ℕ := (id % 2 ^ 32).toNat

/-- A factory that reads the store in the call itself, or one with a task for it. -/
inductive ServantFactory (V : Type*) where
  | plain
  | sync (requests : RequestMap V)

/-- SOURCE: ObjectCacheI.cpp:409-411 -/
def ServantFactory.clone : ServantFactory V → ServantFactory V
  | .plain => .plain
  | .sync _ => .sync fun _ => none

namespace RequestMap

/-- The beginning of a create: the call joins the request there is, or makes one.
SOURCE: ObjectCacheI.cpp:377-387 -/
def join (requests : RequestMap V) (id : ℤ) : RequestMap V :=
  Function.update requests (requestKey id) <| some <|
    match requests (requestKey id) with
    | some r => { r with count := r.count + 1 }
    | none => ⟨id, false, false, 1, none⟩

/-- A look at the request: `none` if there is still something to wait for, otherwise what the call
returns. SOURCE: ObjectCacheI.cpp:389-400 -/
def poll (requests : RequestMap V) (id : ℤ) : Option (Option (Built V)) × RequestMap V :=
  match requests (requestKey id) with
  | none => (some none, requests)
  | some r =>
    if r.finished then
      (some r.object,
        Function.update requests (requestKey r.id)
          (if r.count - 1 ≤ 0 then none else some { r with count := r.count - 1 }))
    else (none, requests)

/-- The task puts the object into the request. SOURCE: ObjectCacheI.cpp:428-438 -/
def load (requests : RequestMap V) (key : ℕ) (read : ℤ → Option (Built V)) : RequestMap V :=
  match requests key with
  | some r =>
    if r.finished ∨ r.loaded then requests
    else Function.update requests key (some { r with object := read r.id, loaded := true })
  | none => requests

/-- The task ends the request. SOURCE: ObjectCacheI.cpp:413-426 -/
def finish (requests : RequestMap V) (key : ℕ) : RequestMap V :=
  match requests key with
  | some r => if r.loaded then Function.update requests key (some { r with finished := true }) else requests
  | none => requests

end RequestMap

/-! ## Calls -/

inductive CallKind where
  | find | locate | create
  deriving DecidableEq, Repr

/-- One id, or several. -/
inductive Ids where
  | one (id : ℤ)
  | many (ids : List ℤ)
  deriving DecidableEq, Repr

def Ids.toList : Ids → List ℤ
  | .one id => [id]
  | .many ids => ids

/-- Where a call is: it looks ids up; it creates objects, with the factory of one chunk; it waits in
the factory's monitor for one of them; it adds them to the cache; it has returned. -/
inductive Stage (V : Type*) where
  | looking (ids missing : List ℤ)
  | creating (chunk : ℕ) (ids : List ℤ) (made : OrdMap ℤ (Built V))
  | waiting (chunk : ℕ) (id : ℤ) (ids : List ℤ) (made : OrdMap ℤ (Built V))
  | adding (made : List (ℤ × Built V))
  | returned

/-- A call with the objects that it has for its caller so far. `since` is what had been invalidated
when it began. -/
structure Call (V : Type*) where
  kind : CallKind
  ids : Ids
  stage : Stage V
  data : OrdMap ℤ (Built V)
  since : ℤ → ℕ

/-- What a call has returned; the locate of one id throws `NoSuchObjectException` if there is nothing
to return. SOURCE: ObjectCacheI.cpp:77-89, 91-114 -/
def Call.result (c : Call V) : Option (OrdMap ℤ (Built V)) :=
  match c.stage, c.kind, c.ids with
  | .returned, .locate, .one id => if (c.data.find id).isSome then some c.data else none
  | .returned, _, _ => some c.data
  | _, _, _ => none

/-! ## The cache -/

/-- SOURCE: ObjectCacheI.h:108-111 -/
structure Chunk (V : Type*) where
  evictor : SizedEvictor ℤ (Built V)
  factory : Option (ServantFactory V)

/-- The cache, its calls, and the store: how many updates it has seen, the number of the last update
of each id, and of the last one that a remove of the id has followed. -/
structure ObjectEvictor (V : Type*) where
  chunkSize : ℕ
  chunks : ℕ → Chunk V
  calls : List (Call V)
  store : ℤ → Option V
  now : ℕ
  updated : ℤ → ℕ
  invalid : ℤ → ℕ

/-- What happens: the store is updated; an id is removed; a call begins, or takes its next step; a
task of a factory loads an object, or ends its request. A factory may fail to read. -/
inductive Event (V : Type*) where
  | update (id : ℤ) (value : Option V)
  | remove (id : ℤ)
  | call (kind : CallKind) (ids : Ids)
  | next (call : ℕ) (reads : Bool)
  | load (chunk key : ℕ) (reads : Bool)
  | finish (chunk key : ℕ)

namespace ObjectEvictor

/-- SOURCE: ObjectCacheI.cpp:16-41 -/
def new (size : ℕ) (factory : Option (ServantFactory V)) (store : ℤ → Option V) : ObjectEvictor V :=
  let chunkSize := if size ≤ 1000 then 1 else 11
  { chunkSize := chunkSize
    chunks := fun _ => ⟨.new (size / chunkSize + 1), factory.map ServantFactory.clone⟩
    calls := []
    store := store
    now := 0
    updated := fun _ => 0
    invalid := fun _ => 0 }

/-- `id % _chunkSize`, of unsigned 64-bit numbers. -/
def chunkOf (s : ObjectEvictor V) (id : ℤ) : ℕ := (id % 2 ^ 64).toNat % s.chunkSize

def evictorOf (s : ObjectEvictor V) (id : ℤ) : SizedEvictor ℤ (Built V) := (s.chunks (s.chunkOf id)).evictor

def setEvictor (s : ObjectEvictor V) (id : ℤ) (e : SizedEvictor ℤ (Built V)) : ObjectEvictor V :=
  { s with chunks := Function.update s.chunks (s.chunkOf id) { s.chunks (s.chunkOf id) with evictor := e } }

def setFactory (s : ObjectEvictor V) (chunk : ℕ) (f : ServantFactory V) : ObjectEvictor V :=
  { s with chunks := Function.update s.chunks chunk { s.chunks chunk with factory := some f } }

/-- The underlying factory reads the store. -/
def read (s : ObjectEvictor V) (reads : Bool) (id : ℤ) : Option (Built V) :=
  if reads then (s.store id).map fun v => ⟨v, s.now⟩ else none

/-- SOURCE: ObjectCacheI.cpp:126-134 -/
def remove (s : ObjectEvictor V) (id : ℤ) : ObjectEvictor V :=
  { s.setEvictor id ((s.evictorOf id).remove id) with
    invalid := Function.update s.invalid id (s.updated id) }

def update (s : ObjectEvictor V) (id : ℤ) (value : Option V) : ObjectEvictor V :=
  { s with
    store := Function.update s.store id value
    now := s.now + 1
    updated := Function.update s.updated id (s.now + 1) }

/-- The objects that a create has made so far, with one more if there is one. -/
def made (made : OrdMap ℤ (Built V)) (id : ℤ) : Option (Built V) → OrdMap ℤ (Built V)
  | some obj => made.insert id obj
  | none => made

/-- A call begins: a reload task begins with the create. SOURCE: ObjectCacheI.cpp:144-150 -/
def call (s : ObjectEvictor V) (kind : CallKind) (ids : Ids) : ObjectEvictor V :=
  let stage :=
    match kind with
    | .create => .creating (s.chunkOf (ids.toList.headD 0)) ids.toList .empty
    | _ => .looking ids.toList []
  { s with calls := s.calls ++ [⟨kind, ids, stage, .empty, s.invalid⟩] }

/-- The next step of a call. -/
def stepCall (s : ObjectEvictor V) (c : Call V) (reads : Bool) : ObjectEvictor V × Call V :=
  match c.stage with
  | .looking (id :: ids) missing =>
    match c.kind with
    | .find =>
      -- SOURCE: ObjectCacheI.cpp:60-75
      (s, { c with stage := .looking ids missing, data := made c.data id ((s.evictorOf id).find id) })
    | _ =>
      -- SOURCE: ObjectCacheI.cpp:77-103
      let found := (s.evictorOf id).locate id
      (s.setEvictor id found.2,
        { c with
          stage := .looking ids (if found.1.isSome then missing else missing ++ [id])
          data := made c.data id found.1 })
  | .looking [] [] => (s, { c with stage := .returned })
  | .looking [] (id :: missing) =>
    (s, { c with stage := .creating (s.chunkOf id) (id :: missing) .empty })
  | .creating chunk (id :: ids) objs =>
    match (s.chunks chunk).factory with
    | none => (s, { c with stage := .returned })
    | some .plain => (s, { c with stage := .creating chunk ids (made objs id (s.read reads id)) })
    | some (.sync requests) =>
      -- SOURCE: ObjectCacheI.cpp:375-407
      let polled := (requests.join id).poll id
      match polled.1 with
      | some obj =>
        (s.setFactory chunk (.sync polled.2), { c with stage := .creating chunk ids (made objs id obj) })
      | none => (s.setFactory chunk (.sync polled.2), { c with stage := .waiting chunk id ids objs })
  | .creating _ [] objs => (s, { c with stage := .adding objs.entries })
  | .waiting chunk id ids objs =>
    match (s.chunks chunk).factory with
    | some (.sync requests) =>
      let polled := requests.poll id
      match polled.1 with
      | some obj =>
        (s.setFactory chunk (.sync polled.2), { c with stage := .creating chunk ids (made objs id obj) })
      | none => (s, c)
    | _ => (s, c)
  | .adding ((id, obj) :: objs) =>
    -- SOURCE: ObjectCacheI.cpp:157-161, 182-187
    (s.setEvictor id ((s.evictorOf id).add obj id),
      { c with stage := .adding objs, data := c.data.insert id obj })
  | .adding [] => (s, { c with stage := .returned })
  | .returned => (s, c)

def next (s : ObjectEvictor V) (i : ℕ) (reads : Bool) : ObjectEvictor V :=
  match s.calls[i]? with
  | none => s
  | some c =>
    let r := s.stepCall c reads
    { r.1 with calls := s.calls.set i r.2 }

/-- What a factory's task does to its requests. -/
def task (s : ObjectEvictor V) (chunk : ℕ) (f : RequestMap V → RequestMap V) : ObjectEvictor V :=
  match (s.chunks chunk).factory with
  | some (.sync requests) => s.setFactory chunk (.sync (f requests))
  | _ => s

def step (s : ObjectEvictor V) : Event V → ObjectEvictor V
  | .update id value => s.update id value
  | .remove id => s.remove id
  | .call kind ids => s.call kind ids
  | .next i reads => s.next i reads
  | .load chunk key reads => s.task chunk fun requests => requests.load key (s.read reads)
  | .finish chunk key => s.task chunk fun requests => requests.finish key

end ObjectEvictor

end Oce.IceExt
