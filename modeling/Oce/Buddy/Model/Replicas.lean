import Oce.Buddy.Model.Manager

/-!
# The replicas of a holder

One user and the servers of his shard, of which the first has the main copy. An update is made in
the main copy; its answer makes either a task that brings the update to the other replicas, one
call after the other, or a reload. A reload removes the user from one replica after the other, has
the loader read the rows, and puts what the loader makes of them into one replica after the other.
Tasks and reloads run in threads of their own, so that their calls come in any order.
-/

set_option autoImplicit false

namespace Oce.Buddy

/-- `LocalUpdateRelationTask` or `RemoteUpdateRelationTask` with the replicas it has still to
reach. Its `_sr` is always the null recorder. SOURCE: BuddyAdapter.h:123-171 -/
structure UpdateRelationTask where
  relation : Relationship
  oper : Operation
  biblock : Bool
  remote : Bool
  seq : List ℕ
  deriving DecidableEq, Repr

/-- A reload: the replicas that it has still to remove the user from, and behind that the `LoadTask`
with the replicas that it has still to load. SOURCE: BuddyAdapter.cpp:238-279 -/
inductive ReloadTask where
  | remove (seq : List ℕ)
  | load (obj : BuddyRelation) (seq : List ℕ)

/-- The copies of one user's holder, the main copy first; `answered` holds the replicas that have
answered `CHECKERROR`. -/
structure Shard where
  userId : ℤ
  copies : List BuddyCache
  tasks : List UpdateRelationTask
  reloads : List ReloadTask
  answered : List ℕ

/-- One half of an update, one call of a task or one step of a reload; `create` is what the loader
makes of the rows at that time. -/
inductive ShardOp where
  | update (relation : Relationship) (oper : Operation) (biblock remote : Bool) (create : ℤ → BuddyRelation)
  | call (k : ℕ) (create : ℤ → BuddyRelation)
  | reload (k : ℕ) (create : ℤ → BuddyRelation)

namespace Shard

/-- All replicas, in the order of the proxies. -/
def replicas (s : Shard) : List ℕ := List.range s.copies.length

/-- SOURCE: BuddyAdapter.cpp:281-407 -/
def updateRelation (s : Shard) (relation : Relationship) (oper : Operation) (biblock remote : Bool)
    (create : ℤ → BuddyRelation) : Shard :=
  match s.copies[0]? with
  | none => s
  | some cache =>
    let r := cacheCall cache create oper.state relation .null (buildContext .request true remote biblock)
    let copies := s.copies.set 0 r.cache
    if r.hsr.laststate = .checkError then
      { s with copies := copies, reloads := s.reloads ++ [.remove s.replicas] }
    else
      { s with
        copies := copies
        tasks := s.tasks ++ [⟨relation, oper, biblock, remote, s.replicas.erase 0⟩] }

/-- One turn of the loop of a task. An answer `CHECKERROR` reloads and ends the task.
SOURCE: BuddyAdapter.cpp:409-484, 486-561 -/
def handle (s : Shard) (k : ℕ) (create : ℤ → BuddyRelation) : Shard :=
  match s.tasks[k]? with
  | none => s
  | some task =>
    match task.seq with
    | [] => s
    | i :: seq =>
      match s.copies[i]? with
      | none => { s with tasks := s.tasks.set k { task with seq := seq } }
      | some cache =>
        let r := cacheCall cache create task.oper.state task.relation .null
          (buildContext .request false task.remote task.biblock)
        let copies := s.copies.set i r.cache
        if r.hsr.laststate = .checkError then
          { s with
            copies := copies
            tasks := s.tasks.set k { task with seq := [] }
            reloads := s.reloads ++ [.remove s.replicas]
            answered := i :: s.answered }
        else { s with copies := copies, tasks := s.tasks.set k { task with seq := seq } }

/-- What a replica has of the user is replaced. -/
def put (s : Shard) (i : ℕ) (holder : Option BuddyRelationHolders) : Shard :=
  { s with copies := s.copies.modify i fun cache => Function.update cache s.userId holder }

/-- One turn of one of the two loops of a reload, or the call of the loader between them.
SOURCE: BuddyAdapter.cpp:238-279, loader/BuddyLoaderI.cpp:49-55 -/
def reload (s : Shard) (k : ℕ) (create : ℤ → BuddyRelation) : Shard :=
  match s.reloads[k]? with
  | none => s
  | some (.remove (i :: seq)) => { s.put i none with reloads := s.reloads.set k (.remove seq) }
  | some (.remove []) => { s with reloads := s.reloads.set k (.load (create s.userId) s.replicas) }
  | some (.load obj (i :: seq)) =>
    { s.put i (some ⟨s.userId, obj, .null⟩) with reloads := s.reloads.set k (.load obj seq) }
  | some (.load _ []) => s

end Shard

/-- One step of the shard. -/
def ShardOp.step (s : Shard) : ShardOp → Shard
  | update relation oper biblock remote create => s.updateRelation relation oper biblock remote create
  | call k create => s.handle k create
  | reload k create => s.reload k create

end Oce.Buddy
