import Mathlib.Logic.Function.Basic
import Oce.Buddy.Model.Database

/-!
# The friend service

`BuddyManagerI` over the database and the cached holders. `processHandler` looks up the
relation, changes the rows and hands the change to `updateRelation`, which makes it in the
main copy of the two users' holders, one after the other. A copy answers with its state
recorder, and an answer `CHECKERROR` makes the caller reload that user from the database.

A server caches the holders that it has located. The main copy of a user is the one on his own
server, where his operations run; the request that the cache calls send about `to` locates his
holder on whatever server the call is made. Every load of a holder schedules its cleanup.

The context of a request holds none of the keys that the cache calls use; only
`updateRelation` puts them there. The replicas of a holder are in `Oce.Buddy.Model.Replicas`.
-/

set_option autoImplicit false

namespace Oce.Buddy

open Function Oce.Base

/-! ## Contexts -/

/-- Which of the keys that the cache calls look at are set. SOURCE: BuddyAdapter.h:14-30 -/
structure Context where
  mainKey : Bool
  remoteKey : Bool
  biblockKey : Bool
  deriving DecidableEq, Repr

/-- The context of a request. -/
def Context.request : Context := ⟨false, false, false⟩

/-- SOURCE: BuddyAdapter.cpp:611-621 -/
def buildContext (ctx : Context) (maincache remote biblock : Bool) : Context where
  mainKey := ctx.mainKey || maincache
  remoteKey := ctx.remoteKey || remote
  biblockKey := ctx.biblockKey || biblock

/-! SOURCE: cache/BuddyI.cpp:974-984 -/

def isLocalCache (ctx : Context) : Bool := !ctx.remoteKey
def isBiblock (ctx : Context) : Bool := ctx.biblockKey
def isMainCache (ctx : Context) : Bool := !ctx.mainKey

/-! ## The cached holders -/

/-- The objects of one `BuddyManagerI` by user. -/
abbrev BuddyCache := ℤ → Option BuddyRelationHolders

/-- The id that an update of the relation leaves in the recorder. SOURCE: cache/BuddyI.cpp:1020-1034 -/
def recordedId (ship : Relationship) (state : BuddyState) (isLocal : Bool) : ℤ :=
  match state with
  | .addApply | .removeFriend | .addBlock | .removeBlock => if isLocal then ship.toId else ship.fromId
  | .acceptApply | .denyApply => if isLocal then ship.fromId else ship.toId
  | .nullState | .checkError => 0

/-- The recorder that is handed back through `checksr` where `isMainCache` holds reaches no
caller: the calls with such a context go to other servers. SOURCE: cache/BuddyI.cpp:1016-1055 -/
def assignStateRecorder (holder : BuddyRelationHolders) (ship : Relationship) (state : BuddyState)
    (isLocal : Bool) (checksr : StateRecorder) (ctx : Context) : BuddyRelationHolders :=
  let lastid := recordedId ship state isLocal
  if isMainCache ctx then holder.setStateRecorder ⟨lastid, state⟩
  else if holder.checkStateRecorder checksr then holder.setStateRecorder ⟨lastid, state⟩
  else holder.setStateRecorder ⟨lastid, .checkError⟩

/-- What a cache call leaves: the objects, the recorder of the answer, and whose holders it has
loaded. -/
structure CacheAnswer where
  cache : BuddyCache
  hsr : StateRecorder
  loaded : List ℤ

/-- The holder is located, and so loaded if it is not there. `create` is what the loader makes of the
rows. The request itself goes to another service. SOURCE: cache/BuddyI.cpp:1005-1014 -/
def cacheUserCountGuestRequest (cache : BuddyCache) (create : ℤ → BuddyRelation) (userId : ℤ) :
    BuddyCache × List ℤ :=
  match cache userId with
  | some _ => (cache, [])
  | none => (update cache userId (some ⟨userId, create userId, .null⟩), [userId])

/-- What the six cache calls share: the holder of `id` is edited, the request about `guest` sent, if
there is one, and the recorder assigned, which is the answer; for a user who is not in the cache
it is `CHECKERROR`. -/
def cacheUpdate (cache : BuddyCache) (create : ℤ → BuddyRelation) (id : ℤ)
    (edit : BuddyRelation → BuddyRelation) (guest : Option ℤ) (ship : Relationship) (state : BuddyState)
    (isLocal : Bool) (checksr : StateRecorder) (ctx : Context) : CacheAnswer :=
  match cache id with
  | some holder =>
    let holder := { holder with hbr := edit holder.hbr }
    let cache := update cache id (some holder)
    let requested := guest.elim (cache, []) (cacheUserCountGuestRequest cache create)
    let holder := assignStateRecorder holder ship state isLocal checksr ctx
    ⟨update requested.1 id (some holder), holder.hsr, requested.2⟩
  | none => ⟨cache, ⟨id, .checkError⟩, []⟩

section CacheCalls

variable (cache : BuddyCache) (create : ℤ → BuddyRelation)

/-- SOURCE: cache/BuddyI.cpp:744-777 -/
def cacheAddApply (apply : Relationship) (checksr : StateRecorder) (ctx : Context) : CacheAnswer :=
  if isLocalCache ctx then
    cacheUpdate cache create apply.fromId (fun h => h.addApply apply.toId) (some apply.toId) apply
      .addApply true checksr ctx
  else
    cacheUpdate cache create apply.toId (fun h => h.addApplied apply.fromId) (some apply.toId) apply
      .addApply false checksr ctx

/-- SOURCE: cache/BuddyI.cpp:779-814 -/
def cacheAcceptApply (apply : Relationship) (checksr : StateRecorder) (ctx : Context) : CacheAnswer :=
  if isLocalCache ctx then
    cacheUpdate cache create apply.toId
      (fun h => (h.removeApplied apply.fromId).addFriend apply.fromId) (some apply.toId) apply
      .acceptApply true checksr ctx
  else
    cacheUpdate cache create apply.fromId (fun h => (h.removeApply apply.toId).addFriend apply.toId)
      (some apply.toId) apply .acceptApply false checksr ctx

/-- SOURCE: cache/BuddyI.cpp:816-847 -/
def cacheDenyApply (apply : Relationship) (checksr : StateRecorder) (ctx : Context) : CacheAnswer :=
  if isLocalCache ctx then
    cacheUpdate cache create apply.toId (fun h => h.removeApplied apply.fromId) (some apply.toId) apply
      .denyApply true checksr ctx
  else
    cacheUpdate cache create apply.fromId (fun h => h.removeApply apply.toId) (some apply.toId) apply
      .denyApply false checksr ctx

/-- SOURCE: cache/BuddyI.cpp:849-880 -/
def cacheRemoveFriend (ship : Relationship) (checksr : StateRecorder) (ctx : Context) : CacheAnswer :=
  if isLocalCache ctx then
    cacheUpdate cache create ship.fromId (fun h => h.removeFriend ship.toId) (some ship.toId) ship
      .removeFriend true checksr ctx
  else
    cacheUpdate cache create ship.toId (fun h => h.removeFriend ship.fromId) (some ship.toId) ship
      .removeFriend false checksr ctx

/-- The change that both branches of `cacheAddBlock` make. -/
def blockEdit (other : ℤ) (biblock : Bool) (h : BuddyRelation) : BuddyRelation :=
  let h := ((h.removeApply other).removeApplied other).removeFriend other
  if biblock then (h.removeBlocked other).addBiBlock other else h.addBlock other

/-- Both branches add to the block list. SOURCE: cache/BuddyI.cpp:882-929 -/
def cacheAddBlock (block : Relationship) (checksr : StateRecorder) (ctx : Context) : CacheAnswer :=
  if isLocalCache ctx then
    cacheUpdate cache create block.fromId (blockEdit block.toId (isBiblock ctx)) (some block.toId) block
      .addBlock true checksr ctx
  else
    cacheUpdate cache create block.toId (blockEdit block.fromId (isBiblock ctx)) (some block.toId) block
      .addBlock false checksr ctx

/-- The change that both branches of `cacheRemoveBlock` make. -/
def unblockEdit (other : ℤ) (biblock : Bool) (h : BuddyRelation) : BuddyRelation :=
  if biblock then (h.removeBiBlock other).addBlocked other else h.removeBlock other

/-- Both branches remove from the block list, and no request is sent.
SOURCE: cache/BuddyI.cpp:931-972 -/
def cacheRemoveBlock (block : Relationship) (checksr : StateRecorder) (ctx : Context) : CacheAnswer :=
  if isLocalCache ctx then
    cacheUpdate cache create block.fromId (unblockEdit block.toId (isBiblock ctx)) none block
      .removeBlock true checksr ctx
  else
    cacheUpdate cache create block.toId (unblockEdit block.fromId (isBiblock ctx)) none block
      .removeBlock false checksr ctx

/-- The call that belongs to an operation. SOURCE: BuddyAdapter.cpp:298-322 -/
def cacheCall (oper : BuddyState) (relation : Relationship) (sr : StateRecorder) (ctx : Context) :
    CacheAnswer :=
  match oper with
  | .addApply => cacheAddApply cache create relation sr ctx
  | .acceptApply => cacheAcceptApply cache create relation sr ctx
  | .denyApply => cacheDenyApply cache create relation sr ctx
  | .removeFriend => cacheRemoveFriend cache create relation sr ctx
  | .addBlock => cacheAddBlock cache create relation sr ctx
  | .removeBlock => cacheRemoveBlock cache create relation sr ctx
  | .nullState | .checkError => ⟨cache, .null, []⟩

end CacheCalls

/-- The user whose holder an operation looks up and updates first.
SOURCE: cache/BuddyI.cpp:155-168, BuddyAdapter.cpp:296-322, 411-427 -/
def localId (oper : BuddyState) (relation : Relationship) : ℤ :=
  match oper with
  | .addApply | .removeFriend | .addBlock | .removeBlock => relation.fromId
  | .acceptApply | .denyApply => relation.toId
  | .nullState | .checkError => 0

/-- The user whose holder an operation updates second. SOURCE: BuddyAdapter.cpp:347-386, 488-504 -/
def remoteId (oper : BuddyState) (relation : Relationship) : ℤ :=
  match oper with
  | .acceptApply | .denyApply => relation.fromId
  | _ => relation.toId

/-! ## The service -/

/-- The database with the statements that are scheduled, and what the servers have cached. `home` is
the server of a user. -/
structure BuddyStore extends CleanupState where
  home : ℤ → ℕ
  caches : ℕ → BuddyCache

namespace BuddyStore

/-- The main copy of a user. -/
def cache (s : BuddyStore) : BuddyCache := fun userId => s.caches (s.home userId) userId

/-- The load of a user on a server, which schedules the cleanup of the duplicates it meets.
SOURCE: BuddyCreate.h:43-63, BuddyCreate.cpp:8-199 -/
def load (s : BuddyStore) (server : ℕ) (userId : ℤ) : BuddyStore :=
  { s with
    toCleanupState := s.toCleanupState.step (.create userId)
    caches := update s.caches server
      (update (s.caches server) userId (some ⟨userId, s.db.create userId, .null⟩)) }

/-- The main copy is removed and the loader puts a new one into the cache.
SOURCE: BuddyAdapter.cpp:238-279, cache/BuddyI.cpp:991-1003 -/
def reload (s : BuddyStore) (userId : ℤ) : BuddyStore := s.load (s.home userId) userId

/-- One of the two halves of `updateRelation`, made on the server of `id`. -/
def updateHalf (s : BuddyStore) (relation : Relationship) (oper : BuddyState) (id : ℤ)
    (ctx : Context) : BuddyStore :=
  let r := cacheCall (s.caches (s.home id)) s.db.create oper relation .null ctx
  let s := { s with
    toCleanupState := r.loaded.foldl (fun c userId => c.step (.create userId)) s.toCleanupState
    caches := update s.caches (s.home id) r.cache }
  if r.hsr.laststate = .checkError then s.reload id else s

/-- SOURCE: BuddyAdapter.cpp:281-407 -/
def updateRelation (s : BuddyStore) (relation : Relationship) (oper : BuddyState) (biblock : Bool) :
    BuddyStore :=
  let s := s.updateHalf relation oper (localId oper relation) (buildContext .request true false biblock)
  s.updateHalf relation oper (remoteId oper relation) (buildContext .request true true biblock)

/-! SOURCE: BuddyAdapter.cpp:563-609 -/

def cacheAddApply (s : BuddyStore) (apply : Relationship) : BuddyStore :=
  s.updateRelation apply .addApply false

def cacheAcceptApply (s : BuddyStore) (apply : Relationship) : BuddyStore :=
  s.updateRelation apply .acceptApply false

def cacheDenyApply (s : BuddyStore) (apply : Relationship) : BuddyStore :=
  s.updateRelation apply .denyApply false

def cacheRemoveFriend (s : BuddyStore) (buddy : Relationship) : BuddyStore :=
  s.updateRelation buddy .removeFriend false

def cacheAddBlock (s : BuddyStore) (block : Relationship) (biblock : Bool) : BuddyStore :=
  s.updateRelation block .addBlock biblock

def cacheRemoveBlock (s : BuddyStore) (block : Relationship) (biblock : Bool) : BuddyStore :=
  s.updateRelation block .removeBlock biblock

/-- Users whose main copies were just loaded, each on a server of his own. -/
def loaded (db : BuddyDatabase) (users : List ℤ) : BuddyStore where
  db := db
  scheduled := []
  home := fun id => id.toNat
  caches := fun server id =>
    if id ∈ users ∧ id.toNat = server then some ⟨id, db.create id, .null⟩ else none

/-! The rows. -/

def insertBuddyApply (s : BuddyStore) (applicant accepter : ℤ) : BuddyStore :=
  { s with db := s.db.insertBuddyApply applicant accepter }

def deleteBuddyApply (s : BuddyStore) (applicant accepter : ℤ) : BuddyStore :=
  { s with db := s.db.deleteBuddyApply applicant accepter }

def insertRelationBi (s : BuddyStore) (fromId toId : ℤ) : BuddyStore :=
  { s with db := s.db.insertRelationBi fromId toId }

def deleteRelationBi (s : BuddyStore) (fromId toId : ℤ) : BuddyStore :=
  { s with db := s.db.deleteRelationBi fromId toId }

def insertBlock (s : BuddyStore) (fromId toId : ℤ) : BuddyStore :=
  { s with db := s.db.insertBlock fromId toId }

def deleteBlock (s : BuddyStore) (fromId toId : ℤ) : BuddyStore :=
  { s with db := s.db.deleteBlock fromId toId }

/-- SOURCE: cache/BuddyI.cpp:66-106 -/
def itemEmptyCheck (s : BuddyStore) (state : BuddyState) (relation : Relationship) :
    OpState × BuddyStore :=
  match state with
  | .addApply =>
    (⟨.noPath, .apply⟩, (s.insertBuddyApply relation.fromId relation.toId).cacheAddApply relation)
  | .acceptApply | .denyApply => (⟨.noPath, .noPath⟩, s.reload relation.toId)
  | .addBlock =>
    (⟨.noPath, .block⟩, (s.insertBlock relation.fromId relation.toId).cacheAddBlock relation false)
  | .removeFriend | .removeBlock => (⟨.noPath, .noPath⟩, s.reload relation.fromId)
  | .nullState | .checkError => (⟨.noPath, .noPath⟩, s)

/-- SOURCE: cache/BuddyI.cpp:108-136 -/
def itemOverflowCheck (s : BuddyStore) (state : BuddyState) (relation : Relationship) :
    OpState × BuddyStore :=
  match state with
  | .acceptApply | .denyApply => (⟨.noPath, .noPath⟩, s.reload relation.toId)
  | .addApply | .removeFriend | .addBlock | .removeBlock =>
    (⟨.noPath, .noPath⟩, s.reload relation.fromId)
  | .nullState | .checkError => (⟨.noPath, .noPath⟩, s)

/-- SOURCE: cache/BuddyI.cpp:277-331 -/
def addApplyHandle (s : BuddyStore) (apply : Relationship) (first : BuddyDesc) : OpState × BuddyStore :=
  match first with
  | .applied =>
    (⟨first, .friend⟩, ((s.deleteBuddyApply apply.toId apply.fromId).insertRelationBi apply.fromId
      apply.toId).cacheAcceptApply ⟨apply.toId, apply.fromId⟩)
  | .block =>
    (⟨first, .apply⟩, ((s.deleteBlock apply.fromId apply.toId).insertBuddyApply apply.fromId
      apply.toId).cacheAddApply apply)
  | .biBlock =>
    (⟨first, .blocked⟩, (s.deleteBlock apply.fromId apply.toId).cacheRemoveBlock apply true)
  | .apply | .blocked | .friend => (⟨first, first⟩, s)
  | .noPath | .self => (⟨first, first⟩, s.cacheAddApply apply)

/-- SOURCE: cache/BuddyI.cpp:380-411 -/
def acceptApplyHandle (s : BuddyStore) (apply : Relationship) (first : BuddyDesc) :
    OpState × BuddyStore :=
  match first with
  | .applied =>
    (⟨first, .friend⟩, (s.insertRelationBi apply.fromId apply.toId).cacheAcceptApply apply)
  | _ => (⟨first, first⟩, s)

/-- SOURCE: cache/BuddyI.cpp:437-462 -/
def denyApplyHandle (s : BuddyStore) (apply : Relationship) (first : BuddyDesc) :
    OpState × BuddyStore :=
  match first with
  | .applied => (⟨first, .noPath⟩, s.cacheDenyApply apply)
  | _ => (⟨first, first⟩, s)

/-- SOURCE: cache/BuddyI.cpp:514-534 -/
def removeFriendHandle (s : BuddyStore) (buddy : Relationship) (first : BuddyDesc) :
    OpState × BuddyStore :=
  match first with
  | .friend =>
    (⟨first, .noPath⟩, (s.deleteRelationBi buddy.fromId buddy.toId).cacheRemoveFriend buddy)
  | _ => (⟨first, first⟩, s)

/-- SOURCE: cache/BuddyI.cpp:574-610 -/
def addBlockHandle (s : BuddyStore) (block : Relationship) (first : BuddyDesc) : OpState × BuddyStore :=
  let finish (s : BuddyStore) (second : BuddyDesc) (biBlock : Bool) :=
    (⟨first, second⟩, (s.insertBlock block.fromId block.toId).cacheAddBlock block biBlock)
  match first with
  | .apply => finish (s.deleteBuddyApply block.fromId block.toId) first false
  | .applied => finish (s.deleteBuddyApply block.toId block.fromId) first false
  | .biBlock | .block => (⟨first, first⟩, s)
  | .blocked => finish s .biBlock true
  | .friend => finish (s.deleteRelationBi block.fromId block.toId) first false
  | .noPath | .self => finish s first false

/-- SOURCE: cache/BuddyI.cpp:625-651 -/
def removeBlockHandle (s : BuddyStore) (block : Relationship) (first : BuddyDesc) :
    OpState × BuddyStore :=
  let finish (second : BuddyDesc) (biBlock : Bool) :=
    (⟨first, second⟩, (s.deleteBlock block.fromId block.toId).cacheRemoveBlock block biBlock)
  match first with
  | .apply | .applied | .blocked | .friend => (⟨first, first⟩, s)
  | .block => finish .noPath false
  | .biBlock => finish .blocked true
  | .noPath | .self => finish first false

/-- SOURCE: cache/BuddyI.cpp:188-209 -/
def processHandleWithState (s : BuddyStore) (state : BuddyState) (relation : Relationship)
    (first : BuddyDesc) : OpState × BuddyStore :=
  match state with
  | .addApply => s.addApplyHandle relation first
  | .acceptApply => s.acceptApplyHandle relation first
  | .denyApply => s.denyApplyHandle relation first
  | .removeFriend => s.removeFriendHandle relation first
  | .addBlock => s.addBlockHandle relation first
  | .removeBlock => s.removeBlockHandle relation first
  | .nullState | .checkError => (⟨first, first⟩, s)

/-- SOURCE: cache/BuddyI.cpp:211-240 -/
def specialHandle (s : BuddyStore) (state : BuddyState) (relation : Relationship) : BuddyStore :=
  match state with
  | .acceptApply | .denyApply => s.deleteBuddyApply relation.fromId relation.toId
  | _ => s

/-- The cached main copy, or one that is loaded. SOURCE: cache/BuddyI.cpp:685-689 -/
def locateBuddyRelation (s : BuddyStore) (id : ℤ) : BuddyStore × BuddyRelation :=
  match s.cache id with
  | some h => (s, h.hbr)
  | none => (s.load (s.home id) id, s.db.create id)

/-- Whatever the operation, the relation is looked up under `relation.from`.
SOURCE: cache/BuddyI.cpp:139-186 -/
def processHandler (s : BuddyStore) (state : BuddyState) (relation : Relationship) :
    OpState × BuddyStore :=
  if relation.fromId = relation.toId ∧ (state = .addApply ∨ state = .addBlock) then
    (⟨.noPath, .self⟩, s)
  else
    let s := s.specialHandle state relation
    let located := s.locateBuddyRelation (localId state relation)
    let s := located.1
    let found := located.2.getCount relation.fromId .noPath
    if found.1 = 0 then s.itemEmptyCheck state relation
    else if 1 < found.1 then s.itemOverflowCheck state relation
    else s.processHandleWithState state relation found.2

end BuddyStore

/-- The operations of the interface. -/
inductive Operation where
  | addApply
  | acceptApply
  | denyApply
  | removeFriend
  | addBlock
  | removeBlock
  deriving DecidableEq, Repr

/-- SOURCE: cache/BuddyI.cpp:263-275, 367-378, 424-435, 501-512, 561-572, 612-623 -/
def Operation.state : Operation → BuddyState
  | addApply => .addApply
  | acceptApply => .acceptApply
  | denyApply => .denyApply
  | removeFriend => .removeFriend
  | addBlock => .addBlock
  | removeBlock => .removeBlock

/-- An operation on a pair of users. -/
structure BuddyOp where
  oper : Operation
  relation : Relationship
  deriving DecidableEq, Repr

namespace BuddyOp

/-- What the operation returns. -/
def result (s : BuddyStore) (op : BuddyOp) : OpState := (s.processHandler op.oper.state op.relation).1

/-- The store after the operation. -/
def step (s : BuddyStore) (op : BuddyOp) : BuddyStore := (s.processHandler op.oper.state op.relation).2

end BuddyOp

/-- An operation, or the run of a statement that a cleanup has scheduled. -/
inductive BuddyEvent where
  | call (op : BuddyOp)
  | delete (place : ℕ)
  deriving DecidableEq, Repr

/-- The store after the event. -/
def BuddyEvent.step (s : BuddyStore) : BuddyEvent → BuddyStore
  | .call op => op.step s
  | .delete place => { s with toCleanupState := s.toCleanupState.step (.delete place) }

end Oce.Buddy
