import Oce.Buddy.Model.Manager

/-!
# The caches behind BuddyLogic

After an update `BuddyAdapter` hands two relation objects to BuddyLogic, whose tasks load them into
the relation cache and the friend list cache. The service that carries them there passes them on.
`updateRelation` assigns what the two sides answer to its parameters, and these are handles that it
was given by value.
-/

set_option autoImplicit false

namespace Oce.Buddy

open Oce.Base

/-! ## BuddyLogic -/

/-- The objects of the relation cache and of the friend list cache by user. -/
structure LogicCaches where
  relations : ℤ → Option BuddyRelation
  friends : ℤ → Option (AscSeq ℤ)

/-- The tasks that load one of the two caches. -/
inductive LogicTask where
  | loadRelation (id : ℤ) (brp : BuddyRelation)
  | loadById (id : ℤ) (friends : AscSeq ℤ)

/-- The objects that are handed over are never null, so that the check for null always passes.
SOURCE: BuddyLogicI.cpp:362-372 -/
def LogicTask.handle (caches : LogicCaches) : LogicTask → LogicCaches
  | loadRelation id brp => { caches with relations := Function.update caches.relations id (some brp) }
  | loadById id friends =>
    if friends.vals = [] then caches
    else { caches with friends := Function.update caches.friends id (some friends) }

/-! The tasks of a call, without those that load none of the two caches. -/

namespace BuddyLogic

variable (relation : Relationship) (localbrp remotebrp : BuddyRelation)

/-- SOURCE: BuddyLogicI.cpp:61-74 -/
def addApply : List LogicTask :=
  [.loadRelation relation.fromId localbrp, .loadRelation relation.toId remotebrp]

/-- SOURCE: BuddyLogicI.cpp:76-113 -/
def acceptApply : List LogicTask :=
  [.loadRelation relation.toId localbrp, .loadRelation relation.fromId remotebrp,
    .loadById relation.toId localbrp.friends, .loadById relation.fromId remotebrp.friends]

/-- SOURCE: BuddyLogicI.cpp:115-128 -/
def denyApply : List LogicTask :=
  [.loadRelation relation.toId localbrp, .loadRelation relation.fromId remotebrp]

/-- SOURCE: BuddyLogicI.cpp:130-162 -/
def removeFriend : List LogicTask :=
  [.loadRelation relation.fromId localbrp, .loadRelation relation.toId remotebrp,
    .loadById relation.fromId localbrp.friends, .loadById relation.toId remotebrp.friends]

/-- SOURCE: BuddyLogicI.cpp:164-198 -/
def addBlock : List LogicTask :=
  [.loadRelation relation.fromId localbrp, .loadRelation relation.toId remotebrp,
    .loadById relation.fromId localbrp.friends, .loadById relation.toId remotebrp.friends]

/-- SOURCE: BuddyLogicI.cpp:200-210 -/
def removeBlock : List LogicTask :=
  [.loadRelation relation.fromId localbrp, .loadRelation relation.toId remotebrp]

end BuddyLogic

/-- The objects that the handles `localbrp` and `remotebrp` are bound to. -/
structure RelationPtrs where
  localbrp : BuddyRelation
  remotebrp : BuddyRelation

/-- A call of BuddyLogic with the objects it is handed. -/
structure LogicCall where
  oper : Operation
  relation : Relationship
  objects : RelationPtrs

/-- The tasks that the call starts. -/
def LogicCall.tasks (call : LogicCall) : List LogicTask :=
  match call.oper with
  | .addApply => BuddyLogic.addApply call.relation call.objects.localbrp call.objects.remotebrp
  | .acceptApply => BuddyLogic.acceptApply call.relation call.objects.localbrp call.objects.remotebrp
  | .denyApply => BuddyLogic.denyApply call.relation call.objects.localbrp call.objects.remotebrp
  | .removeFriend => BuddyLogic.removeFriend call.relation call.objects.localbrp call.objects.remotebrp
  | .addBlock => BuddyLogic.addBlock call.relation call.objects.localbrp call.objects.remotebrp
  | .removeBlock => BuddyLogic.removeBlock call.relation call.objects.localbrp call.objects.remotebrp

/-- One thread takes the tasks in their order. -/
def LogicCaches.serve (caches : LogicCaches) (call : LogicCall) : LogicCaches :=
  call.tasks.foldl LogicTask.handle caches

/-! ## BuddyAdapter -/

namespace BuddyAdapter

/-- A half of the update, and what its handle is bound to behind it: the lists of the holder that
answers, which is the holder after its change, or still `brp` when the answer is `CHECKERROR`. -/
def updateHalf (s : BuddyStore) (relation : Relationship) (oper : BuddyState) (id : ℤ)
    (ctx : Context) (brp : BuddyRelation) : BuddyStore × BuddyRelation :=
  let brhp := cacheCall (s.caches (s.home id)) s.db.create oper relation .null ctx
  (s.updateHalf relation oper id ctx,
    if brhp.hsr.laststate = .checkError then brp else (brhp.cache id).elim brp (·.hbr))

/-- The store, and what the two parameters are bound to at the end of the body.
SOURCE: BuddyAdapter.cpp:281-407 -/
def updateRelation (s : BuddyStore) (relation : Relationship) (oper : BuddyState)
    (brp : RelationPtrs) (biblock : Bool) : BuddyStore × RelationPtrs :=
  let localHalf := updateHalf s relation oper (localId oper relation)
    (buildContext .request true false biblock) brp.localbrp
  let remoteHalf := updateHalf localHalf.1 relation oper (remoteId oper relation)
    (buildContext .request true true biblock) brp.remotebrp
  (remoteHalf.1, ⟨localHalf.2, remoteHalf.2⟩)

/-- What the six calls share: two new objects, the update, and the call of BuddyLogic. The update
binds copies of the two handles, so BuddyLogic is handed the two objects as they were created. -/
def updateAndCall (s : BuddyStore) (oper : Operation) (relation : Relationship) (biblock : Bool) :
    BuddyStore × LogicCall :=
  let brp : RelationPtrs := ⟨.empty, .empty⟩
  ((updateRelation s relation oper.state brp biblock).1, ⟨oper, relation, brp⟩)

/-! SOURCE: BuddyAdapter.cpp:563-609 -/

variable (s : BuddyStore)

def cacheAddApply (apply : Relationship) : BuddyStore × LogicCall :=
  updateAndCall s .addApply apply false

def cacheAcceptApply (apply : Relationship) : BuddyStore × LogicCall :=
  updateAndCall s .acceptApply apply false

def cacheDenyApply (apply : Relationship) : BuddyStore × LogicCall :=
  updateAndCall s .denyApply apply false

def cacheRemoveFriend (buddy : Relationship) : BuddyStore × LogicCall :=
  updateAndCall s .removeFriend buddy false

def cacheAddBlock (block : Relationship) (biblock : Bool) : BuddyStore × LogicCall :=
  updateAndCall s .addBlock block biblock

def cacheRemoveBlock (block : Relationship) (biblock : Bool) : BuddyStore × LogicCall :=
  updateAndCall s .removeBlock block biblock

end BuddyAdapter

/-- One of the six calls, with its arguments. -/
inductive AdapterCall where
  | addApply (apply : Relationship)
  | acceptApply (apply : Relationship)
  | denyApply (apply : Relationship)
  | removeFriend (buddy : Relationship)
  | addBlock (block : Relationship) (biblock : Bool)
  | removeBlock (block : Relationship) (biblock : Bool)
  deriving DecidableEq

namespace AdapterCall

def oper : AdapterCall → Operation
  | addApply _ => .addApply
  | acceptApply _ => .acceptApply
  | denyApply _ => .denyApply
  | removeFriend _ => .removeFriend
  | addBlock _ _ => .addBlock
  | removeBlock _ _ => .removeBlock

def relation : AdapterCall → Relationship
  | addApply r | acceptApply r | denyApply r | removeFriend r | addBlock r _ | removeBlock r _ => r

def biblock : AdapterCall → Bool
  | addBlock _ biblock | removeBlock _ biblock => biblock
  | _ => false

def localUser (c : AdapterCall) : ℤ := localId c.oper.state c.relation

def remoteUser (c : AdapterCall) : ℤ := remoteId c.oper.state c.relation

def run (c : AdapterCall) (s : BuddyStore) : BuddyStore × LogicCall :=
  match c with
  | addApply apply => BuddyAdapter.cacheAddApply s apply
  | acceptApply apply => BuddyAdapter.cacheAcceptApply s apply
  | denyApply apply => BuddyAdapter.cacheDenyApply s apply
  | removeFriend buddy => BuddyAdapter.cacheRemoveFriend s buddy
  | addBlock block biblock => BuddyAdapter.cacheAddBlock s block biblock
  | removeBlock block biblock => BuddyAdapter.cacheRemoveBlock s block biblock

theorem run_eq (c : AdapterCall) (s : BuddyStore) :
    c.run s = BuddyAdapter.updateAndCall s c.oper c.relation c.biblock := by
  cases c <;> rfl

/-- The answer of the local side. -/
def localAnswer (c : AdapterCall) (s : BuddyStore) : StateRecorder :=
  (cacheCall (s.caches (s.home c.localUser)) s.db.create c.oper.state c.relation .null
    (buildContext .request true false c.biblock)).hsr

/-- The store between the two halves. -/
def halfway (c : AdapterCall) (s : BuddyStore) : BuddyStore :=
  s.updateHalf c.relation c.oper.state c.localUser (buildContext .request true false c.biblock)

/-- The answer of the remote side. -/
def remoteAnswer (c : AdapterCall) (s : BuddyStore) : StateRecorder :=
  (cacheCall ((c.halfway s).caches ((c.halfway s).home c.remoteUser)) (c.halfway s).db.create
    c.oper.state c.relation .null (buildContext .request true true c.biblock)).hsr

end AdapterCall

end Oce.Buddy
