import Mathlib.Logic.Function.Basic
import Oce.SixDegrees.Model.Routes

/-!
# A search for routes

A search is for a host and a guest, who are two users. For each of them a builder pushes the
entries of the index, a push thread cuts them into batches and a task brings each batch to the
cached data of the user. A `CalculateRoutTask` takes the batches from there in turn to a
`CalculateRoutThread`, which joins the newest batch of the host with that of the guest and sets
the end flag.

An operation is one step of one thread, which holds a lock at most once. `locateAsynIndex` finds the
data of a user in one step and puts new data in the cache in another, and what is cached then is
what was put there last. What is in that cache stays otherwise. The friends that are cached are
given to the steps that look for them.
-/

set_option autoImplicit false

namespace Oce.SixDegrees

/-- The two users of a search. -/
inductive Side where
  | host
  | guest
  deriving DecidableEq, Repr

instance decidableForallSide {P : Side → Prop} [∀ x, Decidable (P x)] : Decidable (∀ x, P x) :=
  decidable_of_iff (P .host ∧ P .guest)
    ⟨fun h x => match x with
      | .host => h.1
      | .guest => h.2, fun h => ⟨h .host, h .guest⟩⟩

/-! ## One user -/

/-- How far a call of `locateAsynIndex` is: nothing has been looked for, nothing was cached, or it
has the data of a number. SOURCE: BuddySixDegreesI.h:120-129 -/
inductive Located where
  | nothing
  | missing
  | data (i : ℕ)
  deriving DecidableEq, Repr

/-- A task that brings a batch to the data of the user. SOURCE: FriendsIndex.cpp:46-58 -/
structure PushTask where
  batch : IndexData
  located : Located
  deriving DecidableEq, Repr

/-- Where the push thread is: before it looks whether to stop, before it takes what there is, on the
way to set the data finished, and behind its end. SOURCE: FriendsIndex.cpp:93-120 -/
inductive PushPlace where
  | checking
  | waiting
  | finishing (located : Located)
  | ended
  deriving DecidableEq, Repr

/-- The entries and batches of a user. `datas` are the data that there have been, `asyn` is the
number of that in the cache and `held` of that which the `CalculateRoutTask` has found. `cut` and
`joined` record the batches that have been cut and those that have been joined.
SOURCE: FriendsIndex.h:273-293, BuddySixDegreesI.h:167-210 -/
structure Flow where
  todo : List IndexInfo
  indexCache : List IndexInfo
  pusher : PushPlace
  tasks : List PushTask
  datas : List AsynIndexData
  asyn : Option ℕ
  held : Option ℕ
  index : ℕ
  hand : IndexData
  newFriends : List IndexData
  allFriends : List IndexInfo
  cut : List IndexData
  joined : List IndexData
  deriving DecidableEq, Repr

namespace Flow

/-- A user whose entries are still to be pushed. -/
def new (stream : List IndexInfo) : Flow :=
  ⟨stream, [], .checking, [], [], none, none, 0, [], [], [], [], []⟩

/-- The data of a number, new when there is none. -/
def dataOf (u : Flow) (i : Option ℕ) : AsynIndexData := (i.bind fun i => u.datas[i]?).getD .new

def setData (u : Flow) (i : ℕ) (f : AsynIndexData → AsynIndexData) : Flow :=
  { u with datas := u.datas.modify i f }

/-- One step of a call: it looks in the cache, or puts new data there in the place of what there is.
SOURCE: BuddySixDegreesI.h:120-129, ObjectCacheI.h:367-382 -/
def locateAsynIndex (u : Flow) : Located → Located × Flow
  | .nothing =>
    (match u.asyn with
      | some i => .data i
      | none => .missing, u)
  | .missing =>
    (.data u.datas.length, { u with datas := u.datas ++ [.new], asyn := some u.datas.length })
  | .data i => (.data i, u)

/-- One entry is pushed, for which the push thread must not have its lock.
SOURCE: FriendsIndex.cpp:71-77, 212 -/
def build (u : Flow) : Flow :=
  match u.pusher, u.todo with
  | .finishing _, _ => u
  | _, [] => u
  | _, e :: rest => { u with todo := rest, indexCache := u.indexCache ++ [e] }

/-- One step of the push thread: it looks whether to stop, and takes what is cached, however long
it has waited for it; when there is nothing it sets the data finished. SOURCE: FriendsIndex.cpp:61-69, 93-120 -/
def pushIndex (stop : Bool) (u : Flow) : Flow :=
  match u.pusher with
  | .checking => { u with pusher := if stop then .ended else .waiting }
  | .waiting =>
    if u.indexCache = [] then { u with pusher := .finishing .nothing }
    else
      { u with
        indexCache := []
        tasks := u.tasks ++ [⟨u.indexCache, .nothing⟩]
        cut := u.cut ++ [u.indexCache]
        pusher := .checking }
  | .finishing (.data i) => { u.setData i (·.setFinish true) with pusher := .ended }
  | .finishing located =>
    let r := u.locateAsynIndex located
    { r.2 with pusher := .finishing r.1 }
  | .ended => u

/-- A step of one of the push tasks, in any order. SOURCE: FriendsIndex.cpp:46-58 -/
def pushTask (k : ℕ) (u : Flow) : Flow :=
  match u.tasks[k]? with
  | none => u
  | some ⟨batch, .data i⟩ => { u.setData i (·.push batch) with tasks := u.tasks.eraseIdx k }
  | some ⟨batch, located⟩ =>
    let r := u.locateAsynIndex located
    { r.2 with tasks := u.tasks.set k ⟨batch, r.1⟩ }

/-- The `CalculateRoutTask` finds the data of the user. SOURCE: BuddySixDegreesI.cpp:159-175 -/
def hold (u : Flow) : Flow := { u with held := u.asyn }

/-- SOURCE: BuddySixDegreesI.cpp:179-180 -/
def fetch (u : Flow) : Flow := { u with hand := (u.dataOf u.held).getFreshersData u.index }

/-- SOURCE: BuddySixDegreesI.cpp:191-201, 206-222 -/
def pushIndexSeq (u : Flow) : Flow :=
  if u.hand = [] then u
  else { u with newFriends := u.newFriends ++ [u.hand], index := u.index + 1, hand := [] }

/-- The newest batch, empty when there is none. SOURCE: BuddySixDegreesI.cpp:325-333 -/
def newest (u : Flow) : IndexData := u.newFriends.getLast?.getD []

/-- The newest batch is merged into all entries. SOURCE: BuddySixDegreesI.cpp:229-238 -/
def merge (u : Flow) : Flow :=
  { u with
    allFriends := addNewFriends u.newest u.allFriends
    joined := u.joined ++ u.newFriends.getLast?.toList }

/-- The newest batch is merged and goes: `erase(end())`, which has no meaning of its own, takes the
last one off a vector. SOURCE: BuddySixDegreesI.cpp:338-344 -/
def join (u : Flow) : Flow := { u.merge with newFriends := u.newFriends.dropLast }

end Flow

/-! ## The search -/

/-- SOURCE: BuddySixDegreesI.h:44-86 -/
structure HostGuestRout where
  isEnd : Bool
  routList : List (List ℤ)
  deriving DecidableEq, Repr

/-- Whether the pair is among those that run. SOURCE: StartStopFlag.h:35-176 -/
inductive StartStopFlag where
  | idle
  | started
  | stopped
  deriving DecidableEq, Repr

/-- Where the task is. SOURCE: BuddySixDegreesI.cpp:94-203 -/
inductive TaskPlace where
  | starting
  | opening
  | comparing
  | looping
  | finding (x : Side)
  | fetching (x : Side)
  | checking
  | pushing
  | ended
  deriving DecidableEq, Repr

/-- Where the `CalculateRoutThread` is: before it starts, before it looks whether to stop, before it
takes what there is, in a comparison that does not come to its end, which it makes under its lock,
and behind its end. SOURCE: BuddySixDegreesI.cpp:305-359 -/
inductive CalculatePlace where
  | idle
  | checking
  | waiting
  | endless
  | ended
  deriving DecidableEq, Repr

/-- The complete indexes of the two users. -/
def indexes (c : Caches) (host guest : ℤ) : Side → List IndexInfo
  | .host => asynBuildIndex c host
  | .guest => asynBuildIndex c guest

/-- `tried` records the pairs that have been tried. -/
structure Search where
  host : ℤ
  guest : ℤ
  flows : Side → Flow
  flag : StartStopFlag
  rout : Option HostGuestRout
  task : TaskPlace
  calculate : CalculatePlace
  tried : List Pair

namespace Search

/-- Neither user is in the cache of indexes yet. SOURCE: BuddySixDegreesI.cpp:35-51 -/
def new (c : Caches) (host guest : ℤ) : Search :=
  ⟨host, guest, fun x => .new (indexes c host guest x), .idle, none, .starting, .idle, []⟩

def setFlow (s : Search) (x : Side) (u : Flow) : Search :=
  { s with flows := Function.update s.flows x u }

/-- SOURCE: StartStopFlag.h:150-176 -/
def isStop (s : Search) : Bool := s.flag ≠ .started

def addRouts (s : Search) (routList : List (List ℤ)) : Search :=
  { s with rout := s.rout.map fun r => { r with routList := r.routList ++ routList } }

def setEnd (s : Search) : Search := { s with rout := s.rout.map fun r => { r with isEnd := true } }

/-- Whether the end flag is set. -/
def hasEnd (s : Search) : Bool := s.rout.any fun r => r.isEnd

/-- Direct friends and common ones; without the friends of a user the search is over.
SOURCE: BuddySixDegreesI.cpp:112-143 -/
def compareFriends (friends : Side → Option (List ℤ)) (s : Search) : Search :=
  match friends .host with
  | none => { s.setEnd with task := .ended }
  | some hostFriends =>
    let s := s.addRouts (if hasFriend hostFriends s.guest then [[s.host, s.guest]] else [])
    match friends .guest with
    | none => { s.setEnd with task := .ended }
    | some guestFriends =>
      { s.addRouts (hasCommonFriend s.host s.guest hostFriends guestFriends) with task := .looping }

/-- One step of the `CalculateRoutTask`. What it has read of the flags and the batches it acts on in
a later step. SOURCE: BuddySixDegreesI.cpp:94-203 -/
def taskStep (friends : Side → Option (List ℤ)) (s : Search) : Search :=
  match s.task with
  | .starting => { s with calculate := .checking, task := .opening }
  | .opening =>
    match s.rout with
    | some _ => { s with task := .ended }
    | none => { s with rout := some ⟨false, []⟩, task := .comparing }
  | .comparing => s.compareFriends friends
  | .looping => { s with task := if s.isStop then .ended else .finding .host }
  | .finding x =>
    { s.setFlow x (s.flows x).hold with
      task := if (s.flows x).asyn = none then .looping
        else match x with
          | .host => .finding .guest
          | .guest => .fetching .host }
  | .fetching x =>
    { s.setFlow x (s.flows x).fetch with
      task := match x with
        | .host => .fetching .guest
        | .guest => .checking }
  | .checking =>
    { s with
      task := if (∀ x, ((s.flows x).dataOf (s.flows x).held).finish = true) ∧ ∀ x, (s.flows x).hand = []
        then .ended else .pushing }
  | .pushing =>
    if s.calculate = .endless then s
    else { s with flows := fun x => (s.flows x).pushIndexSeq, task := .looping }
  | .ended => s

/-- The newest batches are joined. SOURCE: BuddySixDegreesI.cpp:224-271, 325-344 -/
def calculateRout (friends : Side → Option (List ℤ)) (s : Search) : Search :=
  let joined := { s with flows := fun x => (s.flows x).join, calculate := .checking }
  match friends .host, friends .guest with
  | some hostFriends, some guestFriends =>
    match FriendsCompareSixDegreesNew.hasCommonFriendNew (s.flows .host).newest (s.flows .guest).newest
      (joined.flows .host).allFriends (joined.flows .guest).allFriends with
    | none => { s with flows := fun x => (s.flows x).merge, calculate := .endless }
    | some pairs =>
      { joined.addRouts (pairs.filterMap fun p =>
          routListAdd s.host s.guest hostFriends guestFriends p.1 p.2) with
        tried := s.tried ++ pairs }
  | _, _ => joined

/-- The data that are cached are read; once set, the flag of a data stays.
SOURCE: BuddySixDegreesI.cpp:279-303, 350-354 -/
def isEnd (s : Search) : Search :=
  if s.rout.isSome ∧ ∀ x, (s.flows x).asyn.isSome ∧ ((s.flows x).dataOf (s.flows x).asyn).finish then
    { s.setEnd with flag := .stopped, calculate := .ended }
  else { s with calculate := .checking }

/-- One step of the `CalculateRoutThread`: it looks whether to stop, and joins what there is,
however long it has waited for it. SOURCE: BuddySixDegreesI.cpp:305-359 -/
def calcStep (friends : Side → Option (List ℤ)) (s : Search) : Search :=
  match s.calculate with
  | .checking => { s with calculate := if s.isStop then .ended else .waiting }
  | .waiting =>
    if ∀ x, (s.flows x).newFriends = [] then s.isEnd else s.calculateRout friends
  | _ => s

end Search

/-! ## Operations -/

/-- `start` is what a call of `computeTaskStart` does last. -/
inductive SearchOp where
  | start
  | build (x : Side)
  | pushIndex (x : Side)
  | pushTask (x : Side) (k : ℕ)
  | task (friends : Side → Option (List ℤ))
  | calculate (friends : Side → Option (List ℤ))

/-- SOURCE: BuddySixDegreesI.cpp:35-54, StartStopFlag.h:35-86 -/
def SearchOp.step (s : Search) : SearchOp → Search
  | .start => { s with flag := if s.flag = .idle then .started else s.flag }
  | .build x => s.setFlow x (s.flows x).build
  | .pushIndex x => s.setFlow x ((s.flows x).pushIndex s.isStop)
  | .pushTask x k => s.setFlow x ((s.flows x).pushTask k)
  | .task friends => s.taskStep friends
  | .calculate friends => s.calcStep friends

end Oce.SixDegrees
