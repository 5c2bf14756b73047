import Oce.Base.Run
import Oce.FeedDB.Model.Master

/-!
# The master sends feeds to the data nodes

`putBatch` gets a block for each user, puts the blocks of a server into messages, and sends
them; what it cannot send goes to the list of `RetryTimer`, whose `handle` sends it again from
time to time. Any number of calls of `putBatch` are under way beside the one thread of the timer
and the master's other operations. An event is one critical section or one call of a data node,
and the events come in any order.

A mutex is not re-entrant: a thread that locks what it holds itself waits for ever. The blocks a
call was given, the messages it made and sent, what has failed and what the list refused with
how long it was are kept beside the state.
-/

set_option autoImplicit false

namespace Oce.FeedDB

open Oce.Base

/-- A message, under the server it was made for. -/
structure Message where
  server : ℤ
  feed : FeedItem
  seq : List BlockInfo
  deriving DecidableEq, Repr

/-- The server whose proxy is called. SOURCE: FeedDBAdapter.cpp:21-28, 87-94 -/
def Message.dest (msg : Message) : Option ℤ := msg.seq.head?.map BlockInfo.serverId

/-- SOURCE: DataNodeManager.cpp:358 -/
def maxMsgSize : ℕ := 5000

/-- The sequences for a server, with the mark of a new block. SOURCE: DataNodeManager.cpp:359 -/
abbrev BlkInfoMap := OrdMap ℤ (List (Bool × List BlockInfo))

/-- A block at the end of a sequence. SOURCE: DataNodeManager.cpp:386-389 -/
def putInto (blk : BlockInfo) (p : Bool × List BlockInfo) : Bool × List BlockInfo :=
  (p.1 || decide (blk.curCount = 1), p.2 ++ [blk])

/-- A block goes to the last sequence of its server, or to a new one.
SOURCE: DataNodeManager.cpp:383-389 -/
def addToSeqs (blk : BlockInfo) (seqs : List (Bool × List BlockInfo)) :
    List (Bool × List BlockInfo) :=
  match seqs.getLast? with
  | none => [putInto blk (false, [])]
  | some last =>
    if maxMsgSize ≤ last.2.length then seqs ++ [putInto blk (false, [])]
    else seqs.dropLast ++ [putInto blk last]

def BlkInfoMap.add (m : BlkInfoMap) (blk : BlockInfo) : BlkInfoMap :=
  m.insert blk.serverId (addToSeqs blk ((m.find blk.serverId).getD []))

/-- The messages in the order they are sent. SOURCE: DataNodeManager.cpp:392-400 -/
def BlkInfoMap.messages (m : BlkInfoMap) (feed : FeedItem) : List Message :=
  m.entries.flatMap fun e => e.2.map fun p => ⟨e.1, feed, p.2⟩

/-! ## A call of `putBatch` -/

/-- Where a call is: in its first loop with the users that are left; in its second, with the messages
that are left, or with a message for the timer's list; or it has thrown. -/
inductive Stage where
  | collecting (users : List (ℤ × ℤ)) (blkInfoMap : BlkInfoMap)
  | sending (msgs : List Message)
  | pushing (msg : Message) (msgs : List Message)
  | thrown

structure PutBatch where
  feed : FeedItem
  usersWeight : OrdMap ℤ ℤ
  stage : Stage
  obtained : List BlockInfo
  messages : List Message
  sent : List Message

/-- SOURCE: DataNodeManager.cpp:357-360 -/
def PutBatch.new (feed : FeedItem) (usersWeight : OrdMap ℤ ℤ) : PutBatch :=
  ⟨feed, usersWeight, .collecting usersWeight.entries .empty, [], [], []⟩

/-! ## The timer -/

/-- SOURCE: DataNodeManager.h:82-97 -/
structure RetryTimer where
  feeds : List Message
  locked : Bool

/-- `none` if the caller has to wait for the mutex. SOURCE: DataNodeManager.h:85-92 -/
def RetryTimer.push (t : RetryTimer) (msg : Message) : Option RetryTimer :=
  if t.locked then none
  else if 500000 < t.feeds.length then some t
  else some { t with feeds := t.feeds ++ [msg] }

/-- Where `handle` is: it is not running; it is about to take a message, or to send one; it waits
for the mutex with a message that failed. -/
inductive Handle where
  | idle
  | looping
  | resending (msg : Message)
  | waiting (msg : Message)
  deriving DecidableEq, Repr

/-! ## All together -/

structure Sender where
  manager : DataNodeManager
  calls : List PutBatch
  timer : RetryTimer
  handle : Handle
  resent : List Message
  failed : List Message
  refused : List (Message × ℕ)

inductive SendEvent where
  | op (op : MasterOp)
  | put (feed : FeedItem) (usersWeight : OrdMap ℤ ℤ)
  | next (call : ℕ) (succeeds : Bool)
  | handle (succeeds : Bool)

namespace Sender

def start (manager : DataNodeManager) : Sender :=
  ⟨manager, [], ⟨[], false⟩, .idle, [], [], []⟩

/-- The first loop after the master's answer for its next user.
SOURCE: DataNodeManager.cpp:368-390 -/
def answered (c : PutBatch) (user : ℤ × ℤ) (users : List (ℤ × ℤ)) (m : BlkInfoMap) :
    Reply → PutBatch
  | .block info =>
    let blk := { info with weight := user.2 }
    { c with stage := .collecting users (m.add blk), obtained := c.obtained ++ [blk] }
  | .thrown _ => { c with stage := .thrown }
  | _ => { c with stage := .collecting users m }

/-- The first loop's next step. SOURCE: DataNodeManager.cpp:361-391 -/
def collect (s : Sender) (c : PutBatch) :
    List (ℤ × ℤ) → BlkInfoMap → Option (Sender × PutBatch)
  | [], m =>
    some (s, { c with stage := .sending (m.messages c.feed), messages := m.messages c.feed })
  | user :: users, m =>
    if user.1 = 0 then some (s, { c with stage := .collecting users m })
    else
      (s.manager.get user.1 true).map fun got =>
        ({ s with manager := got.2 }, answered c user users m got.1)

/-- The next step of a call. SOURCE: DataNodeManager.cpp:357-419 -/
def stepCall (s : Sender) (c : PutBatch) (succeeds : Bool) : Option (Sender × PutBatch) :=
  match c.stage with
  | .collecting users m => s.collect c users m
  | .sending (msg :: msgs) =>
    if succeeds then some (s, { c with stage := .sending msgs, sent := c.sent ++ [msg] })
    else
      some ({ s with failed := s.failed ++ [msg] },
        { c with stage := .pushing msg msgs, sent := c.sent ++ [msg] })
  | .pushing msg msgs =>
    match s.timer.push msg with
    | none => some (s, c)
    | some timer =>
      some ({ s with
          timer := timer
          refused := if 500000 < s.timer.feeds.length then
            s.refused ++ [(msg, s.timer.feeds.length)] else s.refused },
        { c with stage := .sending msgs })
  | .sending [] => some (s, c)
  | .thrown => some (s, c)

def next (s : Sender) (i : ℕ) (succeeds : Bool) : Option Sender :=
  match s.calls[i]? with
  | none => some s
  | some c =>
    (s.stepCall c succeeds).map fun r => { r.1 with calls := r.1.calls.set i r.2 }

/-- The next step of `RetryTimer::handle`, which holds the mutex while it pushes.
SOURCE: DataNodeManager.cpp:444-475 -/
def stepHandle (s : Sender) (succeeds : Bool) : Sender :=
  match s.handle with
  | .idle => if s.timer.feeds = [] then s else { s with handle := .looping }
  | .looping =>
    match s.timer.feeds with
    | [] => { s with handle := .idle }
    | msg :: feeds => { s with timer := { s.timer with feeds := feeds }, handle := .resending msg }
  | .resending msg =>
    if succeeds then { s with handle := .looping, resent := s.resent ++ [msg] }
    else
      let timer : RetryTimer := { s.timer with locked := true }
      match timer.push msg with
      | none => { s with timer := timer, handle := .waiting msg }
      | some timer => { s with timer := { timer with locked := false }, handle := .idle }
  | .waiting msg =>
    match s.timer.push msg with
    | none => s
    | some timer => { s with timer := { timer with locked := false }, handle := .idle }

/-- An event; there is no result where the master has none. A restart of the master ends its calls
and forgets the list. -/
def event (s : Sender) : SendEvent → Option Sender
  | .op (.restart cluster curNode curCount) => (s.manager.init cluster curNode curCount).map start
  | .op op => (op.step s.manager).map fun r => { s with manager := r.2 }
  | .put feed usersWeight => some { s with calls := s.calls ++ [.new feed usersWeight] }
  | .next i succeeds => s.next i succeeds
  | .handle succeeds => some (s.stepHandle succeeds)

/-- The state after an event. -/
def step : Option Sender → SendEvent → Option Sender := partialStep event

end Sender

end Oce.FeedDB
