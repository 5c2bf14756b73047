import Mathlib.Data.Int.Order.Basic
import Mathlib.Logic.Function.Basic
import Oce.Base.Int32
import Oce.Base.OrdMap
import Oce.Base.Run
import Oce.TalkCommon.Model.Types

/-!
# The holder of chat messages

A message is held by its user until its receipt comes. A timer collects what has not been
receipted in time, tub by tub, and stores it in the offline table; a load takes what is held of
a user and what is stored, and delivers it. Between the steps of a timer and of a load anything
else may happen: `handles` and `loads` are those that are under way, `scheduled` the statements
that are still to run. One section under the lock of a tub reads the clock once.

A message that a load has taken is changed in place in the source; nobody else finds it then.
What is resent to other avatars stays held, and is left out here.

The ghosts are `accepted`, `receipts`, `read` (the rows that some load has read), `expired` (the
rows that a client's load found too old) and the keys in `handed`.

How many messages were stored for a user since the user last looked is counted apart
(`OfflineCounts`). The count goes into a map, and the timer makes statements of the map; `owed` is
the ghost there.
-/

set_option autoImplicit false

namespace Oce.MessageHolder

open Function Oce.Base Oce.TalkCommon

/-! ## Tubs -/

/-- SOURCE: MessageHolderI.h:53-58 -/
structure MsgTimerInfo where
  msg : Message
  time : ℤ
  resent : Bool
  deriving DecidableEq, Repr

/-- SOURCE: MessageHolderI.h:60 -/
def MSG_TIMEOUT : ℤ := 10

/-- SOURCE: MessageHolderI.h:58-70 -/
structure MessageTub where
  userMsgs : ℤ → OrdMap ℤ Message
  msgTimes : List MsgTimerInfo

namespace MessageTub

def new : MessageTub := ⟨fun _ => .empty, []⟩

/-- SOURCE: MessageHolderI.cpp:113-138 -/
def insert (t : MessageTub) (now : ℤ) (msg : Message) : MessageTub where
  userMsgs := update t.userMsgs msg.toJid.userId
    ((t.userMsgs msg.toJid.userId).insert msg.msgKey msg)
  msgTimes := t.msgTimes ++ [⟨msg, now, msg.toJid.index ≠ -1⟩]

/-- Whether the message was held, and the tub without it. SOURCE: MessageHolderI.cpp:140-153 -/
def send (t : MessageTub) (userId msgKey : ℤ) : Bool × MessageTub :=
  (((t.userMsgs userId).find msgKey).isSome,
    { t with userMsgs := update t.userMsgs userId ((t.userMsgs userId).erase msgKey) })

/-- What has timed out, and the tub. The timers of what is resent go to the back with the time
of the call; the loop stops when it comes to them. SOURCE: MessageHolderI.cpp:180-212 -/
def timeoutLoop (now : ℤ) : List MsgTimerInfo → MessageTub → List Message × MessageTub
  | [], t => ([], t)
  | info :: l, t =>
    if now - info.time < MSG_TIMEOUT then ([], { t with msgTimes := info :: l ++ t.msgTimes })
    else
      let user := info.msg.toJid.userId
      if ((t.userMsgs user).find info.msg.msgKey).isNone then timeoutLoop now l t
      else if info.resent then
        timeoutLoop now l { t with msgTimes := t.msgTimes ++ [{ info with time := now, resent := false }] }
      else
        let r := timeoutLoop now l { t with
          userMsgs := update t.userMsgs user ((t.userMsgs user).erase info.msg.msgKey) }
        (info.msg :: r.1, r.2)

def getTimeoutMsgs (t : MessageTub) (now : ℤ) : List Message × MessageTub :=
  timeoutLoop now t.msgTimes { t with msgTimes := [] }

/-- SOURCE: MessageHolderI.cpp:214-225 -/
def getUserMsgs (t : MessageTub) (userId : ℤ) : List Message × MessageTub :=
  ((t.userMsgs userId).values,
    { t with userMsgs := update t.userMsgs userId .empty })

end MessageTub

/-! ## Texts and rows -/

/-- What is done to the text of a message: whether it has a body, and the text with its sender
and the time of a delay. SOURCE: MessageHolderI.cpp:388-408, 567-587 -/
structure Xml where
  hasBody : String → Bool
  delayed : String → Jid → ℤ → String

/-- SOURCE: MessageHolderI.cpp:378 -/
structure OfflineRow where
  id : ℤ
  fromid : ℤ
  toid : ℤ
  message : String
  time : ℤ
  deriving DecidableEq, Repr

/-- SOURCE: MessageHolderI.cpp:412-414 -/
def Xml.row (xml : Xml) (m : Message) (time : ℤ) : OfflineRow :=
  ⟨m.msgKey, m.fromJid.userId, m.toJid.userId, xml.delayed m.msg m.fromJid time, time⟩

/-- SOURCE: MessageHolderI.cpp:606-619 -/
def OfflineRow.toMessage (row : OfflineRow) (jid : Jid) : Message :=
  ⟨⟨row.fromid, "", -1⟩, jid, row.message, OFFLINE_MESSAGE, 0⟩

/-- SOURCE: MessageHolderI.cpp:563-589 -/
def Xml.offline (xml : Xml) (m : Message) (jid : Jid) (time : ℤ) : Message :=
  { m with
    type := OFFLINE_MESSAGE
    toJid := jid
    msg := if xml.hasBody m.msg then xml.delayed m.msg m.fromJid time else m.msg }

/-- SOURCE: MessageHolderI.cpp:620, 645 -/
def isClient (jid : Jid) : Bool := jid.endpoint.toList.head? = some 'T'

/-- The age of a row as a `size_t`. SOURCE: MessageHolderI.cpp:621 -/
def age (now time : ℤ) : ℤ := (now - time) % 2 ^ 64

/-- Five days. SOURCE: MessageHolderI.cpp:621 -/
def kOldest : ℤ := 432000

/-! ## The holder -/

/-- A statement that is to run. -/
inductive Sql where
  /-- SOURCE: MessageHolderI.cpp:157 -/
  | deleteById (id : ℤ)
  /-- SOURCE: MessageHolderI.cpp:631 -/
  | deleteByToid (toid : ℤ)
  deriving DecidableEq, Repr

/-- A timer that is under way: the tub that comes next, and what it has collected. -/
structure Handling where
  next : ℕ
  timeoutMsgs : List Message

/-- A load that is under way: what it has taken, and the rows it has read and will deliver. -/
structure Loading where
  jid : Jid
  msgs : List Message
  rows : Option (List OfflineRow)

/-- SOURCE: MessageHolderI.h:104-109 -/
structure Holder where
  tubs : ℤ → MessageTub
  table : List OfflineRow
  scheduled : List Sql
  handles : List Handling
  loads : List Loading
  accepted : List Message
  receipts : List ℤ
  read : List ℤ
  expired : List ℤ
  handed : List (ℤ × Message)

namespace Holder

def new : Holder := ⟨fun _ => .new, [], [], [], [], [], [], [], [], []⟩

variable (poolSize : ℕ) (xml : Xml)

/-- The place of a user's tub; there are 10000. The place of a negative id is outside of the array.
SOURCE: MessageHolderI.h:100-101 -/
def tubOf (userId : ℤ) : ℤ := userId.tmod poolSize

/-- What is held of a user. -/
def held (s : Holder) (userId : ℤ) : OrdMap ℤ Message :=
  (s.tubs (tubOf poolSize userId)).userMsgs userId

def setTub (s : Holder) (i : ℤ) (t : MessageTub) : Holder :=
  { s with tubs := update s.tubs i t }

/-- SOURCE: MessageHolderI.cpp:479-488 -/
def message (s : Holder) (now : ℤ) (msg : Message) : Holder :=
  let i := tubOf poolSize msg.toJid.userId
  { s.setTub i ((s.tubs i).insert now msg) with accepted := s.accepted ++ [msg] }

/-- SOURCE: MessageHolderI.cpp:140-165, 490-494 -/
def send (s : Holder) (userId msgKey : ℤ) : Holder :=
  let i := tubOf poolSize userId
  let r := (s.tubs i).send userId msgKey
  { s.setTub i r.2 with
    scheduled := if r.1 then s.scheduled else s.scheduled ++ [.deleteById msgKey]
    receipts := s.receipts ++ [msgKey] }

/-- SOURCE: MessageHolderI.cpp:335-338 -/
def handle (s : Holder) : Holder := { s with handles := s.handles ++ [⟨0, []⟩] }

/-- One tub of a timer. SOURCE: MessageHolderI.cpp:518-522 -/
def collect (s : Holder) (i : ℕ) (now : ℤ) : Holder :=
  match s.handles[i]? with
  | none => s
  | some h =>
    if h.next < poolSize then
      let r := (s.tubs h.next).getTimeoutMsgs now
      { s.setTub h.next r.2 with handles := s.handles.set i ⟨h.next + 1, h.timeoutMsgs ++ r.1⟩ }
    else s

/-- What a timer has collected is stored, each with the time of its row.
SOURCE: MessageHolderI.cpp:373-424 -/
def store (s : Holder) (i : ℕ) (clock : ℤ → ℤ) : Holder :=
  match s.handles[i]? with
  | none => s
  | some h =>
    if h.next < poolSize then s
    else { s with
      table := s.table ++
        (h.timeoutMsgs.filter fun m => xml.hasBody m.msg).map fun m => xml.row m (clock m.msgKey)
      handles := s.handles.eraseIdx i }

/-- A load begins. SOURCE: MessageHolderI.cpp:506-509, 559-589 -/
def loadOfflineMessage (s : Holder) (jid : Jid) (now : ℤ) : Holder :=
  let i := tubOf poolSize jid.userId
  let r := (s.tubs i).getUserMsgs jid.userId
  { s.setTub i r.2 with
    loads := s.loads ++ [⟨jid, r.1.map fun m => xml.offline m jid now, none⟩] }

/-- A load reads the table. SOURCE: MessageHolderI.cpp:591-634 -/
def select (s : Holder) (i : ℕ) (now : ℤ) : Holder :=
  match s.loads[i]? with
  | some ⟨jid, msgs, none⟩ =>
    let res := s.table.filter fun row => row.toid = jid.userId
    let rows := if isClient jid then res.filter fun row => age now row.time ≤ kOldest else res
    { s with
      loads := s.loads.set i ⟨jid, msgs, some rows⟩
      scheduled := if res = [] then s.scheduled else s.scheduled ++ [.deleteByToid jid.userId]
      read := s.read ++ res.map OfflineRow.id
      expired := if isClient jid then
          s.expired ++ (res.filter fun row => kOldest < now - row.time).map OfflineRow.id
        else s.expired }
  | _ => s

/-- A load ends. SOURCE: MessageHolderI.cpp:639-655 -/
def deliver (s : Holder) (i : ℕ) : Holder :=
  match s.loads[i]? with
  | some ⟨jid, msgs, some rows⟩ =>
    { s with
      loads := s.loads.eraseIdx i
      handed := if isClient jid then s.handed ++ rows.map (fun row => (row.id, row.toMessage jid)) ++
          msgs.map fun m => (m.msgKey, m)
        else s.handed }
  | _ => s

/-- A scheduled statement runs. -/
def runSql (s : Holder) (i : ℕ) : Holder :=
  match s.scheduled[i]? with
  | none => s
  | some sql =>
    { s with
      table := s.table.filter fun row =>
        match sql with
        | .deleteById id => row.id ≠ id
        | .deleteByToid toid => row.toid ≠ toid
      scheduled := s.scheduled.eraseIdx i }

end Holder

/-- What is done to the holder. -/
inductive HolderOp where
  | message (now : ℤ) (msg : Message)
  | send (userId msgKey : ℤ)
  | handle
  | collect (i : ℕ) (now : ℤ)
  | store (i : ℕ) (clock : ℤ → ℤ)
  | loadOfflineMessage (jid : Jid) (now : ℤ)
  | select (i : ℕ) (now : ℤ)
  | deliver (i : ℕ)
  | runSql (i : ℕ)

/-- One step of the holder. -/
def HolderOp.step (poolSize : ℕ) (xml : Xml) (s : Holder) : HolderOp → Holder
  | message now msg => s.message poolSize now msg
  | send userId msgKey => s.send poolSize userId msgKey
  | handle => s.handle
  | collect i now => s.collect poolSize i now
  | store i clock => s.store poolSize xml i clock
  | loadOfflineMessage jid now => s.loadOfflineMessage poolSize xml jid now
  | select i now => s.select i now
  | deliver i => s.deliver i
  | runSql i => s.runSql i

/-! ## The counts -/

/-- A statement on `offline_message_count`: its rows are added to what the table has, or take its
place. SOURCE: MessageHolderI.cpp:288-300, 307-319 -/
inductive CountSql where
  | add (rows : List (ℤ × ℤ))
  | put (rows : List (ℤ × ℤ))
  deriving DecidableEq, Repr

/-- The table after a statement; a row that is not there is inserted. -/
def CountSql.run (table : OrdMap ℤ ℤ) : CountSql → OrdMap ℤ ℤ
  | add rows => rows.foldl (fun t r => t.insert r.1 ((t.find r.1).getD 0 + r.2)) table
  | put rows => rows.foldl (fun t r => t.insert r.1 r.2) table

/-- The rows of a statement that is being made; when `count` is 0 they are those of the last. -/
structure Batch where
  rows : List (ℤ × ℤ)
  count : ℕ

namespace Batch

def new : Batch := ⟨[], 0⟩

/-- One row more. SOURCE: MessageHolderI.cpp:287-295 -/
def push (b : Batch) (r : ℤ × ℤ) : Batch where
  rows := if b.count = 0 then [r] else b.rows ++ [r]
  count := b.count + 1

/-- SOURCE: MessageHolderI.cpp:296 -/
def full (b : Batch) : Bool := b.count % 1000 = 0

/-- What is left once the loop has ended. SOURCE: MessageHolderI.cpp:323-330 -/
def rest (sql : List (ℤ × ℤ) → CountSql) (b : Batch) : List CountSql :=
  if b.count = 0 then [] else [sql b.rows]

end Batch

/-- What the loop over the map has come to: the two statements, those that were full and are
scheduled, and the `LeavewordCount`s that are cached. -/
structure Flush where
  sql1 : Batch
  sql2 : Batch
  scheduled : List CountSql
  cache : OrdMap ℤ ℤ

namespace Flush

/-- A cached count. SOURCE: MessageHolderI.cpp:282-285, MessageHolderI.h:28-33 -/
def incCached (cache : OrdMap ℤ ℤ) (userId n : ℤ) : OrdMap ℤ ℤ :=
  match cache.find userId with
  | none => cache
  | some count => cache.insert userId (asInt (count + n))

def cleanCached (cache : OrdMap ℤ ℤ) (userId : ℤ) : OrdMap ℤ ℤ :=
  match cache.find userId with
  | none => cache
  | some _ => cache.insert userId 0

/-- SOURCE: MessageHolderI.cpp:281-300 -/
def add (f : Flush) (r : ℤ × ℤ) : Flush :=
  let b := f.sql1.push r
  { f with
    cache := incCached f.cache r.1 r.2
    sql1 := if b.full then { b with count := 0 } else b
    scheduled := if b.full then f.scheduled ++ [.add b.rows] else f.scheduled }

/-- SOURCE: MessageHolderI.cpp:301-320 -/
def put (f : Flush) (r : ℤ × ℤ) : Flush :=
  let b := f.sql2.push r
  { f with
    cache := cleanCached f.cache r.1
    sql2 := if b.full then { b with count := 0 } else b
    scheduled := if b.full then f.scheduled ++ [.put b.rows] else f.scheduled }

/-- One entry of the map. SOURCE: MessageHolderI.cpp:280-321 -/
def round (f : Flush) (r : ℤ × ℤ) : Flush :=
  if 0 < r.2 then f.add r else if r.2 = 0 then f.put r else f

/-- SOURCE: MessageHolderI.cpp:323-330 -/
def finish (f : Flush) : List CountSql :=
  f.scheduled ++ f.sql1.rest .add ++ f.sql2.rest .put

end Flush

/-- `offlineMsgCount` is the map that is counted in, `countMap` the one that a run of the timer has
taken and not yet gone through; `owed` is what was counted for a user since the last clean.
SOURCE: MessageHolderI.h:74-96 -/
structure OfflineCounts where
  offlineMsgCount : OrdMap ℤ ℤ
  countMap : OrdMap ℤ ℤ
  scheduled : List CountSql
  table : OrdMap ℤ ℤ
  cache : OrdMap ℤ ℤ
  owed : ℤ → ℤ

namespace OfflineCounts

def new : OfflineCounts := ⟨.empty, .empty, [], .empty, .empty, fun _ => 0⟩

/-- SOURCE: MessageHolderI.cpp:237-246 -/
def incOfflineMsgCount (s : OfflineCounts) (userId : ℤ) : OfflineCounts :=
  { s with
    offlineMsgCount := s.offlineMsgCount.insert userId
      (match s.offlineMsgCount.find userId with
      | none => 1
      | some n => asInt (n + 1))
    owed := update s.owed userId (s.owed userId + 1) }

/-- SOURCE: MessageHolderI.cpp:253-256 -/
def cleanOfflineMsgCount (s : OfflineCounts) (userId : ℤ) : OfflineCounts :=
  { s with
    offlineMsgCount := s.offlineMsgCount.insert userId 0
    owed := update s.owed userId 0 }

/-- A run takes the map, when the one before it has gone through its own.
SOURCE: MessageHolderI.cpp:248-251, 269-274 -/
def popOfflineMsgCountMap (s : OfflineCounts) : OfflineCounts :=
  if s.countMap.entries = [] then
    { s with countMap := s.offlineMsgCount, offlineMsgCount := .empty }
  else s

/-- The loop of a run; nobody else has the map that it goes through.
SOURCE: MessageHolderI.cpp:276-331 -/
def processOfflineMsgCount (s : OfflineCounts) : OfflineCounts :=
  let f := s.countMap.entries.foldl Flush.round ⟨.new, .new, [], s.cache⟩
  { s with countMap := .empty, scheduled := s.scheduled ++ f.finish, cache := f.cache }

/-- The next statement that was scheduled runs. -/
def runSql (s : OfflineCounts) : OfflineCounts :=
  match s.scheduled with
  | [] => s
  | sql :: rest => { s with scheduled := rest, table := sql.run s.table }

end OfflineCounts

/-- What is done to the counts. -/
inductive CountOp where
  | inc (userId : ℤ)
  | clean (userId : ℤ)
  | pop
  | process
  | runSql

/-- One step of the counts. -/
def CountOp.step (s : OfflineCounts) : CountOp → OfflineCounts
  | inc userId => s.incOfflineMsgCount userId
  | clean userId => s.cleanOfflineMsgCount userId
  | pop => s.popOfflineMsgCountMap
  | process => s.processOfflineMsgCount
  | runSql => s.runSql

end Oce.MessageHolder
