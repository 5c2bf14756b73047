import Oce.Base.Bytes
import Oce.Base.Int32
import Oce.Base.Run

/-!
# The connection to the brokers of a cluster

A `BrokerConnection` has shared pointers to `Broker` objects, and a broker has a consumer for every
subject that was asked for, with a buffer of the messages that have arrived there. An object is known
by its number, and no number is given twice; what happens to an object that nobody points to any more
is nothing. ZooKeeper lists the children of a cluster by texts `host|port|status`.

Updates, arriving messages and calls of `receive` come one after the other. A message is known by its
number too, and whether a consumer can connect to its broker is left open. `previous`, `children`,
`arrived`, `waiting` and `handed` are not in the source: the brokers before the last update, the
children it listed, how many messages have arrived, which of them wait at a broker that has been listed
ever since, and those that were handed out.
-/

set_option autoImplicit false

namespace Oce.MessagePipe

open Oce.Base

/-- The buffers of the consumers are kept by subject. SOURCE: Broker.h:12-45, AsyncConsumer.h:23 -/
structure Broker where
  cluster : List Byte
  host : List Byte
  port : ℤ
  status : List Byte
  subject2Consumer : List Byte → Option (List ℕ)

namespace Broker

/-- SOURCE: Broker.h:23-25 -/
def new (cluster host : List Byte) (port : ℤ) (status : List Byte) : Broker :=
  ⟨cluster, host, port, status, fun _ => none⟩

/-- SOURCE: Broker.h:26-28 -/
def isValid (b : Broker) : Bool := b.status = ascii "ONLINE"

/-- SOURCE: Broker.h:34-36 -/
def equals (b op : Broker) : Bool :=
  b.cluster = op.cluster ∧ b.host = op.host ∧ b.port = op.port

end Broker

/-- `res.swap(buffers_)`: the buffer afterwards, and what the caller gets.
SOURCE: AsyncConsumer.cpp:33-40 -/
def consumerReceive (buffers res : List ℕ) : List ℕ × List ℕ :=
  if buffers ≠ [] then (res, buffers) else (buffers, res)

namespace Broker

/-- SOURCE: Broker.cpp:54-89 -/
def receive (b : Broker) (subject : List Byte) (connects : Bool) (messages : List ℕ) :
    Broker × List ℕ :=
  match (b.subject2Consumer subject).or (if connects then some [] else none) with
  | none => (b, messages)
  | some buffers =>
    let r := consumerReceive buffers messages
    ({ b with subject2Consumer := Function.update b.subject2Consumer subject (some r.1) }, r.2)

end Broker

/-- What a child says about its broker, if it is one. SOURCE: ZKManager.cpp:12-30 -/
def parseChild (brokerInfo : List Byte) : Option (List Byte × ℤ × List Byte) :=
  match brokerInfo.splitOn 124 with
  | [host, port, status] =>
    match (readInt port).filter IsInt with
    | none => none
    | some port =>
      if status = ascii "ONLINE" ∨ status = ascii "OFFLINE" then some (host, port, status) else none
  | _ => none

/-- SOURCE: ZKManager.cpp:12-30 -/
def getZKBrokerInfo (cluster brokerInfo : List Byte) : Option Broker :=
  (parseChild brokerInfo).map fun info => .new cluster info.1 info.2.1 info.2.2

/-- The children of a cluster: each is described, and there are no more than an `int` can count. -/
structure Children where
  list : List (List Byte)
  described : ∀ child ∈ list, (parseChild child).isSome = true
  countable : list.length < 2 ^ 31

/-- A message in the consumer of a broker. -/
structure Waiting where
  message : ℕ
  broker : ℕ
  subject : List Byte
  deriving DecidableEq

/-- SOURCE: BrokerConnection.h:17-19 -/
structure BrokerConnection where
  cluster : List Byte
  objects : ℕ → Broker
  made : ℕ
  allBrokers : List ℕ
  validBrokers : List ℕ
  allSeed : ℕ
  previous : List ℕ
  children : List (List Byte)
  arrived : ℕ
  waiting : List Waiting
  handed : List ℕ

namespace BrokerConnection

/-- `new Broker`. -/
def alloc (s : BrokerConnection) (b : Broker) : BrokerConnection :=
  { s with objects := Function.update s.objects s.made b, made := s.made + 1 }

/-- The brokers of the children that are described. SOURCE: ZKManager.cpp:32-42 -/
def getZKBrokers (s : BrokerConnection) : List (List Byte) → BrokerConnection
  | [] => s
  | child :: childs =>
    match getZKBrokerInfo s.cluster child with
    | none => s.getZKBrokers childs
    | some p => { s.alloc p with allBrokers := s.allBrokers ++ [s.made] }.getZKBrokers childs

/-- A connection without brokers. -/
def empty (cluster : List Byte) (children : List (List Byte)) : BrokerConnection where
  cluster := cluster
  objects _ := .new [] [] 0 []
  made := 0
  allBrokers := []
  validBrokers := []
  allSeed := 0
  previous := []
  children := children
  arrived := 0
  waiting := []
  handed := []

/-- SOURCE: BrokerConnection.h:22-34 -/
def new (cluster : List Byte) (children : Children) : BrokerConnection :=
  let s := (empty cluster children.list).getZKBrokers children.list
  { s with validBrokers := s.allBrokers.filter fun i => (s.objects i).isValid }

/-- The loop that looks for an old object: the place where it stops.
SOURCE: BrokerConnection.cpp:78-81 -/
def search (s : BrokerConnection) (broker : Broker) (index : ℕ) : ℕ :=
  if index < s.allBrokers.length then
    index + (s.allBrokers.drop index).findIdx fun i => (s.objects i).equals broker
  else index

/-- The loop over the children. `size_t index = -1` is the greatest `size_t`; the null pointer of a
child that is not described is used, which is not defined. SOURCE: BrokerConnection.cpp:74-89 -/
def childLoop : List (List Byte) → BrokerConnection → List ℕ → List ℕ →
    Option (BrokerConnection × List ℕ × List ℕ)
  | [], s, curAllBrokers, curValidBrokers => some (s, curAllBrokers, curValidBrokers)
  | child :: childs, s, curAllBrokers, curValidBrokers =>
    match getZKBrokerInfo s.cluster child with
    | none => none
    | some broker =>
      match s.allBrokers[s.search broker (2 ^ 64 - 1)]? with
      | some i => childLoop childs s (curAllBrokers ++ [i])
          (if (s.objects i).isValid then curValidBrokers ++ [i] else curValidBrokers)
      | none => childLoop childs (s.alloc broker) (curAllBrokers ++ [s.made])
          (if broker.isValid then curValidBrokers ++ [s.made] else curValidBrokers)

/-- SOURCE: BrokerConnection.cpp:68-93 -/
def handleChildChange (s : BrokerConnection) (currentChilds : List (List Byte)) :
    Option BrokerConnection :=
  (childLoop currentChilds s [] []).map fun r =>
    { r.1 with allBrokers := r.2.1, validBrokers := r.2.2 }

/-- The place of the next broker in turn, a place of the vector; so the first of the rounds is the
last. SOURCE: BrokerConnection.cpp:26-47 -/
def receive (s : BrokerConnection) (subject : List Byte) (connects : Bool) (part : List ℕ) :
    BrokerConnection × List ℕ :=
  let N := s.allBrokers.length
  match s.allBrokers[((s.allSeed % N) + N) % N]? with
  | none => (s, part)
  | some i =>
    let r := (s.objects i).receive subject connects part
    ({ s with
        allSeed := (s.allSeed + 1) % 2 ^ 32
        objects := Function.update s.objects i r.1 }, r.2)

/-- A broker object and a child say the same. -/
def listedBy (s : BrokerConnection) (i : ℕ) (child : List Byte) : Bool :=
  (getZKBrokerInfo s.cluster child).any fun b => (s.objects i).equals b

end BrokerConnection

/-- ZooKeeper tells of a change; a message arrives at the consumer of a broker, if it is there; a
`Consumer` asks for messages, with an empty vector for them. SOURCE: BrokerConnection.cpp:95-103,
AsyncConsumer.cpp:90-101, Consumer.cpp:11-13 -/
inductive BrokerOp where
  | update (children : Children)
  | message (broker : ℕ) (subject : List Byte)
  | receive (subject : List Byte) (connects : Bool)

/-- One step. -/
def BrokerOp.step (s : BrokerConnection) : BrokerOp → BrokerConnection
  | update children =>
    match s.handleChildChange children.list with
    | none => s
    | some s' =>
      { s' with
        previous := s.allBrokers
        children := children.list
        waiting := s.waiting.filter fun w => children.list.any fun child => s.listedBy w.broker child }
  | message broker subject =>
    match (s.objects broker).subject2Consumer subject with
    | none => s
    | some buffers =>
      if broker ∈ s.allBrokers then
        let b := s.objects broker
        { s with
          objects := Function.update s.objects broker
            { b with subject2Consumer :=
              Function.update b.subject2Consumer subject (some (buffers ++ [s.arrived])) }
          arrived := s.arrived + 1
          waiting := s.waiting ++ [⟨s.arrived, broker, subject⟩] }
      else s
  | receive subject connects =>
    let r := s.receive subject connects []
    { r.1 with
      handed := s.handed ++ r.2
      waiting := s.waiting.filter fun w => w.message ∉ r.2 }

end Oce.MessagePipe
