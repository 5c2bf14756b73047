import Oce.FeedDB.Model.Master
import Oce.FeedDB.Model.Node

/-!
# The master and its data nodes together

A client asks the master for a user's block and sends the record to the data node that the
block's info names; it removes a feed by its id starting from the user's newest block. The
infos are applied in the order the master issued them, so a record and its info are one
operation.

`kept` is not in the source: it says what the store is for. It holds for each user the
items of each block the user was given, newest block first, that were inserted, not
refused as duplicates of the same block, and not removed. `get` should return the first
items of these lists in a row.
-/

set_option autoImplicit false

namespace Oce.FeedDB

/-- The items of a block after one more came in: in descending order of their feed ids,
and unchanged if the feed is there. -/
def insertFeed (x : FeedItem) (l : List FeedItem) : List FeedItem :=
  if ∃ a ∈ l, a.feed = x.feed then l
  else (l.filter fun a => decide (x.feed < a.feed)) ++ x :: l.filter fun a => decide (a.feed < x.feed)

/-- The items of a block after a feed was taken out. -/
def dropFeed (feed : ℤ) (l : List FeedItem) : List FeedItem :=
  l.filter fun a => decide (a.feed ≠ feed)

/-- The blocks after a feed was taken out of the first one that has it. -/
def dropFirst (feed : ℤ) : List (List FeedItem) → List (List FeedItem)
  | [] => []
  | l :: ls => if ∃ a ∈ l, a.feed = feed then dropFeed feed l :: ls else l :: dropFirst feed ls

/-- The blocks after a record was sent with an info: the first record of a block opens it,
every other goes to the newest one. -/
def keepItem (info : BlockInfo) (x : FeedItem) : List (List FeedItem) → List (List FeedItem)
  | [] => [[x]]
  | l :: ls => if info.curCount = 1 then [x] :: l :: ls else insertFeed x l :: ls

/-- The record a data node makes of an item and the info of its block.
SOURCE: FeedDBDataI.cpp:69-72 -/
def recordOf (item : FeedItem) (info : BlockInfo) : FeedItemBlockInfo :=
  ⟨{ item with weight := info.weight }, info⟩

/-- The master and the data node of each server. -/
structure Cluster where
  master : DataNodeManager
  nodes : ℤ → Node
  kept : ℤ → List (List FeedItem)

/-- What clients do. `fuel` bounds the blocks the loop of a removal visits, and `garbage` is what the
memory of a pointer record holds in the place of its feed. -/
inductive ClusterOp where
  | put (userId : ℤ) (item : FeedItem) (garbage : ℤ) (fuel : ℕ)
  | removeFeed (userId feed : ℤ) (fuel : ℕ)

namespace ClusterOp

/-- A put after the master's answer. SOURCE: FeedDBDataI.cpp:54-75 -/
def putAt (c : Cluster) (userId : ℤ) (item : FeedItem) (garbage : ℤ) (fuel : ℕ)
    (m : DataNodeManager) : Reply → Cluster
  | .block info =>
    { master := m
      nodes := Function.update c.nodes info.serverId
        ((c.nodes info.serverId).asyncPutWith garbage (recordOf item info) false fuel)
      kept := Function.update c.kept userId
        (keepItem info (recordOf item info).item (c.kept userId)) }
  | _ => { c with master := m }

/-- A removal after the master's answer. SOURCE: FeedDBDataI.cpp:177-179 -/
def removeAt (c : Cluster) (userId feed : ℤ) (fuel : ℕ) (m : DataNodeManager) : Reply → Cluster
  | .block info =>
    { master := m
      nodes := Function.update c.nodes info.serverId
        ((c.nodes info.serverId).asyncRemove info feed fuel)
      kept := Function.update c.kept userId (dropFirst feed (c.kept userId)) }
  | _ => { c with master := m }

/-- There is no result where the master has none. -/
def apply (c : Cluster) : ClusterOp → Option Cluster
  | put userId item garbage fuel =>
    (c.master.get userId true).map fun got => putAt c userId item garbage fuel got.2 got.1
  | removeFeed userId feed fuel =>
    (c.master.get userId false).map fun got => removeAt c userId feed fuel got.2 got.1

/-- The state after an operation. -/
def step : Option Cluster → ClusterOp → Option Cluster := Base.partialStep apply

end ClusterOp

end Oce.FeedDB
