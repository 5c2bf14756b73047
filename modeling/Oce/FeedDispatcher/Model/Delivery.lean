import Mathlib.Data.Finset.Sort
import Oce.Base.Int32
import Oce.Base.Parts
import Oce.FeedDispatcher.Model.ExpressionCache

/-!
# Where a feed goes

If the actor's settings let it, a feed goes to the ids of an expression but for those who have blocked the
actor, and to the actor where it is one for the mini page, but not to those who do not want it; they are
asked for in parts of 5000. It is handed on in parts of 50000, with the rank of each user in the high
byte of the weight.

`Services` is what the expression cache, the database and other services answer, nothing where they
throw; the calls that are made to the services that the feed is handed on to go one way.
-/

set_option autoImplicit false

namespace Oce.FeedDispatcher

open Oce.Base

/-- SOURCE: RFeed.ice:17-31 -/
structure FeedSeed where
  feed : ℤ
  miniMerge : ℤ
  newsMerge : ℤ
  actor : ℤ
  type : BitVec 32
  time : ℤ
  baseWeight : BitVec 32
  extraProps : List Byte → Option (List Byte)

/-- SOURCE: RFeed.ice:33-40 -/
structure FeedItem where
  feed : ℤ
  merge : ℤ
  type : BitVec 32
  time : ℤ
  weight : BitVec 32
  actor : ℤ

/-- SOURCE: RFeed.ice:85-93 -/
structure FeedConfig where
  expr : List Byte
  sendConfig : Bool
  sendNewsConfig : Bool
  sendMiniConfig : Bool

/-- Who is asked, and the number of news servers. `exprIds` is what `Expr2Ids` finds or calculates, and
`blockers` what the database has about those who have blocked a user. -/
structure Services where
  getSendConfig : ℤ → ℕ → ℤ → Option Bool
  exprIds : List Byte → Option (Finset ℤ)
  blockers : ℤ → Option (List ℤ)
  filterRecvConfig : List ℤ → ℕ → ℤ → Option (List ℤ)
  getRevRank : ℤ → Option (OrdMap ℤ (BitVec 32))
  getScoreDict : ℤ → List ℤ → ℕ → Option (OrdMap ℤ (BitVec 32))
  cluster : ℕ
  cluster_pos : 0 < cluster

/-- A weight for each id, from the least. -/
abbrev Int2IntMap := List (ℤ × BitVec 32)

inductive Call
  | filterRecvConfig (userIds : List ℤ) (bigtype : ℕ) (appid : ℤ)
  | mini (item : FeedItem) (config : FeedConfig) (id2Weight : Int2IntMap)
  | transit (ids : List ℤ)
  | news (server : ℕ) (item : FeedItem) (config : FeedConfig) (id2Weight : Int2IntMap)
  | sink (item : FeedItem) (config : FeedConfig) (id2Weight : Int2IntMap)
  | cacheLogic (item : FeedItem) (id2Weight : Int2IntMap)
  | photos (owner : ℤ) (id2Weight : Int2IntMap)

/-- The type of a feed without the kind of its merging. -/
def FeedSeed.stype (feed : FeedSeed) : ℕ := (feed.type &&& 0x0000ffff#32).toNat

/-! ## Who gets it -/

namespace DispatchTask

variable (s : Services) (feed : FeedSeed) (config : FeedConfig)

/-- SOURCE: FeedDispatcher.cpp:344-360 -/
def getAppId : ℤ :=
  match feed.extraProps (ascii "AppId") with
  | none => 0
  | some text => (lexicalCastInt text).getD 0

/-- SOURCE: FeedDispatcher.cpp:476-483 -/
def appid : ℤ := if feed.stype = 8190 then getAppId feed else asInt feed.newsMerge

/-- The settings of the actor. SOURCE: FeedDispatcher.cpp:485-499 -/
def sendConfig : FeedConfig :=
  if config.sendConfig && s.getSendConfig feed.actor (feed.stype / 100) (appid feed) == some false then
    { config with sendNewsConfig := false, sendMiniConfig := false }
  else config

/-- SOURCE: ExpressionCache.cpp:186-208 -/
def filtFriend (actor : ℤ) (result : Finset ℤ) : Finset ℤ :=
  ((s.blockers actor).getD []).foldl Finset.erase result

/-- SOURCE: FeedDispatcher.cpp:510-524 -/
def wanted : Finset ℤ :=
  let target := ((s.exprIds config.expr).map (filtFriend s feed.actor)).getD ∅
  if config.sendMiniConfig ∧ ¬(2901 ≤ feed.stype ∧ feed.stype ≤ 2904) then insert feed.actor target else target

/-- SOURCE: FeedDispatcher.cpp:528 -/
def kMaxSize : ℕ := 5000

/-- One part is asked about. SOURCE: FeedDispatcher.cpp:537-549 -/
def filterPart (r : Finset ℤ × List Call) (partIn : List ℤ) : Finset ℤ × List Call :=
  (match s.filterRecvConfig partIn (feed.stype / 100) (appid feed) with
    | some partOut => partOut.foldl Finset.erase r.1
    | none => r.1,
  r.2 ++ [.filterRecvConfig partIn (feed.stype / 100) (appid feed)])

/-- Who is left, and the calls that have asked. SOURCE: FeedDispatcher.cpp:529-549 -/
def filterRecv (target : Finset ℤ) : Finset ℤ × List Call :=
  (partsOf kMaxSize (intSeq target)).foldl (filterPart s feed) (target, [])

/-- Nobody is asked where the feed is not to go to news. SOURCE: FeedDispatcher.cpp:502-556 -/
def target : Finset ℤ × List Call :=
  if config.sendNewsConfig then filterRecv s feed (wanted s feed config) else (∅, [])

/-- The scores go before the ranks; there are none for a feed to very many.
SOURCE: FeedDispatcher.cpp:391-432, 582-604 -/
def rank (target : Finset ℤ) (id : ℤ) : Option (BitVec 32) :=
  if target = ∅ ∨ 3000 ≤ target.card then none
  else
    ((s.getScoreDict feed.actor (intSeq target) feed.stype).bind (·.find id)).or
      ((s.getRevRank feed.actor).bind (·.find id))

end DispatchTask

/-! ## How it gets there -/

/-- A map in parts, by server. SOURCE: FeedNewsReplicaAdapter.cpp:42-62 -/
def FeedNewsReplicaAdapter.addFeed (s : Services) (item : FeedItem) (config : FeedConfig)
    (uid2weight : Int2IntMap) : List Call :=
  (groupBy (fun e => e.1.natAbs % s.cluster) uid2weight).entries.map fun e => .news e.1 item config e.2

namespace FeedDeliver

variable (s : Services) (feed : FeedSeed) (config : FeedConfig) (rank : ℤ → Option (BitVec 32))

/-- SOURCE: FeedDeliver.cpp:335-342, 433-440 -/
def weightOf (id : ℤ) : BitVec 32 :=
  match rank id with
  | some r => feed.baseWeight ||| ((r <<< 24) &&& 0xff000000#32)
  | none => feed.baseWeight

/-- SOURCE: FeedDeliver.cpp:397-423 -/
def deliverToMini : List Call :=
  if config.sendMiniConfig then
    [.mini ⟨feed.feed, feed.miniMerge, feed.type, feed.time, feed.baseWeight, feed.actor⟩ config
      [(feed.actor, feed.baseWeight)]]
  else []

/-- SOURCE: FeedDeliver.cpp:308-395 -/
def deliverToNews (target : List ℤ) : List Call :=
  if config.sendNewsConfig then
    let item : FeedItem := ⟨feed.feed, feed.newsMerge, feed.type, feed.time, feed.baseWeight, feed.actor⟩
    let id2Weight := target.map fun id => (id, weightOf feed rank id)
    FeedNewsReplicaAdapter.addFeed s item config id2Weight ++
      [.sink item config id2Weight, .cacheLogic item id2Weight]
  else []

/-- SOURCE: FeedDeliver.cpp:428-462 -/
def deliverToPhotos (target : List ℤ) : List Call :=
  [.photos feed.actor (target.map fun id => (id, weightOf feed rank id))]

/-- SOURCE: FeedDeliver.cpp:279-301 -/
def deliverPart (targetPart : List ℤ) : List Call :=
  .transit targetPart :: (deliverToNews s feed config rank targetPart ++
    if feed.stype = 701 ∨ feed.stype = 709 then deliverToPhotos feed rank targetPart else [])

/-- SOURCE: FeedDeliver.cpp:270 -/
def maxSize : ℕ := 50000

/-- SOURCE: FeedDeliver.cpp:188-305 -/
def deliver (target : Finset ℤ) : List Call :=
  deliverToMini feed config ++
    if target = ∅ then []
    else ((intSeq target).foldl (Batch.next maxSize target.card (deliverPart s feed config rank))
      ⟨[], 0, []⟩).sent

end FeedDeliver

/-- SOURCE: FeedDispatcher.cpp:473-637 -/
def DispatchTask.handle (s : Services) (feed : FeedSeed) (config : FeedConfig) : List Call :=
  let config := sendConfig s feed config
  let (target, asks) := target s feed config
  -- `Expr2Ids` takes the spaces out of the expression itself
  let config := if config.sendNewsConfig then { config with expr := eraseSpaces config.expr } else config
  asks ++ FeedDeliver.deliver s feed config (rank s feed target) target

end Oce.FeedDispatcher
