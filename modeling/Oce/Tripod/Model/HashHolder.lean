import Oce.Base.Ring
import Oce.Base.Bytes
import Mathlib.Data.List.Lex
import Mathlib.Data.String.Basic

/-!
# The ring of a namespace, in C++ and in Java

Both languages hash the name of a node with a number behind it, take four points from each
digest and search the ring for the first point that is not below that of the key. C++ keeps the
ring as a vector that it bisects and lets the first node keep a point; Java keeps a `TreeMap` and
lets the last node have it.

`MD5` is any function to 16 bytes. In C++ what is hashed ends at its first zero byte. The points
are `uint32_t` in C++ and `Long` in Java, of the same value. The bounds of the bisection,
`int`s in C++, are numbers here: a node makes 100 points, so none comes near the end of `int`.
-/

set_option autoImplicit false

namespace Oce.Tripod

open Oce.Base

/-- A digest of 16 bytes. -/
abbrev Digest := Fin 16 → Byte

/-- A hash function in the place of MD5. -/
abbrev MD5 := List Byte → Digest

/-- The bytes of a name. -/
def utf8 (s : String) : List Byte := s.toByteArray.data.toList

/-- The four bytes from `4 * h` on, the last of them in front. -/
def word (d : Digest) (h : Fin 4) : ℕ :=
  let b := fun k : Fin 4 => (d ⟨k.val + h.val * 4, by omega⟩).toNat
  b 3 <<< 24 ||| b 2 <<< 16 ||| b 1 <<< 8 ||| b 0

/-- SOURCE: include/HashHolder.hpp:32, configclient/CacheConfigClient.java:39-40. -/
def virtualNodes : ℕ := 100

namespace Cpp

variable {T : Type*}

/-- `stringToMD5`.

SOURCE: include/HashHolder.hpp:248-250. -/
def stringToMD5 (md5 : MD5) (source : List Byte) : Digest := md5 (cString source)

/-- SOURCE: include/HashHolder.hpp:236-245. -/
def hashKey (md5 : MD5) (key : List Byte) : ℕ := word (stringToMD5 md5 key) 0

/-- The points of a node, in the order they are made.

SOURCE: include/HashHolder.hpp:212-226. -/
def points (md5 : MD5) (name : String) : List ℕ :=
  (List.range (virtualNodes / 4)).flatMap fun i =>
    (List.finRange 4).map (word (stringToMD5 md5 (utf8 name ++ natDigits i)))

/-- `insert` leaves a point with the node that has it.

SOURCE: include/HashHolder.hpp:209-234. -/
def hashConfig (md5 : MD5) (config : OrdMap String T) : OrdMap ℕ T :=
  OrdMap.claimAll (fun it : String × T => points md5 it.1) Prod.snd config.entries .empty

/-- `renew`: the vector of the ring.

SOURCE: include/HashHolder.hpp:37-51. -/
def renew (md5 : MD5) (config : OrdMap String T) : List (ℕ × T) := (hashConfig md5 config).entries

/-- The loop of `getPair`: the pair it returns from inside, or `right` where it ends.

SOURCE: include/HashHolder.hpp:189-200. -/
def getPairLoop (hash : ℕ) (configIndex : List (ℕ × T)) : ℕ → ℕ → ℕ → (ℕ × T) ⊕ ℕ
  | 0, _, right => .inr right
  | fuel + 1, left, right =>
    if left < right then
      let middle := left + (right - left) / 2
      match configIndex[middle]? with
      | none => .inr right
      | some e =>
        if e.1 < hash then getPairLoop hash configIndex fuel (middle + 1) right
        else if hash < e.1 then getPairLoop hash configIndex fuel left middle
        else .inl e
    else .inr right

/-- The pair for a point; the vector is not empty.

SOURCE: include/HashHolder.hpp:182-207. -/
def getPair (hash : ℕ) (configIndex : List (ℕ × T)) : Option (ℕ × T) :=
  let last := configIndex.length - 1
  match getPairLoop hash configIndex configIndex.length 0 last with
  | .inl e => some e
  | .inr right =>
    match configIndex[right]? with
    | none => none
    | some e => if right = last ∧ e.1 < hash then configIndex[0]? else some e

/-- `get`, with `T()` as none.

SOURCE: include/HashHolder.hpp:53-65, 178-180. -/
def get (md5 : MD5) (configIndex : List (ℕ × T)) (key : List Byte) : Option T :=
  if configIndex.length = 0 then none
  else (getPair (hashKey md5 key) configIndex).map Prod.snd

/-! ### A holder -/

/-- The names of the nodes, inserted beside the nodes.

SOURCE: include/HashHolder.hpp:209-234. -/
def hashNames (md5 : MD5) (config : OrdMap String T) : OrdMap ℕ String :=
  OrdMap.claimAll (fun it : String × T => points md5 it.1) Prod.fst config.entries .empty

/-- A `HashHolder` of nodes that are not `NULL`.

SOURCE: include/HashHolder.hpp:281-287. -/
structure HashHolder (T : Type*) where
  configIndex : List (ℕ × T)
  virtualNodesToRealNodesIndex : OrdMap ℕ String
  originalConfig : OrdMap String T

namespace HashHolder

/-- SOURCE: include/HashHolder.hpp:37-51. -/
def renew (md5 : MD5) (config : OrdMap String T) : HashHolder T where
  configIndex := Cpp.renew md5 config
  virtualNodesToRealNodesIndex := hashNames md5 config
  originalConfig := config

/-- SOURCE: include/HashHolder.hpp:53-65. -/
def get (md5 : MD5) (holder : HashHolder T) (key : List Byte) : Option T :=
  Cpp.get md5 holder.configIndex key

/-- The node in the vector, as the batches ask for it.

SOURCE: include/HashHolder.hpp:178-180. -/
def getIn (md5 : MD5) (key : List Byte) (configIndex : List (ℕ × T)) : Option T :=
  (getPair (hashKey md5 key) configIndex).map Prod.snd

/-- `get` of keys: a key whose node is `NULL` is passed over.

SOURCE: include/HashHolder.hpp:67-96. -/
def getKeySeq [LinearOrder T] (md5 : MD5) (holder : HashHolder T) (keys : List (List Byte)) :
    OrdMap T (List (List Byte)) :=
  if holder.configIndex.length = 0 then .empty
  else
    OrdMap.group (fun it => getIn md5 it holder.configIndex)
      (fun newKeys it => newKeys ++ [it]) [] keys

/-- `get` of keys and names: the keys at whose point one of the names is.

SOURCE: include/HashHolder.hpp:131-165. -/
def getPrxKeySeq (md5 : MD5) (holder : HashHolder T) (keys : List (List Byte))
    (prxVec : List String) : List (List Byte) :=
  if holder.virtualNodesToRealNodesIndex.entries.length = 0 then []
  else if prxVec.isEmpty then []
  else
    keys.filter fun it =>
      match getPair (hashKey md5 it) holder.configIndex with
      | none => false
      | some findIt =>
        match holder.virtualNodesToRealNodesIndex.find findIt.1 with
        | none => false
        | some findPrxIt => decide (findPrxIt ∈ prxVec)

section DataMap

attribute [local instance] byteOrder

/-- `get` of data.

SOURCE: include/HashHolder.hpp:98-128. -/
def getDataMap [LinearOrder T] (md5 : MD5) (holder : HashHolder T)
    (data : OrdMap (List Byte) (List Byte)) : OrdMap T (OrdMap (List Byte) (List Byte)) :=
  if holder.configIndex.length = 0 then .empty
  else
    OrdMap.group (fun it : List Byte × List Byte => getIn md5 it.1 holder.configIndex)
      (fun newData it => newData.insert it.1 it.2) .empty data.entries

end DataMap

end HashHolder

end Cpp

namespace Java

variable {T : Type*}

/-- What a call of `get` comes to: a client, `null`, or a `NullPointerException`. -/
inductive Got (T : Type*)
  | client (t : T)
  | null
  | nullPointer

/-- What the caller gets. -/
def Got.named : Got T → Option T
  | client t => some t
  | null => none
  | nullPointer => none

/-- SOURCE: configclient/HashHolder.java:96-106. -/
def hashKey (md5 : MD5) (key : List Byte) : ℕ := word (md5 key) 0

/-- The points of a node, in the order they are made.

SOURCE: configclient/HashHolder.java:80-88. -/
def points (md5 : MD5) (name : String) : List ℕ :=
  (List.range (virtualNodes / 4)).flatMap fun i =>
    (List.finRange 4).map (word (md5 (utf8 name ++ natDigits i)))

/-- `put` takes a point from the node that has it. The entries come in the order in which the
`HashMap` is iterated.

SOURCE: configclient/HashHolder.java:75-94. -/
def hashConfig (md5 : MD5) (config : List (String × T)) : OrdMap ℕ T :=
  OrdMap.assignAll (fun ent : String × T => points md5 ent.1) Prod.snd config .empty

/-- `get`: the first entry of `tailMap`, or else `firstEntry()`, which is null on an empty map.

SOURCE: configclient/HashHolder.java:42-51. -/
def get (md5 : MD5) (config : OrdMap ℕ T) (key : List Byte) : Got T :=
  match config.entries.filter fun e => decide (hashKey md5 key ≤ e.1) with
  | e :: _ => .client e.2
  | [] =>
    match config.entries with
    | e :: _ => .client e.2
    | [] => .nullPointer

end Java

end Oce.Tripod
