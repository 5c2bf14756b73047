import Oce.Tripod.Model.ConfigManager

/-!
# The clients of the cache configuration, in C++ and in Java

Each keeps a ring for every namespace. C++ builds all of them and then swaps the map; Java puts
one after the other into the map it has.

A pool of connections stands for the node it was made for: in C++ its address and its port, in
Java the name of the pool. In Java the children of a `ConfigData` are a `HashMap`, here its
entries in the order in which it is iterated. The map of clients that `update` fills for a
namespace is a `HashMap` too: `order` is the order in which it is iterated, given the order in
which it was filled.
-/

set_option autoImplicit false


namespace Oce.Tripod

open Oce.Base

/-- `':'`. -/
def colon : Byte := 58

namespace Cpp

/-- SOURCE: include/MemcachedClientPool.h. -/
structure MemcachedClientPool where
  address : List Byte
  port : ℤ
  deriving DecidableEq

/-- The node that a pool connects to. -/
def MemcachedClientPool.node (p : MemcachedClientPool) : List Byte :=
  p.address ++ colon :: intDigits p.port

/-- The pool for a node, none if the update is given up there.

SOURCE: configclient/CacheConfigClient.cpp:32-44. -/
def makePool (name : String) : Option MemcachedClientPool :=
  match (utf8 name).splitOn colon with
  | [address, part] => (lexicalCastInt part).map fun port => ⟨address, port⟩
  | _ => none

/-- The pools of a namespace.

SOURCE: configclient/CacheConfigClient.cpp:28-47. -/
def makeClients : List (String × ConfigData) → OrdMap String MemcachedClientPool →
    Option (OrdMap String MemcachedClientPool)
  | [], memcachedClients => some memcachedClients
  | (_, node) :: rest, memcachedClients =>
    match makePool node.name with
    | none => none
    | some mcpp => makeClients rest (memcachedClients.insertNew node.name mcpp)

/-- The client: for every namespace the vector of its ring. -/
abbrev CacheConfigClient := OrdMap String (List (ℕ × MemcachedClientPool))

/-- The loop over the namespaces.

SOURCE: configclient/CacheConfigClient.cpp:26-51. -/
def makeHolders (md5 : MD5) : List (String × ConfigData) → CacheConfigClient →
    Option CacheConfigClient
  | [], newHashHolderMap => some newHashHolderMap
  | (_, config) :: rest, newHashHolderMap =>
    match makeClients config.childrenDatas .empty with
    | none => none
    | some memcachedClients =>
      makeHolders md5 rest (newHashHolderMap.insert config.name (renew md5 memcachedClients))

/-- SOURCE: configclient/CacheConfigClient.cpp:16-58. -/
def CacheConfigClient.update (md5 : MD5) (c : CacheConfigClient) (newConfig : ConfigData) :
    CacheConfigClient :=
  match newConfig.child TRIPOD_CACHE with
  | none => c
  | some cache => (makeHolders md5 cache.childrenDatas .empty).getD c

/-- SOURCE: configclient/CacheConfigClient.cpp:86-97. -/
def CacheConfigClient.getPrx (md5 : MD5) (c : CacheConfigClient) (key : List Byte)
    (namespaceId : String) : Option MemcachedClientPool :=
  match c.find namespaceId with
  | none => none
  | some mcphhp => get md5 mcphhp key

end Cpp

namespace Java

/-- `String.split`: empty parts at the end are dropped. -/
def split (s : List Byte) : List (List Byte) :=
  ((s.splitOn colon).reverse.dropWhile fun part => part.isEmpty).reverse

/-- The name of the pool for a node.

SOURCE: configclient/CacheConfigClient.java:44-49, 64-65. -/
def makePool (name : String) : Option (List Byte) :=
  match split (utf8 name) with
  | [address, part] => some (address ++ colon :: part)
  | _ => none

/-- The clients of a namespace in the order they are put.

SOURCE: configclient/CacheConfigClient.java:41-67. -/
def makeClients : List (String × ConfigData) → Option (List (String × List Byte))
  | [] => some []
  | (name, _) :: rest =>
    match makePool name with
    | none => none
    | some pool => (makeClients rest).map fun tClients => (name, pool) :: tClients

/-- The client: for every namespace its ring. -/
abbrev CacheConfigClient := OrdMap String (OrdMap ℕ (List Byte))

/-- The order in which a `HashMap` is iterated. -/
abbrev Order := List (String × List Byte) → List (String × List Byte)

/-- The loop over the namespaces, which stops at a name that is not a host and a port.

SOURCE: configclient/CacheConfigClient.java:37-72. -/
def makeHolders (md5 : MD5) (order : Order) : List (String × ConfigData) → CacheConfigClient →
    Bool × CacheConfigClient
  | [], holderMap => (true, holderMap)
  | (name, config) :: rest, holderMap =>
    match makeClients config.childrenDatas with
    | none => (false, holderMap)
    | some tClients =>
      makeHolders md5 order rest (holderMap.insert name (hashConfig md5 (order tClients)))

/-- SOURCE: configclient/CacheConfigClient.java:28-73. -/
def CacheConfigClient.update (md5 : MD5) (order : Order) (c : CacheConfigClient)
    (newConfig : ConfigData) : CacheConfigClient :=
  match newConfig.child TRIPOD_CACHE with
  | none => c
  | some cache => (makeHolders md5 order cache.childrenDatas c).2

/-- SOURCE: configclient/CacheConfigClient.java:75-83. -/
def CacheConfigClient.getPrx (md5 : MD5) (c : CacheConfigClient) (key : List Byte)
    (namespaceId : String) : Got (List Byte) :=
  match c.find namespaceId with
  | none => .null
  | some hh => get md5 hh key

end Java

end Oce.Tripod
