import Mathlib.Data.String.Basic
import Oce.Base.Bytes
import Oce.Base.OrdMap
import Oce.Tripod.Model.HashHolder

/-!
# The configuration manager

The tree of nodes that the clients of Tripod agree on, as ZooKeeper holds it (`ZNode`: every
node has its data and its children) and as a client keeps it (`ConfigData`: name, version and
children of what was read last).

In `ConfigData` the children are a `std::map`, kept as its list of entries; `child` is `find`
and `setChild` is what the owner of the map sees after a child was changed through the
pointer that is in it.

`updateConfig` reads the tree in ZooKeeper and publishes what it found. Every function takes
the tree it is to bring up to date and returns it as it left it, with the flag that says
whether anything is new and the value that says whether all reads succeeded; after a failed
read the tree is left half done, as in the source.

What is read is a `Zk`: a state of the tree and, for every call, whether it fails. A call is
known by its kind and its path, since no update makes one twice. A node without data makes
the constructor of the version string throw, which the callers answer as they answer a
failed `zoo_get`.
-/

set_option autoImplicit false

namespace Oce.Tripod

open Oce.Base

section Trees

/-- The names of the nodes that Tripod reads.

SOURCE: include/Common.h:20-24, configutil/ConfigData.java:9-13. -/
def TRIPOD_MANAGER : String := "Manager"
def TRIPOD_PRODUCER : String := "Producer"
def TRIPOD_PRODUCER_CC : String := "cc"
def TRIPOD_PRODUCER_JAVA : String := "java"
def TRIPOD_CACHE : String := "Cache"

/-! ## The tree in ZooKeeper -/

/-- A node of the tree: its data, which Tripod uses as a version, and its children. -/
inductive ZNode
  | mk (data : List Byte) (children : List (String × ZNode))

namespace ZNode

def data : ZNode → List Byte
  | mk data _ => data

def children : ZNode → List (String × ZNode)
  | mk _ children => children

/-- The names that `zoo_get_children` lists. -/
def names (n : ZNode) : List String := n.children.map Prod.fst

/-- The node at a path. -/
def node : ZNode → List String → Option ZNode
  | n, [] => some n
  | n, x :: path => (OrdMap.findEntry x n.children).bind fun c => c.node path

@[simp] theorem node_nil (n : ZNode) : n.node [] = some n := by
  rw [node.eq_def]

theorem node_cons (n : ZNode) (x : String) (path : List String) :
    n.node (x :: path) = (OrdMap.findEntry x n.children).bind fun c => c.node path := by
  rw [node.eq_def]

/-- A child of the node at a path. -/
theorem node_append (n : ZNode) (path : List String) (x : String) :
    n.node (path ++ [x]) = (n.node path).bind fun m => m.node [x] := by
  induction path generalizing n with
  | nil => simp
  | cons y path ih =>
      rw [List.cons_append, node_cons, node_cons]
      cases OrdMap.findEntry y n.children with
      | none => rfl
      | some c => exact ih c

end ZNode

/-! ## The tree of a client -/

/-- SOURCE: include/ConfigData.h:10-22. -/
inductive ConfigData
  | mk (name : String) (version : List Byte) (childrenDatas : List (String × ConfigData))

namespace ConfigData

def name : ConfigData → String
  | mk name _ _ => name

def version : ConfigData → List Byte
  | mk _ version _ => version

def childrenDatas : ConfigData → List (String × ConfigData)
  | mk _ _ childrenDatas => childrenDatas

/-- `new ConfigData`.

SOURCE: configutil/ConfigData.cpp:7-11. -/
def empty : ConfigData := mk "" [] []

def setName (d : ConfigData) (name : String) : ConfigData := mk name d.version d.childrenDatas

def setVersion (d : ConfigData) (version : List Byte) : ConfigData :=
  mk d.name version d.childrenDatas

def setChildren (d : ConfigData) (childrenDatas : List (String × ConfigData)) : ConfigData :=
  mk d.name d.version childrenDatas

/-- `childrenDatas_.find(x)`. -/
def child (d : ConfigData) (x : String) : Option ConfigData := OrdMap.findEntry x d.childrenDatas

/-- A child that is there in its new state. -/
def setChild (d : ConfigData) (x : String) (c : ConfigData) : ConfigData :=
  d.setChildren (OrdMap.insertEntry x c d.childrenDatas)

/-- `map.insert(make_pair(x, c))`: a key that is there keeps its value. -/
def insertNew (x : String) (c : ConfigData) (l : List (String × ConfigData)) :
    List (String × ConfigData) :=
  if (OrdMap.findEntry x l).isSome then l else OrdMap.insertEntry x c l

@[simp] theorem name_mk (name : String) (version : List Byte) (l : List (String × ConfigData)) :
    (mk name version l).name = name := rfl

@[simp] theorem version_mk (name : String) (version : List Byte)
    (l : List (String × ConfigData)) : (mk name version l).version = version := rfl

@[simp] theorem child_mk (name : String) (version : List Byte) (l : List (String × ConfigData))
    (x : String) : (mk name version l).child x = OrdMap.findEntry x l := rfl

@[simp] theorem version_setVersion (d : ConfigData) (v : List Byte) :
    (d.setVersion v).version = v := rfl

@[simp] theorem version_setChildren (d : ConfigData) (l : List (String × ConfigData)) :
    (d.setChildren l).version = d.version := rfl

@[simp] theorem child_setChildren (d : ConfigData) (l : List (String × ConfigData)) (x : String) :
    (d.setChildren l).child x = OrdMap.findEntry x l := rfl

@[simp] theorem childrenDatas_setChildren (d : ConfigData) (l : List (String × ConfigData)) :
    (d.setChildren l).childrenDatas = l := rfl

@[simp] theorem childrenDatas_setName (d : ConfigData) (name : String) :
    (d.setName name).childrenDatas = d.childrenDatas := rfl

theorem child_setChild (d : ConfigData) (x y : String) (c : ConfigData) :
    (d.setChild x c).child y = if y = x then some c else d.child y :=
  OrdMap.findEntry_insertEntry x y c d.childrenDatas

@[simp] theorem child_setChild_self (d : ConfigData) (x : String) (c : ConfigData) :
    (d.setChild x c).child x = some c := by
  simp [child_setChild]

theorem child_setChild_ne (d : ConfigData) {x y : String} (c : ConfigData) (h : y ≠ x) :
    (d.setChild x c).child y = d.child y := by
  simp [child_setChild, h]

theorem findEntry_insertNew (x y : String) (c : ConfigData) (l : List (String × ConfigData)) :
    OrdMap.findEntry y (insertNew x c l) =
      if y = x then some ((OrdMap.findEntry x l).getD c) else OrdMap.findEntry y l := by
  unfold insertNew
  cases hx : OrdMap.findEntry x l with
  | none => simp [OrdMap.findEntry_insertEntry]
  | some c' =>
      by_cases hy : y = x
      · simp [hy, hx]
      · simp [hy]

/-- What is found at a path of the tree. -/
def descendant : ConfigData → List String → Option ConfigData
  | d, [] => some d
  | d, x :: path => (d.child x).bind fun c => c.descendant path

@[simp] theorem descendant_one (d : ConfigData) (x : String) : d.descendant [x] = d.child x := by
  cases h : d.child x <;> simp [descendant, h]

@[simp] theorem descendant_two (d : ConfigData) (x y : String) :
    d.descendant [x, y] = (d.child x).bind fun c => c.child y := by
  cases h : d.child x with
  | none => simp [descendant, h]
  | some c => simp only [descendant, h, Option.bind_some, Option.bind_fun_some]

end ConfigData

end Trees

/-! ## Reads -/

/-- A call on the ZooKeeper client. -/
inductive ZkCall
  | exists_ (path : List String)
  | get (path : List String)
  | getChildren (path : List String)

/-- What a sequence of reads meets: the tree, and which of the calls fail. -/
structure Zk where
  root : ZNode
  fails : ZkCall → Bool

namespace Zk

/-- The node at a path. -/
def node (zk : Zk) (path : List String) : Option ZNode := zk.root.node path

/-- `zoo_exists(zk, path, ..) == ZOK`. -/
def zooExists (zk : Zk) (path : List String) : Bool :=
  !zk.fails (.exists_ path) && (zk.node path).isSome

/-- `zoo_get(zk, path, .., buffer, &buflen, 0)`: the data as far as it fits the buffer. The
length of what is returned is the new value of `buflen`. -/
def zooGet (zk : Zk) (path : List String) (buflen : ℕ) : Option (List Byte) :=
  if zk.fails (.get path) then none else (zk.node path).map fun n => n.data.take buflen

/-- `zoo_get_children(zk, path, ..)`. -/
def zooGetChildren (zk : Zk) (path : List String) : Option (List String) :=
  if zk.fails (.getChildren path) then none else (zk.node path).map ZNode.names

end Zk

/-! ## The manager -/

namespace ConfigManager

/-- `sizeof(buffer)`.

SOURCE: include/ConfigManager.h:10-17. -/
def bufferSize : ℕ := 1048576

/-- What an update of a tree returns: whether it succeeded, whether it found anything new, and
the tree as it left it. -/
structure Updated where
  suc : Bool
  updateFlag : Bool
  config : ConfigData

/-- One child of `getChildrenDatas`, with a buffer of its own.

SOURCE: configutil/ConfigManager.cpp:459-474. -/
def readChild (zk : Zk) (path : List String) (needVersion : Bool) (name : String) :
    Option ConfigData :=
  if needVersion then
    (zk.zooGet (path ++ [name]) bufferSize).map fun version => .mk name version []
  else some (.mk name [] [])

/-- The loop of `getChildrenDatas`.

SOURCE: configutil/ConfigManager.cpp:458-476. -/
def readChildren (zk : Zk) (path : List String) (needVersion : Bool) :
    List String → List (String × ConfigData) → Bool × List (String × ConfigData)
  | [], l => (true, l)
  | name :: names, l =>
    match readChild zk path needVersion name with
    | none => (false, l)
    | some newConfig =>
      readChildren zk path needVersion names (ConfigData.insertNew newConfig.name newConfig l)

/-- SOURCE: configutil/ConfigManager.cpp:445-479. -/
def getChildrenDatas (config : ConfigData) (zk : Zk) (path : List String) (needVersion : Bool) :
    Bool × ConfigData :=
  match zk.zooGetChildren path with
  | none => (false, config)
  | some nodeNames =>
    let r := readChildren zk path needVersion nodeNames []
    (r.1, config.setChildren r.2)

/-- SOURCE: configutil/ConfigManager.cpp:167-219. -/
def updateManagerConfig (config : ConfigData) (zk : Zk) (checkVersion : Bool) : Updated :=
  let path := [TRIPOD_MANAGER]
  if !zk.zooExists path then ⟨false, false, config⟩
  else
    match zk.zooGet path bufferSize with
    | none => ⟨false, false, config⟩
    | some version =>
      if checkVersion && config.version == version then ⟨true, false, config⟩
      else
        let r := getChildrenDatas ((config.setName TRIPOD_MANAGER).setVersion version) zk path false
        ⟨r.1, r.1, r.2⟩

/-- One of the two halves of `updateProducerConfig`, which differ in the name of the child.
`buflen` is the length of the buffer that both halves use, and the flag is the one the half
before left; the number returned is the length it leaves to the next half.

SOURCE: configutil/ConfigManager.cpp:232-282 (cc), 284-334 (java). -/
def updateProducerHalf (name : String) (buflen : ℕ) (updateFlag : Bool) (config : ConfigData)
    (zk : Zk) (checkVersion : Bool) : Updated × ℕ :=
  let path := [TRIPOD_PRODUCER, name]
  if !zk.zooExists path then (⟨false, false, config⟩, buflen)
  else
    match zk.zooGet path buflen with
    | none => (⟨false, false, config⟩, buflen)
    | some version =>
      if checkVersion then
        match config.child name with
        | none => (⟨false, false, config⟩, version.length)
        | some found =>
          if found.version != version then
            let r := getChildrenDatas (found.setVersion version) zk path false
            (⟨r.1, r.1, config.setChild name r.2⟩, version.length)
          else (⟨true, updateFlag, config⟩, version.length)
      else
        let r := getChildrenDatas (ConfigData.empty.setVersion version) zk path false
        if r.1 then
          (⟨true, true, config.setChildren (ConfigData.insertNew name r.2 config.childrenDatas)⟩,
            version.length)
        else (⟨false, false, config⟩, version.length)

/-- One buffer container serves both reads: what `zoo_get` wrote into its length for cc is the
length that the read for java is given.

SOURCE: configutil/ConfigManager.cpp:221-344. -/
def updateProducerConfig (config : ConfigData) (zk : Zk) (checkVersion : Bool) : Updated :=
  let cc := updateProducerHalf TRIPOD_PRODUCER_CC bufferSize false config zk checkVersion
  if cc.1.suc then
    (updateProducerHalf TRIPOD_PRODUCER_JAVA cc.2 cc.1.updateFlag cc.1.config zk checkVersion).1
  else cc.1

/-- The loop of `updateCacheConfig` that compares versions, over the namespaces that were read.
A namespace that is new, and one that is gone, leaves the flag as it is. (When the children of a
new namespace cannot be read, the log line there uses an iterator that is at the end.)

SOURCE: configutil/ConfigManager.cpp:382-413. -/
def updateNamespaces (zk : Zk) (oldChild : List (String × ConfigData)) :
    List (String × ConfigData) → Bool → List (String × ConfigData) →
      Bool × Bool × List (String × ConfigData)
  | [], updateFlag, children => (true, updateFlag, children)
  | (name, read) :: rest, updateFlag, children =>
    match OrdMap.findEntry name oldChild with
    | some found =>
      if read.version != found.version then
        let r := getChildrenDatas (found.setVersion read.version) zk [TRIPOD_CACHE, name] false
        if r.1 then
          updateNamespaces zk oldChild rest true (ConfigData.insertNew name r.2 children)
        else (false, false, children)
      else
        updateNamespaces zk oldChild rest updateFlag (ConfigData.insertNew name found children)
    | none =>
      let r := getChildrenDatas (.mk read.name read.version []) zk [TRIPOD_CACHE, name] false
      if r.1 then
        updateNamespaces zk oldChild rest updateFlag (ConfigData.insertNew r.2.name r.2 children)
      else (false, false, children)

/-- The loop of `updateCacheConfig` for the first read.

SOURCE: configutil/ConfigManager.cpp:417-432. -/
def readNamespaces (zk : Zk) :
    List (String × ConfigData) → List (String × ConfigData) →
      Bool × List (String × ConfigData)
  | [], children => (true, children)
  | (name, read) :: rest, children =>
    let r := getChildrenDatas (.mk read.name read.version []) zk [TRIPOD_CACHE, name] false
    if r.1 then readNamespaces zk rest (ConfigData.insertNew name r.2 children)
    else (false, children)

/-- SOURCE: configutil/ConfigManager.cpp:346-443. -/
def updateCacheConfig (config : ConfigData) (zk : Zk) (checkVersion : Bool) : Updated :=
  let path := [TRIPOD_CACHE]
  if !zk.zooExists path then ⟨false, false, config⟩
  else
    let read := getChildrenDatas ConfigData.empty zk path true
    if !read.1 then ⟨false, false, config⟩
    else if checkVersion then
      let r := updateNamespaces zk config.childrenDatas read.2.childrenDatas false []
      ⟨r.1, r.2.1, config.setChildren r.2.2⟩
    else
      let r := readNamespaces zk read.2.childrenDatas []
      ⟨r.1, r.1, config.setChildren r.2⟩

/-- SOURCE: configutil/ConfigManager.cpp:84-165. -/
def init (config : Option ConfigData) (zk : Zk) : Bool × Bool × Option ConfigData :=
  match config with
  | none =>
    let manager := updateManagerConfig (ConfigData.empty.setName TRIPOD_MANAGER) zk false
    let producer := updateProducerConfig (ConfigData.empty.setName TRIPOD_PRODUCER) zk false
    let cache := updateCacheConfig (ConfigData.empty.setName TRIPOD_CACHE) zk false
    if manager.suc && producer.suc && cache.suc then
      (true, true, some (ConfigData.empty.setChildren
        (ConfigData.insertNew TRIPOD_CACHE cache.config
          (ConfigData.insertNew TRIPOD_PRODUCER producer.config
            (ConfigData.insertNew TRIPOD_MANAGER manager.config [])))))
    else (false, true, none)
  | some config =>
    match config.child TRIPOD_MANAGER with
    | none => (false, false, some config)
    | some managerConfig =>
      let manager := updateManagerConfig managerConfig zk true
      let config := config.setChild TRIPOD_MANAGER manager.config
      if !manager.suc then (false, false, some config)
      else
        match config.child TRIPOD_PRODUCER with
        | none => (false, false, some config)
        | some producerConfig =>
          let producer := updateProducerConfig producerConfig zk true
          let config := config.setChild TRIPOD_PRODUCER producer.config
          if !producer.suc then (false, false, some config)
          else
            match config.child TRIPOD_CACHE with
            | none => (false, false, some config)
            | some cacheConfig =>
              let cache := updateCacheConfig cacheConfig zk true
              let config := config.setChild TRIPOD_CACHE cache.config
              if !cache.suc then (false, false, some config)
              else
                (true, cache.updateFlag || producer.updateFlag || manager.updateFlag, some config)

/-- What is published after an update, and whether the update reports success. The update works
on `getConfigData()`, a copy of the whole tree.

SOURCE: configutil/ConfigManager.cpp:36-63, configutil/ConfigData.cpp:13-23. -/
def updateConfig (configData : Option ConfigData) (zk : Zk) : Option ConfigData × Bool :=
  let r := init configData zk
  (if r.2.1 && r.1 then r.2.2 else configData, r.1)

end ConfigManager

end Oce.Tripod
