import Mathlib.Data.List.Sort
import Mathlib.Data.Prod.Lex
import Oce.Base.OrdMap
import Oce.MemcProxy.Model.Parser

/-!
# From a request to the memcached nodes

The repository's client writes four kinds of requests; the proxy cuts the key out of each and
looks its node up: the text before the first `#` names the cluster, and the hash of the
whole key its place on the cluster's ring. `std::sort` may leave points of one hash in any
order, so a ring is any sorted arrangement of the nodes' points.
-/

set_option autoImplicit false

namespace Oce.MemcProxy

open Oce.Base

section Keys

/-! ## The client -/

namespace MemcachedClient

/-- SOURCE: client/MemcachedClient.cpp:42-69 -/
def get (keys : List (List Byte)) : List Byte := ascii "get" ++ keys.flatMap (space :: ·) ++ crlf

/-- The key is printed with `%s`. SOURCE: client/MemcachedClient.cpp:75-99 -/
def set (key value : List Byte) (flags timeout : ℤ) : List Byte :=
  ascii "set " ++ cString key ++ space :: (intDigits flags ++ space :: (intDigits timeout ++
    space :: (natDigits value.length ++ (crlf ++ (value ++ crlf)))))

/-- SOURCE: client/MemcachedClient.cpp:105-130 -/
def append (key value : List Byte) (flags : ℤ) : List Byte :=
  ascii "append " ++ cString key ++ space :: (intDigits flags ++ space :: (ascii "0" ++
    space :: (natDigits value.length ++ (crlf ++ (value ++ crlf)))))

/-- SOURCE: client/MemcachedClient.cpp:132-150 -/
def delete (key : List Byte) : List Byte := ascii "delete " ++ cString key ++ (ascii " 0" ++ crlf)

end MemcachedClient

/-! ## The hash -/

/-- A `char` as an unsigned number: it is signed, so its sign fills the upper bytes. -/
def ub4 (b : Byte) : UInt32 := if b < 128 then b.toUInt32 else b.toUInt32 ||| 0xFFFFFF00

/-- SOURCE: doobs_hash.cc:36-47 -/
def mix (a b c : UInt32) : UInt32 × UInt32 × UInt32 :=
  let a := (a - b - c) ^^^ (c >>> 13)
  let b := (b - c - a) ^^^ (a <<< 8)
  let c := (c - a - b) ^^^ (b >>> 13)
  let a := (a - b - c) ^^^ (c >>> 12)
  let b := (b - c - a) ^^^ (a <<< 16)
  let c := (c - a - b) ^^^ (b >>> 5)
  let a := (a - b - c) ^^^ (c >>> 3)
  let b := (b - c - a) ^^^ (a <<< 10)
  let c := (c - a - b) ^^^ (b >>> 15)
  (a, b, c)

/-- Four bytes, the first one lowest, as far as there are four. -/
def word (k : List Byte) : UInt32 :=
  match k with
  | [] => 0
  | [b] => ub4 b
  | [b, b₁] => ub4 b + (ub4 b₁ <<< 8)
  | [b, b₁, b₂] => ub4 b + (ub4 b₁ <<< 8) + (ub4 b₂ <<< 16)
  | b :: b₁ :: b₂ :: b₃ :: _ => ub4 b + (ub4 b₁ <<< 8) + (ub4 b₂ <<< 16) + (ub4 b₃ <<< 24)

/-- The blocks of twelve bytes and then the rest, whose third word leaves its lowest byte to the
length. SOURCE: doobs_hash.cc:49-87 -/
def doobsBlocks (length : UInt32) : ℕ → List Byte → UInt32 → UInt32 → UInt32 → UInt32
  | n + 1, k, a, b, c =>
    if 12 ≤ k.length then
      let r := mix (a + word k) (b + word (k.drop 4)) (c + word (k.drop 8))
      doobsBlocks length n (k.drop 12) r.1 r.2.1 r.2.2
    else (mix (a + word k) (b + word (k.drop 4)) (c + length + (word (k.drop 8) <<< 8))).2.2
  | 0, _, _, _, c => c

/-- SOURCE: doobs_hash.cc:49-87 -/
def doobsHash (k : List Byte) : UInt32 :=
  doobsBlocks (UInt32.ofNat k.length) (k.length + 1) k 0x9e3779b9 0x9e3779b9 0

/-! ## The rings -/

/-- Address and port, in the order of `ip::tcp::endpoint`. -/
abbrev Endpoint := ℕ ×ₗ ℕ

/-- SOURCE: consist_hash.h:36-47 -/
structure CachePoint where
  hashPoint : UInt32
  endpoint : Endpoint
  deriving DecidableEq

/-- The text of point `k` of a node. SOURCE: consist_hash.cc:36-41 -/
def pointText (ep : Endpoint) (k : ℕ) : List Byte :=
  natDigits k ++ ascii "-" ++ natDigits (ofLex ep).1 ++ ascii "-" ++ natDigits (ofLex ep).2

/-- The points of all nodes. SOURCE: consist_hash.cc:36-58 -/
def cachePointsOf (nodes : OrdMap Endpoint ℕ) : List CachePoint :=
  nodes.entries.flatMap fun e => (List.range e.2).map fun k => ⟨doobsHash (pointText e.1 k), e.1⟩

/-- A ring as `RebuildCachePoints` leaves it. SOURCE: consist_hash.h:19-55, consist_hash.cc:20-63 -/
structure Continuum where
  cacheNodes : OrdMap Endpoint ℕ
  cachePoints : List CachePoint
  perm : cachePoints.Perm (cachePointsOf cacheNodes)
  sorted : cachePoints.Pairwise fun p q => p.hashPoint ≤ q.hashPoint

/-- The node of a place on the ring: that of the first point not below it, or of the first point.
SOURCE: consist_hash.cc:65-82 -/
def Continuum.locateHash (c : Continuum) (hash : UInt32) : Endpoint :=
  match c.cachePoints.find? fun p => decide (hash ≤ p.hashPoint) with
  | some p => p.endpoint
  | none =>
    match c.cachePoints with
    | [] => toLex (0, 0)
    | p :: _ => p.endpoint

/-- SOURCE: consist_hash.cc:65-82 -/
def Continuum.locateCacheNode (c : Continuum) (key : List Byte) : Endpoint :=
  c.locateHash (doobsHash key)

/-- `g_clusters`, in which there is a cluster named `DEFAULT`. SOURCE: key_mapping.cc:15, 70-184 -/
structure Clusters where
  default : Continuum
  other : List Byte → Option Continuum

def Clusters.find (cl : Clusters) (name : List Byte) : Option Continuum :=
  if name = ascii "DEFAULT" then some cl.default else cl.other name

/-- The ring that a key is looked up on. SOURCE: key_mapping.cc:186-208 -/
def Clusters.continuumOf (cl : Clusters) (key : List Byte) : Continuum :=
  match key.idxOf? 35 with
  | some pos => (cl.find (key.take pos)).getD cl.default
  | none => cl.default

/-- SOURCE: key_mapping.cc:186-215 -/
def getEndpointByKey (cl : Clusters) (key : List Byte) : Endpoint :=
  (cl.continuumOf key).locateCacheNode key

/-! ## The proxy -/

/-- The bytes of a command's key. -/
def MemCmdHead.keyBytes (head : MemCmdHead) (buf : List Byte) : List Byte :=
  (buf.drop head.key).take head.keyLen.toNat

/-- SOURCE: client_conn.cc:123-132 -/
def parserSetCmd (cl : Clusters) (head : MemCmdHead) (buf : List Byte) (curRecvLen : ℕ) :
    List (Endpoint × List Byte) :=
  [(getEndpointByKey cl (head.keyBytes buf), buf.take curRecvLen)]

/-- The keys that a get asks for. SOURCE: client_conn.cc:135-145 -/
def getKeys (head : MemCmdHead) (buf : List Byte) : List (List Byte) :=
  (splitCompress space (head.keyBytes buf)).filter (· ≠ [])

/-- The line of a key's endpoint with the key added. SOURCE: client_conn.cc:149-157 -/
def addKey (cl : Clusters) (cmdLines : OrdMap Endpoint (List Byte)) (key : List Byte) :
    OrdMap Endpoint (List Byte) :=
  let ep := getEndpointByKey cl key
  cmdLines.insert ep ((cmdLines.find ep).getD (ascii "get") ++ space :: key)

/-- SOURCE: client_conn.cc:134-168 -/
def parserGetCmd (cl : Clusters) (head : MemCmdHead) (buf : List Byte) : List (Endpoint × List Byte) :=
  (((getKeys head buf).foldl (addKey cl) .empty).entries).map fun e => (e.1, e.2 ++ crlf)

/-- The requests that the proxy sends on for what it has received, and where to.
SOURCE: client_conn.cc:221-266 -/
def route (cl : Clusters) (buf : List Byte) (curRecvLen : ℕ) : List (Endpoint × List Byte) :=
  let head := parserHead buf curRecvLen
  match head.succ, head.type with
  | .suc, .get => parserGetCmd cl head buf
  | .suc, .set | .suc, .delete | .suc, .append => parserSetCmd cl head buf curRecvLen
  | _, _ => []

end Keys

/-!
## Commands

The commands and the replies that the parser is for, with the bytes that they have and the fields
that it should find.
-/

/-- The bytes of a command's body. -/
def MemCmdHead.bodyBytes (head : MemCmdHead) (buf : List Byte) : List Byte :=
  (buf.drop head.body).take head.bodyLen.toNat

/-- A word of a line. -/
structure Word where
  text : List Byte
  ne_nil : text ≠ []
  space : space ∉ text
  cr : cr ∉ text

/-- A number in decimal. -/
structure Number where
  text : List Byte
  ne_nil : text ≠ []
  digits : text.all isDigit = true

def Number.value (n : Number) : ℕ := digitsValue n.text

/-- A body with its length. -/
structure Body where
  length : Number
  bytes : List Byte
  eq : bytes.length = length.value

inductive Reply where
  | end | stored | notStored | deleted | notFound
  deriving DecidableEq

def Reply.type : Reply → CmdType
  | .end => .end
  | .stored => .stored
  | .notStored => .notStored
  | .deleted => .deleted
  | .notFound => .notFound

/-- The line of a reply. -/
def Reply.line : Reply → List Byte
  | .end => ascii "END"
  | .stored => ascii "STORED"
  | .notStored => ascii "NOT_STORED"
  | .deleted => ascii "DELETED"
  | .notFound => ascii "NOT_FOUND"

/-- The commands and the replies; a delete may have a time. -/
inductive Command where
  | get (key : Word) (more : List Word)
  | delete (key : Word) (time : Option Word)
  | set (key : Word) (flag : Number) (exptime : Word) (body : Body)
  | append (key : Word) (flag : Number) (exptime : Word) (body : Body)
  | value (key : Word) (flag : Number) (body : Body)
  | reply (r : Reply)

namespace Command

def type : Command → CmdType
  | get _ _ => .get
  | delete _ _ => .delete
  | set _ _ _ _ => .set
  | append _ _ _ _ => .append
  | value _ _ _ => .value
  | reply r => r.type

/-- The first line of a command. -/
def line : Command → List Byte
  | get key more => ascii "get" ++ (key :: more).flatMap fun w => space :: w.text
  | delete key time => ascii "delete" ++ (key :: time.toList).flatMap fun w => space :: w.text
  | set key flag exptime body =>
    ascii "set" ++ [key.text, flag.text, exptime.text, body.length.text].flatMap (space :: ·)
  | append key flag exptime body =>
    ascii "append" ++ [key.text, flag.text, exptime.text, body.length.text].flatMap (space :: ·)
  | value key flag body =>
    ascii "VALUE" ++ [key.text, flag.text, body.length.text].flatMap (space :: ·)
  | reply r => r.line

/-- The data behind the line. -/
def data : Command → List Byte
  | set _ _ _ body => body.bytes ++ crlf
  | append _ _ _ body => body.bytes ++ crlf
  | value _ _ body => body.bytes ++ crlf
  | _ => []

def bytes (c : Command) : List Byte := c.line ++ (crlf ++ c.data)

/-- Whether the fields are those of the command; all of them are in the bytes that are there. -/
def Fields (c : Command) (received : List Byte) (head : MemCmdHead) : Prop :=
  head.type = c.type ∧
  match c with
  | get key more =>
    head.dataLen = c.bytes.length ∧
      head.keyBytes received = key.text ++ more.flatMap fun w => space :: w.text
  | delete key _ => head.dataLen = c.bytes.length ∧ head.keyBytes received = key.text
  | set key flag _ body | append key flag _ body | value key flag body =>
    head.dataLen = c.bytes.length ∧ head.keyBytes received = key.text ∧ head.flag = flag.value ∧
      head.bodyBytes received = body.bytes
  | reply _ => True

/-- How many bytes the test of the type reads. -/
def typeLen : Command → ℕ
  | get _ _ | delete _ _ | set _ _ _ _ | append _ _ _ _ => 3
  | value _ _ _ => 5
  | reply .end => 3
  | reply _ => 5

end Command

end Oce.MemcProxy
