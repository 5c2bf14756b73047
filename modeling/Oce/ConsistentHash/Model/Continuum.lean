import Mathlib.Data.List.Lex
import Mathlib.Data.UInt
import Mathlib.Order.Fin.Basic
import Oce.Base.OrdMap
import Oce.Base.Run

/-!
# The continuum

`Continuum` keeps a map from node names to capacities and a sorted list of points, so many
for each node as its capacity says. `Rebuild` computes the points from the map; between two
calls of it the points are those of an earlier map.

A name is the bytes of its `std::string`. The text of a point is printed into a buffer of
21 bytes, and hashed over the length it should have had: `after` is what the memory behind
the buffer holds then. `std::sort` leaves the order of equal points to the implementation,
`sort`; `std::lower_bound` finds the first point of a sorted list that is not below.
-/

set_option autoImplicit false

namespace Oce.ConsistentHash

open Oce.Base

/-- A byte of a string. -/
abbrev Byte := Fin 256

/-- The name of a node. -/
abbrev Desc := List Byte

/-- SOURCE: consistenthash.h:160-166 -/
structure Point where
  point : UInt32
  desc : Desc
  deriving DecidableEq

/-- SOURCE: consistenthash.h:179-187 -/
structure Continuum where
  points : List Point
  descMap : OrdMap Desc UInt32

/-- The hash function and the sorting. -/
structure Env where
  func : List Byte → UInt32
  sort : List Point → List Point

/-- The bytes behind the buffer when point `k` of a node is hashed. -/
abbrev Memory := Desc → ℕ → ℕ → Byte

namespace Continuum

/-- SOURCE: consistenthash.h:157 -/
def new : Continuum := ⟨[], .empty⟩

/-- What `"%s-%x"` prints: the name up to its first zero byte, and the number in hexadecimal. -/
def text (desc : Desc) (k : ℕ) : List Byte :=
  desc.takeWhile (fun b => decide (b ≠ 0)) ++
    (('-' :: Nat.toDigits 16 k).map fun c => Fin.ofNat 256 c.toNat)

/-- SOURCE: consistenthash.h:83 -/
def bigEnough : ℕ := 16 + 5

/-- The bytes `func(buf, len)` reads: the text as far as it fits the buffer, the zero that
ends it, and what comes behind. SOURCE: consistenthash.h:89-90 -/
def hashed (after : Memory) (desc : Desc) (k : ℕ) : List Byte :=
  let len := (text desc k).length
  ((text desc k).take (bigEnough - 1) ++
    0 :: (List.range len).map (after desc k)).take len

/-- `total_point`, an unsigned 32-bit sum. SOURCE: consistenthash.h:66-77 -/
def totalPoint (c : Continuum) : UInt32 := (c.descMap.entries.map Prod.snd).sum

/-- The points of the map in the order they are made. SOURCE: consistenthash.h:87-93 -/
def target (c : Continuum) (env : Env) (after : Memory) : List Point :=
  c.descMap.entries.flatMap fun e =>
    (List.range e.2.toNat).map fun k => ⟨env.func (hashed after e.1 k), e.1⟩

/-- SOURCE: consistenthash.h:64-109 -/
def rebuild (c : Continuum) (env : Env) (after : Memory) : Bool × Continuum :=
  if c.totalPoint = 0 then (false, c)
  else (true, { c with points := env.sort (c.target env after) })

/-- SOURCE: consistenthash.h:23-38 -/
def locate (c : Continuum) (hash : UInt32) : Desc :=
  match c.points.find? fun p => decide (hash ≤ p.point) with
  | some p => p.desc
  | none => match c.points with
    | [] => []
    | p :: _ => p.desc

/-- SOURCE: consistenthash.h:47-51 -/
def add (c : Continuum) (desc : Desc) (capacity : UInt32) : Continuum :=
  { c with descMap := c.descMap.insert desc capacity }

/-- SOURCE: consistenthash.h:52-57 -/
def remove (c : Continuum) (desc : Desc) : Continuum :=
  { c with descMap := c.descMap.erase desc }

/-- SOURCE: consistenthash.h:58-62 -/
def clear (c : Continuum) : Continuum := { c with descMap := .empty }

end Continuum

/-- The operations on a continuum. -/
inductive ContinuumOp where
  | add (desc : Desc) (capacity : UInt32)
  | remove (desc : Desc)
  | clear
  | rebuild (after : Memory)

/-- The continuum after an operation. -/
def ContinuumOp.step (env : Env) (c : Continuum) : ContinuumOp → Continuum
  | add desc capacity => c.add desc capacity
  | remove desc => c.remove desc
  | clear => c.clear
  | rebuild after => (c.rebuild env after).2

end Oce.ConsistentHash
