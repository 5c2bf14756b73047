import Mathlib.Logic.Function.Basic
import Oce.Base.Counted
import Oce.Base.OrdMap
import Oce.Base.Run

/-!
# The table of address ranges

A point of the table has the universities that cover it (`bits`) and those of which a range ends
there (`eits`), each with a number. A point that no range begins at may have no `bits`; what
covers it is worked out from the last point before it that has some, less what has ended in
between. `get` puts such a point in as well, without either.

Walking back from the first point and taking from a university that is not there are undefined;
`none` stands for both, and for a run that has come to one of them. A university stands for
itself where the source has its place in `univMap`. Addresses are far inside a `long long`, and the
numbers at a point inside an `int`.

`added` is not in the source: the records that are added and not removed.
-/

set_option autoImplicit false

namespace Oce.IpTable

open Oce.Base

/-! ## Points -/

/-- SOURCE: IPTableI.h:46 -/
abbrev UnivCount := OrdMap ℤ ℤ

/-- SOURCE: IPTableI.h:48-53 -/
structure IPoint where
  bits : UnivCount
  eits : UnivCount

/-- SOURCE: IPTableI.cpp:372-373 -/
def IPoint.new : IPoint := ⟨.empty, .empty⟩

/-- SOURCE: IPTableI.h:58 -/
abbrev IpMap := OrdMap ℤ IPoint

/-- SOURCE: IPTable.ice:14-21 -/
structure IPTable where
  id : ℤ
  start : ℤ
  stop : ℤ
  univ : ℤ
  deriving DecidableEq, Repr

/-- A point without the university, which goes when nothing is left of it.
SOURCE: IPTableI.cpp:603-627 -/
def IPoint.without (p : IPoint) (it : ℤ) : Option IPoint :=
  let p : IPoint := ⟨p.bits.erase it, p.eits.erase it⟩
  if p.eits.entries = [] ∧ p.bits.entries = [] then none else some p

/-- The points from one on backwards, up to the first that has `bits`: its `bits` less what ends
at any of them. SOURCE: IPTableI.cpp:391-425, 578-608, 690-724 -/
def walkBack : List (ℤ × IPoint) → UnivCount → Option UnivCount
  | [], _ => some .empty
  | e :: l, ipdeq2 =>
    let ipdeq2 := ipdeq2.addEntries e.2.eits.entries
    if e.2.bits.entries ≠ [] then OrdMap.takeEntries ipdeq2.entries e.2.bits
    else walkBack l ipdeq2

/-- What covers the point `begin`: what ends there does not count as ended.
SOURCE: IPTableI.cpp:395 -/
def walkBackFrom : List (ℤ × IPoint) → Option UnivCount
  | [] => some .empty
  | e :: l => walkBack ((e.1, ⟨e.2.bits, .empty⟩) :: l) .empty

namespace IpMap

/-- SOURCE: IPTableI.cpp:366-498 -/
def addIP (ipMap : IpMap) (start stop : ℤ) (it : ℤ) : Option IpMap :=
  if start > stop then some ipMap
  else
    let ipMap := (ipMap.insertNew start .new).insertNew stop .new
    (walkBackFrom (ipMap.down fun x => x ≤ start)).map fun ipdeq1 =>
      ipMap.map fun x p =>
        let bits := if x = start ∧ p.bits.entries = [] then ipdeq1 else p.bits
        { bits := if x = start ∨ start < x ∧ x ≤ stop ∧ bits.entries ≠ [] then bits.bump it else bits
          eits := if x = stop then p.eits.bump it else p.eits }

/-- SOURCE: IPTableI.cpp:512-531 -/
def countBack (it : ℤ) : List (ℤ × IPoint) → ℤ
  | [] => 0
  | e :: l =>
    let ended := (e.2.eits.find it).getD 0
    if e.2.bits.entries ≠ [] then (e.2.bits.find it).getD 0 - ended else countBack it l - ended

/-- SOURCE: IPTableI.cpp:501-630 -/
def remove (ipMap : IpMap) (start stop : ℤ) (it : ℤ) : Option IpMap :=
  -- the points of a range the wrong way round are not there to be walked between
  if start > stop then none
  else (addIP ipMap start stop it).bind fun ipMap =>
    let count := countBack it (ipMap.down fun x => x ≤ start)
    let ipMap :=
      if start < stop ∧ count > 1 ∨ start = stop ∧ count > 0 then
        ipMap.insertNew (start - 1) ⟨.empty, OrdMap.empty.insert it count⟩
      else ipMap
    (walkBack (ipMap.down fun x => start ≤ x ∧ x ≤ stop) .empty).map fun ipdeq1 =>
      (ipMap.insertNew (stop + 1) ⟨ipdeq1, .empty⟩).filterMap fun x p =>
        if start ≤ x ∧ x ≤ stop then IPoint.without p it else some p

/-- The universities at an address, and the points. SOURCE: IPTableI.cpp:638-729 -/
def get (ipMap : IpMap) (ip : ℤ) : Option (List ℤ × IpMap) :=
  match (ipMap.find ip).map IPoint.bits with
  | some ⟨e :: l, _⟩ => some ((e :: l).map Prod.fst, ipMap)
  | _ =>
    match ipMap.down fun x => x < ip with
    | [] => none
    | below => (walkBack below .empty).map fun ipdeq1 =>
      (ipdeq1.entries.map Prod.fst, ipMap.insertNew ip .new)

end IpMap

/-! ## The sorter -/

/-- The points, the known universities, the records by their ids, and the table of universities
of the database. SOURCE: IPTableI.h:53-58 -/
structure IPSorter where
  ipMap : IpMap
  univMap : ℤ → Bool
  id2Iptable : ℤ → Option IPTable
  university : ℤ → Bool
  added : List IPTable

namespace IPSorter

/-- Without records. SOURCE: IPTableI.cpp:87-94 -/
def new (univMap university : ℤ → Bool) : IPSorter where
  ipMap := .empty
  univMap := univMap
  id2Iptable _ := none
  university := university
  added := []

/-- Whether there is the university, which is known from then on. SOURCE: IPTableI.cpp:105-127 -/
def getUnivInfo (s : IPSorter) (uid : ℤ) : Bool × IPSorter :=
  if s.univMap uid then (true, s)
  else if s.university uid then (true, { s with univMap := Function.update s.univMap uid true })
  else (false, s)

/-- SOURCE: IPTableI.cpp:129-150 -/
def addIPTable (s : IPSorter) (iptab : IPTable) : Option IPSorter :=
  let r := s.getUnivInfo iptab.univ
  (if r.1 then IpMap.addIP s.ipMap iptab.start iptab.stop iptab.univ else some s.ipMap).map fun ipMap =>
    { r.2 with
      ipMap := ipMap
      id2Iptable := Function.update s.id2Iptable iptab.id (some iptab)
      added := s.added ++ [iptab] }

/-- SOURCE: IPTableI.cpp:740-748 -/
def removeIpById (s : IPSorter) (id : ℤ) : Option IPSorter :=
  match s.id2Iptable id with
  | none => some s
  | some ipt =>
    (if s.univMap ipt.univ then IpMap.remove s.ipMap ipt.start ipt.stop ipt.univ
      else some s.ipMap).map fun ipMap =>
        { s with
          ipMap := ipMap
          added := s.added.filter fun r => r.id ≠ id }

/-- SOURCE: IPTableI.cpp:638-729 -/
def get (s : IPSorter) (ip : ℤ) : Option (List ℤ × IPSorter) :=
  (IpMap.get s.ipMap ip).map fun r => (r.1, { s with ipMap := r.2 })

end IPSorter

/-- What is done to the sorter. -/
inductive SorterOp where
  | addIPTable (iptab : IPTable)
  | removeIpById (id : ℤ)
  | get (ip : ℤ)
  deriving DecidableEq, Repr

/-- One step of a sorter that is still defined. -/
def SorterOp.step (s : Option IPSorter) (op : SorterOp) : Option IPSorter :=
  s.bind fun s =>
    match op with
    | .addIPTable iptab => s.addIPTable iptab
    | .removeIpById id => s.removeIpById id
    | .get ip => (s.get ip).map Prod.snd

end Oce.IpTable
