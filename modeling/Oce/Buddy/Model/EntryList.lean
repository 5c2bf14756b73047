import Oce.Base.Bisect
import Oce.Base.Bytes

/-!
# The segment of one user

`EntryListHolder` keeps the relations of a user as one vector of entries, by the id of the other
user. Every operation finds its place with `lower_bound`, where an entry is compared by its id only;
a query narrows the range so first and then looks at every entry of it.

`set(key)` prints the entry at its place before it inserts there. With tracing on that is a read
behind the last entry where the place is the end, which is `none` here.

In the key-value store a holder is one text: the owner, a bar, and each entry as a colon, the id, a
slash and the description. It is read back by cutting at the bar, at the colons and at the slashes,
and nothing empty comes out of a cut. The numbers are printed without a sign and read by `atoi`,
that is by `strtol` and a conversion to `int`; how far `strtol` gets is told by the greatest `long`.
-/

set_option autoImplicit false

namespace Oce.Buddy

open Oce.Base

section Segment

/-- SOURCE: BuddyEntry.h:68-79 -/
structure Entry where
  toId : BitVec 32
  desc : BitVec 32
  deriving DecidableEq, Repr

/-- SOURCE: BuddyEntry.h:22 -/
def maxInt : BitVec 32 := 0xFFFFFFFF

/-- SOURCE: BuddyEntry.h:95-99 -/
def lessEntry (x y : Entry) : Bool := x.toId < y.toId

/-- SOURCE: BuddyEntry.h:101-105 -/
def lessEqualEntry (x y : Entry) : Bool := x.toId ≤ y.toId

namespace EntryListHolder

/-- `lower_bound` of the standard library, as a position. -/
def lowerBound (less : Entry → Entry → Bool) (l : List Entry) (key : Entry) : ℕ :=
  bisect (fun e => less e key) l

/-- SOURCE: BuddyEntry.cpp:224-226 -/
def equals (l r mask : Entry) : Bool :=
  l.toId &&& mask.toId = r.toId &&& mask.toId ∧ l.desc &&& mask.desc = r.desc &&& mask.desc

/-- The first entry that a query can be about. -/
def infoBegin (key mask : Entry) : Entry := ⟨key.toId &&& mask.toId, key.desc &&& mask.desc⟩

/-- The last entry that a query can be about. -/
def infoEnd (key mask : Entry) : Entry := ⟨key.toId ||| ~~~mask.toId, key.desc ||| ~~~mask.desc⟩

/-- SOURCE: BuddyEntry.cpp:49-61 -/
def add (l : List Entry) (entry : Entry) : List Entry :=
  let it := lowerBound lessEntry l entry
  match l.drop it with
  | e :: rest =>
    if e.toId = entry.toId then l.take it ++ { e with desc := entry.desc } :: rest
    else l.take it ++ entry :: e :: rest
  | [] => l.take it ++ [entry]

/-- SOURCE: BuddyEntry.cpp:63-83 -/
def remove (l : List Entry) (key mask : Entry) : List Entry :=
  let itBegin := lowerBound lessEntry l (infoBegin key mask)
  l.take itBegin ++ (l.drop itBegin).filter fun e => !equals key e mask

/-- The bits of the value under its mask, the others from the entry. SOURCE: BuddyEntry.cpp:107-108 -/
def rewrite (value valueMask e : Entry) : Entry :=
  { e with desc := (e.desc &&& ~~~valueMask.desc) ||| (value.desc &&& valueMask.desc) }

/-- SOURCE: BuddyEntry.cpp:85-115 -/
def setMasked (l : List Entry) (key keyMask value valueMask : Entry) : List Entry :=
  if keyMask.toId ||| valueMask.toId ≠ maxInt then l
  else
    let itBegin := lowerBound lessEntry l (infoBegin key keyMask)
    let rest := l.drop itBegin
    let itEnd := lowerBound lessEqualEntry rest (infoEnd key keyMask)
    l.take itBegin ++
      (rest.take itEnd).map (fun e => if equals key e keyMask then rewrite value valueMask e else e) ++
      rest.drop itEnd

/-- SOURCE: BuddyEntry.cpp:117-128 -/
def set (trace : Bool) (l : List Entry) (key : Entry) : Option (List Entry) :=
  let it := lowerBound lessEntry l key
  match l.drop it with
  | e :: rest =>
    if e.toId = key.toId then some (l.take it ++ { e with desc := key.desc } :: rest)
    else some (l.take it ++ key :: e :: rest)
  | [] => if trace then none else some (l.take it ++ [key])

/-- SOURCE: BuddyEntry.cpp:143-175, 177-207 -/
def get (l : List Entry) (key mask : Entry) : List Entry :=
  let itBegin := lowerBound lessEntry l (infoBegin key mask)
  let rest := l.drop itBegin
  let itEnd := lowerBound lessEqualEntry rest (infoEnd key mask)
  (rest.take itEnd).filter fun e => equals key e mask ∧ e.desc ≠ maxInt

/-- What changes the segment. -/
inductive Update where
  | add (entry : Entry)
  | set (key : Entry)
  | setMasked (key keyMask value valueMask : Entry)
  | remove (key mask : Entry)

/-- The segment behind an update. -/
def update (trace : Bool) (l : List Entry) : Update → Option (List Entry)
  | .add entry => some (add l entry)
  | .set key => set trace l key
  | .setMasked key keyMask value valueMask => some (setMasked l key keyMask value valueMask)
  | .remove key mask => some (remove l key mask)

end EntryListHolder

/-! ## Holders in the key-value store -/

/-- SOURCE: BuddyEntry.h:122-147 -/
structure EntryListHolder where
  fromId : BitVec 32
  list : List Entry
  deriving DecidableEq, Repr

namespace TokyoTyrantRelationTranslate

/-- `boost::tokenizer` with a `char_separator` of one character. SOURCE: String.h:70-79 -/
def split (str : List Byte) (sep : Byte) : List (List Byte) := (str.splitOn sep).filter (· ≠ [])

/-- `atoi`, stored in a `uint32_t`. -/
def atoi (longMax : ℕ) (s : List Byte) : BitVec 32 := BitVec.ofInt 32 (strtol longMax s)

/-- One entry as it is printed. SOURCE: TokyoTyrantHelper.h:250 -/
def entryText (e : Entry) : List Byte := natDigits e.toId.toNat ++ 47 :: natDigits e.desc.toNat

/-- SOURCE: TokyoTyrantHelper.h:242-257 -/
def objectToString (object : EntryListHolder) : List Byte :=
  natDigits object.fromId.toNat ++ 124 :: object.list.flatMap fun e => 58 :: entryText e

/-- What one piece between colons is read as. SOURCE: TokyoTyrantHelper.h:274-280 -/
def readEntry (longMax : ℕ) (s : List Byte) : Option Entry :=
  match split s 47 with
  | [toId, desc] => some ⟨atoi longMax toId, atoi longMax desc⟩
  | _ => none

/-- SOURCE: TokyoTyrantHelper.h:259-290 -/
def stringToObject (longMax : ℕ) (str : List Byte) : Option EntryListHolder :=
  if str = [] then none
  else
    match split str 124 with
    | [owner, entries] => some ⟨atoi longMax owner, (split entries 58).filterMap (readEntry longMax)⟩
    | _ => none

end TokyoTyrantRelationTranslate

end Segment

end Oce.Buddy
