import Oce.Base.Bytes

/-!
# The memcached protocol parser

`MemcProtoParser` looks at a buffer of which `buf_len` bytes have been received. The type of
a command is read off its first bytes without a look at `buf_len`, so the buffer is the
memory from its start on: what lies behind the received bytes counts. Pointers are offsets
into the buffer. A length or a flag is read as a `size_t`, which takes a negative number for
its residue and throws where it does not fit, and goes into an `int` then; so does the length
of the whole command.
-/

set_option autoImplicit false

namespace Oce.MemcProxy

open Oce.Base

/-- SOURCE: MemcProtoParser.h:6-19 -/
inductive CmdType where
  | get | set | delete | append | value
  | end | stored | notStored | notFound | deleted
  | notDef
  deriving DecidableEq, Repr

/-- SOURCE: MemcProtoParser.h:21-25 -/
inductive ParserErrCode where
  | err | suc | more
  deriving DecidableEq, Repr

/-- SOURCE: MemcProtoParser.h:27-36 -/
structure MemCmdHead where
  succ : ParserErrCode
  type : CmdType
  dataLen : ℤ
  body : ℕ
  bodyLen : ℤ
  key : ℕ
  keyLen : ℤ
  flag : ℤ
  deriving DecidableEq, Repr

def cr : Byte := 13
def space : Byte := 32
def crlf : List Byte := [13, 10]

/-- The one-line replies. SOURCE: MemcProtoParser.cpp:7-16 -/
def endBuf : List Byte := ascii "END" ++ crlf
def storedBuf : List Byte := ascii "STORED" ++ crlf
def notStoredBuf : List Byte := ascii "NOT_STORED" ++ crlf
def deletedBuf : List Byte := ascii "DELETED" ++ crlf
def notFoundBuf : List Byte := ascii "NOT_FOUND" ++ crlf

/-- SOURCE: MemcProtoParser.cpp:18-45 -/
def getCmdType (buf : List Byte) : CmdType :=
  if buf.take 3 = ascii "get" then .get
  else if buf.take 3 = ascii "set" then .set
  else if buf.take 3 = ascii "del" then .delete
  else if buf.take 3 = ascii "app" then .append
  else if buf.take 5 = ascii "VALUE" then .value
  else if buf.take 3 = ascii "END" then .end
  else if buf.take 5 = ascii "DELET" then .deleted
  else if buf.take 5 = ascii "NOT_F" then .notFound
  else if buf.take 5 = ascii "STORE" then .stored
  else if buf.take 5 = ascii "NOT_S" then .notStored
  else .notDef

/-- `memchr` within the first `n` bytes. -/
def memchr (buf : List Byte) (c : Byte) (n : ℕ) : Option ℕ := (buf.take n).idxOf? c

/-- SOURCE: MemcProtoParser.cpp:47-53 -/
def cmdKeySize (buf : List Byte) (bufLen : ℕ) : ℤ :=
  match memchr buf space bufLen with
  | none => -1
  | some p => p

/-- Where the key of a command with data stands, and how many words its line has.
SOURCE: MemcProtoParser.cpp:77-91 -/
def keyAndWords : CmdType → Option (ℕ × ℕ)
  | .set => some (4, 5)
  | .value => some (6, 4)
  | .append => some (7, 5)
  | _ => none

/-- The length of a one-line reply, for which there is nothing but a comparison.
SOURCE: MemcProtoParser.cpp:114-133 -/
def lineLen : CmdType → Option ℕ
  | .end => some endBuf.length
  | .stored => some storedBuf.length
  | .notStored => some notStoredBuf.length
  | .deleted => some deletedBuf.length
  | .notFound => some notFoundBuf.length
  | _ => none

/-- What a number becomes in an `int`. -/
def castInt (n : ℤ) : ℤ := n.bmod (2 ^ 32)

/-- `boost::lexical_cast<size_t>`. -/
def lexicalCast (text : List Byte) : Option ℤ := (readInt text).filter fun n => n.natAbs < 2 ^ 64

/-- A command with data, whose line ends at `p`. If the length is no number, the data is taken as
empty, and the flag is then left alone too. SOURCE: MemcProtoParser.cpp:73-105 -/
def parserData (head : MemCmdHead) (buf : List Byte) (bufLen p : ℕ) : MemCmdHead :=
  let flags := splitCompress space (buf.take p)
  match keyAndWords head.type with
  | none => { head with succ := .err }
  | some (key, words) =>
    if flags.length ≠ words then { head with succ := .err }
    else
      let length := lexicalCast (flags.getLastD [])
      let bodyLen := castInt (length.getD 0)
      let flag := if length.isSome then castInt ((lexicalCast (flags.getD 2 [])).getD 0) else 0
      let dataLen := castInt (p + 2 + bodyLen + 2)
      { head with
        succ := if dataLen > bufLen then .more else .suc
        dataLen := dataLen
        body := p + 2
        bodyLen := bodyLen
        key := key
        keyLen := cmdKeySize (buf.drop key) (bufLen - key)
        flag := flag }

/-- SOURCE: MemcProtoParser.cpp:55-136 -/
def parserHead (buf : List Byte) (bufLen : ℕ) : MemCmdHead :=
  let head : MemCmdHead := ⟨.err, getCmdType buf, 0, 0, 0, 0, 0, 0⟩
  if head.type = .notDef then { head with succ := .more }
  else match memchr buf cr bufLen with
  | none => { head with succ := .more }
  | some p =>
    match head.type with
    | .set | .append | .value => parserData head buf bufLen p
    | .get => { head with succ := .suc, key := 4, keyLen := (p : ℤ) - 4, dataLen := p + 2 }
    | .delete => { head with succ := .suc, key := 7, keyLen := (p : ℤ) - 7, dataLen := p + 2 }
    | type =>
      match lineLen type with
      | none => head
      | some len => { head with succ := if bufLen ≠ len then .more else .suc }

end Oce.MemcProxy
