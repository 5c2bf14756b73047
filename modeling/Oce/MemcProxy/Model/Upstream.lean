import Oce.MemcProxy.Model.Parser

/-!
# One upstream connection

`UpstreamClient` is the proxy's `MemcachedClient`: a socket to one memcached node, the buffer
for its reply, and what is under way on the socket. A handler returns the connection as it
leaves it and the call it makes to its `handle_`, which is the client's connection.
-/

set_option autoImplicit false

namespace Oce.MemcProxy

open Oce.Base

/-- What is under way on an upstream's socket. A read has its place in the buffer and the room that
it was given. -/
inductive SocketOp where
  | connect
  | write
  | read (offset room : ℕ)
  deriving DecidableEq, Repr

def SocketOp.isRead : SocketOp → Bool
  | .read _ _ => true
  | _ => false

/-- The calls to `MemcDataHandle`. SOURCE: MemcachedClient.h:15-26 -/
inductive HandleCall where
  | onRecv (buf : List Byte)
  | onError | onEnd | onStored | onNotStored | onDeleted | onNotFound
  deriving DecidableEq, Repr

/-- The memory that `recv_buf_` points to is `recvBuf`, so `recv_buf_len_` is its length.
SOURCE: MemcachedClient.h:55-77 -/
structure UpstreamClient where
  cmdType : CmdType
  cmdBuf : List Byte
  recvBuf : List Byte
  curRecvLen : ℕ
  writeLen : ℕ
  handle : Bool
  socketErr : Bool
  reseting : Bool
  ops : List SocketOp
  deriving Repr

namespace UpstreamClient

/-- SOURCE: MemcachedClient.h:56 -/
def baseSize : ℕ := 64 * 1024

/-- SOURCE: MemcachedClient.h:57 -/
def factor : ℕ := 2

/-- SOURCE: MemcachedClient.cpp:9-23 -/
def new : UpstreamClient :=
  ⟨.get, [], List.replicate baseSize 0, 0, 0, false, true, false, []⟩

/-- SOURCE: MemcachedClient.cpp:29-42 -/
def reset (u : UpstreamClient) : UpstreamClient :=
  { u with reseting := true, handle := false, socketErr := true, curRecvLen := 0, recvBuf := [] }

/-- SOURCE: MemcachedClient.cpp:44-56 -/
def init (u : UpstreamClient) (cmdType : CmdType) (cmdBuf : List Byte) : UpstreamClient :=
  { u with writeLen := 0, curRecvLen := 0, handle := true, cmdBuf := cmdBuf, cmdType := cmdType }

/-- SOURCE: MemcachedClient.cpp:58-66 -/
def request (u : UpstreamClient) : UpstreamClient :=
  { u with ops := u.ops ++ [if u.socketErr then .connect else .write] }

/-- SOURCE: MemcachedClient.cpp:97-101 -/
def asyncRead (u : UpstreamClient) : UpstreamClient :=
  { u with ops := u.ops ++ [.read u.curRecvLen (u.recvBuf.length - u.curRecvLen)] }

/-- The error paths of the three handlers: the handle is told, and a socket that is not reset yet is
reset. A reset one goes to the pool's failed clients. SOURCE: MemcachedClient.cpp:69-83, 137-144,
152-167 -/
def handleError (u : UpstreamClient) : UpstreamClient × Option HandleCall :=
  (if u.reseting then u else u.reset, if u.handle then some .onError else none)

/-- SOURCE: MemcachedClient.cpp:84-95 -/
def handleConnect (u : UpstreamClient) : UpstreamClient × Option HandleCall :=
  ({ u with socketErr := false, ops := u.ops ++ [.write] }, none)

/-- SOURCE: MemcachedClient.cpp:145-149 -/
def handleWrite (u : UpstreamClient) : UpstreamClient × Option HandleCall := (u.asyncRead, none)

/-- How the loop over the replies in the buffer ends: it gives up, it goes round for ever, a
negative length takes it before the buffer, or it has found replies up to an offset, and the end
of the answer or not. -/
inductive Found where
  | err
  | endless
  | outside
  | upTo (total : ℕ) (getEnd : Bool)
  deriving DecidableEq, Repr

/-- The loop over the replies that have arrived, of which the first argument bounds the rounds.
SOURCE: MemcachedClient.cpp:175-203 -/
def parseLoop (recvBuf : List Byte) (curRecvLen : ℕ) : ℕ → ℕ → Found
  | 0, _ => .endless
  | rounds + 1, total =>
    if curRecvLen ≤ total then .upTo total false
    else
      let head := parserHead (recvBuf.drop total) (curRecvLen - total)
      match head.succ with
      | .err => .err
      | .more => .upTo total false
      | .suc =>
        if head.type = .end then .upTo total true
        else if head.type = .value then
          if total + head.dataLen < 0 then .outside
          else parseLoop recvBuf curRecvLen rounds (total + head.dataLen).toNat
        else .upTo total false

/-- Every round but the last gets past a byte at least, unless a length is negative. -/
def parseReplies (recvBuf : List Byte) (curRecvLen : ℕ) : Found :=
  parseLoop recvBuf curRecvLen (curRecvLen + 1) 0

/-- A buffer of twice the size. SOURCE: MemcachedClient.cpp:225-230 -/
def grow (u : UpstreamClient) : UpstreamClient :=
  { u with
    recvBuf := u.recvBuf.take u.curRecvLen ++
      List.replicate (u.recvBuf.length * factor - u.curRecvLen) 0 }

/-- The answer to a get: no whole reply yet, so it reads on, a second time if the buffer is full.
SOURCE: MemcachedClient.cpp:214-216, 224-233 -/
def readMore (u : UpstreamClient) : UpstreamClient :=
  if u.curRecvLen = u.recvBuf.length then u.asyncRead.grow.asyncRead else u.asyncRead

/-- SOURCE: MemcachedClient.cpp:174-233 -/
def handleGet (u : UpstreamClient) : UpstreamClient × Option HandleCall :=
  match parseReplies u.recvBuf u.curRecvLen with
  | .err | .endless | .outside => (u, none)
  | .upTo 0 true => (u, if u.handle then some .onEnd else none)
  | .upTo 0 false => (u.readMore, none)
  | .upTo total _ =>
    if u.handle then ({ u with writeLen := total }, some (.onRecv (u.recvBuf.take total)))
    else (u, none)

/-- A one-line answer is told by the number of bytes that have arrived.
SOURCE: MemcachedClient.cpp:234-250 -/
def handleLine (u : UpstreamClient) : Option HandleCall :=
  match u.cmdType with
  | .set | .append =>
    if u.curRecvLen = storedBuf.length then some .onStored
    else if u.curRecvLen = notStoredBuf.length then some .onNotStored else none
  | .delete =>
    if u.curRecvLen = deletedBuf.length then some .onDeleted
    else if u.curRecvLen = notFoundBuf.length then some .onNotFound else none
  | _ => none

/-- SOURCE: MemcachedClient.cpp:168-251 -/
def handleRead (u : UpstreamClient) (bytesTransferred : ℕ) : UpstreamClient × Option HandleCall :=
  if u.reseting then (u, none)
  else
    let u := { u with curRecvLen := u.curRecvLen + bytesTransferred }
    if u.cmdType = .get then u.handleGet else (u, u.handleLine)

/-- `memmove(recv_buf_, recv_buf_ + len, cur_recv_len_ - len)`. SOURCE: MemcachedClient.cpp:130-131 -/
def shift (u : UpstreamClient) (len : ℕ) : UpstreamClient :=
  { u with
    recvBuf := (u.recvBuf.drop len).take (u.curRecvLen - len) ++ u.recvBuf.drop (u.curRecvLen - len)
    curRecvLen := u.curRecvLen - len }

/-- SOURCE: MemcachedClient.cpp:103-134 -/
def wroteClient (u : UpstreamClient) (len : ℕ) : UpstreamClient × Option HandleCall :=
  if len ≠ u.writeLen ∨ u.reseting then (u, none)
  else
    let u := { u with writeLen := 0 }
    let head := parserHead (u.recvBuf.drop len) (u.curRecvLen - len)
    if head.succ = .err then (u, none)
    else if head.succ = .suc ∧ head.type = .end then (u, if u.handle then some .onEnd else none)
    else ((u.shift len).asyncRead, none)

/-- The socket puts bytes into the buffer. -/
def store (u : UpstreamClient) (offset : ℕ) (bytes : List Byte) : UpstreamClient :=
  { u with recvBuf := u.recvBuf.take offset ++ bytes ++ u.recvBuf.drop (offset + bytes.length) }

/-- An operation is over without an error; a read has brought `bytes`. -/
def complete (u : UpstreamClient) (op : SocketOp) (bytes : List Byte) :
    UpstreamClient × Option HandleCall :=
  match op with
  | .connect => u.handleConnect
  | .write => u.handleWrite
  | .read offset _ => (u.store offset bytes).handleRead bytes.length

end UpstreamClient

end Oce.MemcProxy
