import Mathlib.Logic.Function.Basic
import Oce.Base.Run
import Oce.MemcProxy.Model.KeyMapping
import Oce.MemcProxy.Model.Upstream

/-!
# The client's connection

`ClientConnection` and everything it waits for: reads and writes of the client's socket, the
timer, and the upstreams of the command under way. A write may be taken by the socket in
pieces, and `async_write` does not wait for the writes before it, so pieces of two writes may
come in any order. `timer_.cancel()` does not call back a handler that is queued already.
-/

set_option autoImplicit false

namespace Oce.MemcProxy

open Oce.Base

/-- A write of the client's socket that is under way, and what is still to be sent of it. -/
structure ClientWrite where
  memcli : Option ℕ
  bytes : List Byte
  rest : List Byte
  deriving DecidableEq, Repr

/-- The bytes of a write that the socket has taken. -/
def ClientWrite.sent (w : ClientWrite) : List Byte := w.bytes.take (w.bytes.length - w.rest.length)

/-- What a connection has been asked and what it has queued, in order. -/
inductive Traced where
  | command (type : CmdType)
  | queued (memcli : Option ℕ) (buf : List Byte)
  deriving DecidableEq, Repr

/-- The upstreams are known by numbers. `stream` is what the client has been sent, `reads` and
`writes` what is under way on its socket; `armed` says that the timer runs, `fired` how many
timeout handlers are queued. SOURCE: client_conn.h:60-109 -/
structure ClientConnection where
  wroteEnd : Bool
  recvBuf : List Byte
  curRecvLen : ℕ
  reqType : CmdType
  upClis : List ℕ
  armed : Bool
  fired : ℕ
  reads : List (ℕ × ℕ)
  writes : List ClientWrite
  stream : List Byte
  trace : List Traced

namespace ClientConnection

/-- SOURCE: client_conn.h:61 -/
def baseBufLen : ℕ := 64 * 1024

/-- SOURCE: client_conn.h:62 -/
def factor : ℕ := 2

/-- SOURCE: client_conn.cc:314-319 -/
def asyncWrite (c : ClientConnection) (buf : List Byte) (memcli : Option ℕ) : ClientConnection :=
  { c with
    writes := c.writes ++ [⟨memcli, buf, buf⟩]
    trace := c.trace ++ [.queued memcli buf] }

/-- SOURCE: client_conn.cc:104-114 -/
def asyncRead (c : ClientConnection) : ClientConnection :=
  { c with
    armed := false
    reads := c.reads ++ [(c.curRecvLen, c.recvBuf.length - c.curRecvLen)] }

/-- SOURCE: client_conn.cc:170-196 -/
def checkRead (c : ClientConnection) (resetbuf : Bool) : ClientConnection :=
  let c :=
    if resetbuf then
      { c with
        curRecvLen := 0
        recvBuf := if c.recvBuf.length ≠ baseBufLen then List.replicate baseBufLen 0 else c.recvBuf }
    else if c.recvBuf.length = 0 then
      { c with curRecvLen := 0, recvBuf := List.replicate baseBufLen 0 }
    else if c.curRecvLen = c.recvBuf.length then
      { c with
        recvBuf := c.recvBuf.take c.curRecvLen ++
          List.replicate (c.recvBuf.length * factor - c.curRecvLen) 0 }
    else c
  c.asyncRead

/-- The line that ends a command without an answer. SOURCE: client_conn.cc:290-296, 359-365 -/
def fallbackLine : CmdType → Option (List Byte)
  | .get => some endBuf
  | .set | .append => some notStoredBuf
  | .delete => some notFoundBuf
  | _ => none

def writeFallback (c : ClientConnection) : ClientConnection :=
  match fallbackLine c.reqType with
  | some line => c.asyncWrite line none
  | none => c

/-- SOURCE: client_conn.cc:345-353 -/
def onRecv (c : ClientConnection) (buf : List Byte) (memcli : ℕ) : ClientConnection :=
  c.asyncWrite buf (some memcli)

/-- SOURCE: client_conn.cc:355-380 -/
def onError (c : ClientConnection) (memcli : ℕ) : ClientConnection :=
  let c := { c with upClis := c.upClis.erase memcli }
  if c.upClis = [] then
    let c := if c.wroteEnd then c else { c.writeFallback with wroteEnd := true }
    { c with curRecvLen := 0 }.checkRead true
  else c

/-- SOURCE: client_conn.cc:382-410 -/
def onEnd (c : ClientConnection) (memcli : ℕ) : ClientConnection :=
  let c := { c with upClis := c.upClis.erase memcli }
  if c.upClis = [] then
    let c := if c.wroteEnd then c else { c.asyncWrite endBuf none with wroteEnd := true }
    { c with curRecvLen := 0 }.checkRead true
  else c

/-- The four calls for a one-line answer, which differ in the line. SOURCE: client_conn.cc:412-440 -/
def onLine (line : List Byte) (c : ClientConnection) (memcli : ℕ) : ClientConnection :=
  ({ c with upClis := c.upClis.erase memcli }.asyncWrite line none).checkRead true

/-- SOURCE: client_conn.cc:412-418 -/
def onStored : ClientConnection → ℕ → ClientConnection := onLine storedBuf

/-- SOURCE: client_conn.cc:420-426 -/
def onNotStored : ClientConnection → ℕ → ClientConnection := onLine notStoredBuf

/-- SOURCE: client_conn.cc:428-433 -/
def onDeleted : ClientConnection → ℕ → ClientConnection := onLine deletedBuf

/-- SOURCE: client_conn.cc:435-440 -/
def onNotFound : ClientConnection → ℕ → ClientConnection := onLine notFoundBuf

/-- What an upstream calls. -/
def handleCall (c : ClientConnection) (memcli : ℕ) : Option HandleCall → ClientConnection
  | none => c
  | some (.onRecv buf) => c.onRecv buf memcli
  | some .onError => c.onError memcli
  | some .onEnd => c.onEnd memcli
  | some .onStored => c.onStored memcli
  | some .onNotStored => c.onNotStored memcli
  | some .onDeleted => c.onDeleted memcli
  | some .onNotFound => c.onNotFound memcli

/-- The socket puts what the client has sent into the buffer. -/
def store (c : ClientConnection) (offset : ℕ) (bytes : List Byte) : ClientConnection :=
  { c with recvBuf := c.recvBuf.take offset ++ bytes ++ c.recvBuf.drop (offset + bytes.length) }

/-- The handler of a timeout, as far as the connection itself goes. SOURCE: client_conn.cc:286-300,
309-311 -/
def timeout (c : ClientConnection) : ClientConnection :=
  let c := { c with armed := false }
  let c := if c.wroteEnd then c else { c.writeFallback with wroteEnd := true }
  { c with upClis := [] }.checkRead true

end ClientConnection

/-! ## The connection with its upstreams -/

/-- An upstream and what its node has sent since it was given its command. -/
structure Link where
  client : UpstreamClient
  received : List Byte

/-- The connection, its upstreams by number, and the next number to be given out. -/
structure Proxy where
  conn : ClientConnection
  ups : ℕ → Link
  next : ℕ

/-- Something that the event loop has a handler for: an operation of an upstream is over, with or
without an error; the client's socket has taken bytes of a write, or all of it; the client has
sent something; the timer has run out, or a queued timeout handler has its turn. -/
inductive Event where
  | done (i k : ℕ) (bytes : List Byte)
  | failed (i k : ℕ)
  | taken (j n : ℕ)
  | written (j : ℕ)
  | clientSent (k : ℕ) (bytes : List Byte)
  | expired
  | timeout
  deriving DecidableEq, Repr

namespace Proxy

/-- An upstream's handler has run. -/
def handled (s : Proxy) (i : ℕ) (r : UpstreamClient × Option HandleCall) : Proxy :=
  { s with
    conn := s.conn.handleCall i r.2
    ups := Function.update s.ups i { s.ups i with client := r.1 } }

/-- What a read can bring: something, unless it was given no room. -/
def readable (room : ℕ) (bytes : List Byte) : Bool :=
  decide (bytes.length ≤ room) && (!bytes.isEmpty || room == 0)

/-- What an operation can bring. -/
def brings : SocketOp → List Byte → Bool
  | .read _ room, bytes => readable room bytes
  | _, bytes => bytes.isEmpty

def done (s : Proxy) (i k : ℕ) (bytes : List Byte) : Proxy :=
  let u := (s.ups i).client
  match u.ops[k]? with
  | none => s
  | some op =>
    if brings op bytes then
      ({ s with
          ups := Function.update s.ups i
            { s.ups i with received := (s.ups i).received ++ bytes } }).handled i
        ({ u with ops := u.ops.eraseIdx k }.complete op bytes)
    else s

def failed (s : Proxy) (i k : ℕ) : Proxy :=
  let u := (s.ups i).client
  match u.ops[k]? with
  | none => s
  | some _ => s.handled i ({ u with ops := u.ops.eraseIdx k }.handleError)

/-- The socket takes some bytes of a write. -/
def taken (s : Proxy) (j n : ℕ) : Proxy :=
  match s.conn.writes[j]? with
  | none => s
  | some w =>
    if 0 < n ∧ n ≤ w.rest.length then
      { s with
        conn := { s.conn with
          writes := s.conn.writes.set j { w with rest := w.rest.drop n }
          stream := s.conn.stream ++ w.rest.take n } }
    else s

/-- SOURCE: client_conn.cc:207-219 -/
def handleWrite (s : Proxy) (memcli : Option ℕ) (bytesTransferred : ℕ) : Proxy :=
  match memcli with
  | none => s
  | some i =>
    if i ∈ s.conn.upClis then s.handled i ((s.ups i).client.wroteClient bytesTransferred) else s

def written (s : Proxy) (j : ℕ) : Proxy :=
  match s.conn.writes[j]? with
  | none => s
  | some w =>
    if w.rest = [] then
      { s with conn := { s.conn with writes := s.conn.writes.eraseIdx j } }.handleWrite w.memcli
        w.bytes.length
    else s

/-- A request goes to a client that the pool gives out, under the next number.
SOURCE: client_conn.cc:127-130, 163-166 -/
def send (pool : ℕ → UpstreamClient) (type : CmdType) (s : Proxy) (request : Endpoint × List Byte) :
    Proxy :=
  { conn := { s.conn with upClis := s.conn.upClis ++ [s.next] }
    ups := Function.update s.ups s.next ⟨((pool s.next).init type request.2).request, []⟩
    next := s.next + 1 }

/-- SOURCE: client_conn.cc:248-272 -/
def handleRead (cl : Clusters) (pool : ℕ → UpstreamClient) (s : Proxy) (bytesTransferred : ℕ) :
    Proxy :=
  let s := { s with conn := { s.conn with curRecvLen := s.conn.curRecvLen + bytesTransferred } }
  let head := parserHead s.conn.recvBuf s.conn.curRecvLen
  match head.succ with
  | .more => { s with conn := s.conn.checkRead false }
  | .err => { s with conn := { s.conn with armed := true } }
  | .suc =>
    let s := { s with conn := { s.conn with
      reqType := head.type
      trace := s.conn.trace ++ [.command head.type] } }
    let s := (route cl s.conn.recvBuf s.conn.curRecvLen).foldl (send pool head.type) s
    { s with conn := { s.conn with wroteEnd := false, armed := true } }

def clientSent (cl : Clusters) (pool : ℕ → UpstreamClient) (s : Proxy) (k : ℕ) (bytes : List Byte) :
    Proxy :=
  match s.conn.reads[k]? with
  | none => s
  | some (offset, room) =>
    if readable room bytes then
      handleRead cl pool
        { s with conn := { s.conn with reads := s.conn.reads.eraseIdx k }.store offset bytes }
        bytes.length
    else s

def expired (s : Proxy) : Proxy :=
  if s.conn.armed then
    { s with conn := { s.conn with armed := false, fired := s.conn.fired + 1 } }
  else s

/-- SOURCE: client_conn.cc:276-312 -/
def handleMemcCommandTimeout (s : Proxy) : Proxy :=
  { s with
    conn := s.conn.timeout
    ups := fun i =>
      if i ∈ s.conn.upClis then { s.ups i with client := (s.ups i).client.reset } else s.ups i }

def timeout (s : Proxy) : Proxy :=
  if s.conn.fired = 0 then s
  else { s with conn := { s.conn with fired := s.conn.fired - 1 } }.handleMemcCommandTimeout

def step (cl : Clusters) (pool : ℕ → UpstreamClient) (s : Proxy) : Event → Proxy
  | .done i k bytes => s.done i k bytes
  | .failed i k => s.failed i k
  | .taken j n => s.taken j n
  | .written j => s.written j
  | .clientSent k bytes => s.clientSent cl pool k bytes
  | .expired => s.expired
  | .timeout => s.timeout

end Proxy

end Oce.MemcProxy

/-!
## How the client reads a reply

`Request` of the memcached client, from the moment when the request has been sent. It polls the
socket, and `HandleRead` receives what there is, as long as `FetchData` finds blocks; what it
makes of the buffer afterwards decides whether `Request` returns, or polls again. What the socket
brings at each call, and where it cuts the reply, is the run.

The buffer is what it was before, also behind the received bytes. A value with a length that is no
length has no defined result.
-/

namespace Oce.MemcProxy.ClientRead

open Oce.Base

/-- Where `Request` is. -/
inductive Place where
  | poll
  | read
  | returned (ok : Bool)
  | undefined
  deriving DecidableEq

/-- The client, with the type that `Request` hands out and the bytes that are still to come.
SOURCE: MemcachedClient.h:59-68 -/
structure Reader where
  recvBuf : List Byte
  curRecvLen : ℕ
  type : CmdType
  resdata : List Byte → Option (List Byte)
  flags : List Byte → Option ℤ
  wire : List Byte
  place : Place

/-- The types with which a reply is over. SOURCE: MemcachedClient.cpp:307, 335 -/
def isReply (type : CmdType) : Bool :=
  type = .end ∨ type = .stored ∨ type = .notStored ∨ type = .deleted ∨ type = .notFound

/-! ## The buffer -/

/-- What the loop of `FetchData` has found. -/
structure Fetched where
  ok : Bool
  total : ℕ
  type : CmdType
  resdata : List Byte → Option (List Byte)
  flags : List Byte → Option ℤ

/-- `resdata[key].insert(0, body)` and `flags[key] = flag`. SOURCE: MemcachedClient.cpp:339-342 -/
def Fetched.value (s : Fetched) (buf : List Byte) (head : MemCmdHead) : Fetched :=
  let key := head.keyBytes buf
  { s with
    total := s.total + head.dataLen.toNat
    resdata := Function.update s.resdata key (some (head.bodyBytes buf ++ (s.resdata key).getD []))
    flags := Function.update s.flags key (some head.flag) }

/-- The loop, of which the first argument bounds the rounds. SOURCE: MemcachedClient.cpp:324-347 -/
def fetchLoop (recvBuf : List Byte) (curRecvLen : ℕ) : ℕ → Fetched → Option Fetched
  | 0, _ => none
  | rounds + 1, s =>
    if curRecvLen ≤ s.total then some s
    else
      let buf := recvBuf.drop s.total
      let head := parserHead buf (curRecvLen - s.total)
      let s := { s with type := head.type }
      match head.succ with
      | .err => some { s with ok := false }
      | .more => some s
      | .suc =>
        if isReply head.type then some s
        else if head.type = .value then
          if head.bodyLen < 0 ∨ head.dataLen ≤ 0 then none
          else fetchLoop recvBuf curRecvLen rounds (s.value buf head)
        else some { s with ok := false }

/-- SOURCE: MemcachedClient.cpp:321-353 -/
def fetchData (s : Reader) : Option (Bool × Reader) :=
  (fetchLoop s.recvBuf s.curRecvLen (s.curRecvLen + 1) ⟨true, 0, .notDef, s.resdata, s.flags⟩).map
    fun f =>
      let s := { s with type := f.type, resdata := f.resdata, flags := f.flags }
      if f.ok then
        (true,
          { s with
            recvBuf := (s.recvBuf.drop f.total).take (s.curRecvLen - f.total) ++
              s.recvBuf.drop (s.curRecvLen - f.total)
            curRecvLen := s.curRecvLen - f.total })
      else (false, s)

/-! ## The socket -/

/-- What a call brings: the poll times out or fails; `recv` returns bytes, `EAGAIN`, or an error or
the end of the stream. -/
inductive Event where
  | timeout
  | bytes (n : ℕ)
  | again
  | fail
  deriving DecidableEq

/-- How many bytes come: at least one, and no more than there are and than there is room for. -/
def taken (s : Reader) (n : ℕ) : ℕ :=
  min (n + 1) (min (s.recvBuf.length - s.curRecvLen) s.wire.length)

/-- `recv` puts them behind what has been received. SOURCE: MemcachedClient.cpp:177, 188-189 -/
def receive (s : Reader) (n : ℕ) : Reader :=
  { s with
    recvBuf := s.recvBuf.take s.curRecvLen ++ s.wire.take n ++ s.recvBuf.drop (s.curRecvLen + n)
    curRecvLen := s.curRecvLen + n
    wire := s.wire.drop n }

/-- What `HandleRead` and `Request` make of the type.
SOURCE: MemcachedClient.cpp:190-196, 298-312 -/
def afterFetch (s : Reader) : Option (Bool × Reader) → Reader
  | none => { s with place := .undefined }
  | some (false, s) => { s with place := .returned false }
  | some (true, s) =>
    if s.type = .value then { s with place := .read }
    else if s.type = .notDef then { s with place := .poll }
    else { s with place := .returned (isReply s.type) }

/-- A call of `recv`, which returns 0 if there is no room for a byte.
SOURCE: MemcachedClient.cpp:176-197 -/
def recv (s : Reader) : Event → Reader
  | .bytes n =>
    if s.recvBuf.length ≤ s.curRecvLen then { s with place := .returned false }
    else if s.wire = [] then { s with place := .poll }
    else
      let s := receive s (taken s n)
      afterFetch s (fetchData s)
  | .again => { s with place := .poll }
  | .fail => { s with place := .returned false }
  | .timeout => s

/-- SOURCE: MemcachedClient.cpp:174-199, 284-315 -/
def step (s : Reader) (e : Event) : Reader :=
  match s.place with
  | .poll =>
    if e = .timeout then { s with place := .returned false }
    else recv { s with type := .notDef } e
  | .read => recv s e
  | .returned _ | .undefined => s

/-- A request has been sent, and its reply is on the way. SOURCE: MemcachedClient.cpp:262-266 -/
def request (recvBuf reply : List Byte) : Reader :=
  ⟨recvBuf, 0, .notDef, fun _ => none, fun _ => none, reply, .poll⟩

end Oce.MemcProxy.ClientRead
