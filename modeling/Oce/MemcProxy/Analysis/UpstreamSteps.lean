import Oce.MemcProxy.Model.ClientConn
import Oce.MemcProxy.Analysis.Replies
import Oce.Base.Parts
import Oce.Base.Run

/-!
# An upstream that answers a get

An upstream waits for more of its answer, or for the client to take the blocks that it has
handed over, or it is through with its answer. One lemma for what the end of an operation
makes of the first, and one for what the end of the client's write makes of the second.
-/

set_option autoImplicit false

namespace Oce.MemcProxy

open Oce.Base UpstreamClient

variable {mem bytes : List Byte} {offset : ℕ} {group left : List Block} {l : Link}

/-- The client that an upstream has for a get, until it is reset. -/
structure Serving (u : UpstreamClient) : Prop where
  type : u.cmdType = .get
  handle : u.handle = true
  reseting : u.reseting = false

/-- It waits for more: its command is on the way, or it reads. -/
structure Awaits (l : Link) (reply : List Byte) (left : List Block) : Prop where
  serving : Serving l.client
  room : l.client.curRecvLen < l.client.recvBuf.length
  ops : (l.client.ops = [.read l.client.curRecvLen (l.client.recvBuf.length - l.client.curRecvLen)]) ∨
    l.client.curRecvLen = 0 ∧ (l.client.ops = [.connect] ∨ l.client.ops = [.write])
  toCome : ∃ toCome, l.received ++ toCome = reply ∧
    l.client.recvBuf.take l.client.curRecvLen ++ toCome = answer left
  unparsed : l.client.curRecvLen < (nextItem left).length
  fits : ∀ b ∈ left, b.Fits

/-- It has handed over some blocks and reads again when the client has taken them. -/
structure Hands (l : Link) (reply : List Byte) (group left : List Block) : Prop where
  serving : Serving l.client
  ops : l.client.ops = []
  nonempty : group ≠ []
  writeLen : l.client.writeLen = (blocksBytes group).length
  room : l.client.curRecvLen ≤ l.client.recvBuf.length
  toCome : ∃ toCome rem getEnd, l.received ++ toCome = reply ∧
    Cut (l.client.recvBuf.take l.client.curRecvLen) (group ++ left) group left rem getEnd ∧
    rem ++ toCome = answer left
  fits : ∀ b ∈ left, b.Fits

/-- It has got the whole of its answer. -/
structure Over (l : Link) (reply : List Byte) : Prop where
  ops : l.client.ops = []
  received : l.received = reply

/-! ## Reading -/

theorem take_store (h : offset ≤ mem.length) :
    (mem.take offset ++ bytes ++ mem.drop (offset + bytes.length)).take (offset + bytes.length) =
      mem.take offset ++ bytes := by
  apply List.take_left'
  rw [List.length_append, List.length_take, Nat.min_eq_left h]

theorem length_store (h : offset + bytes.length ≤ mem.length) :
    (mem.take offset ++ bytes ++ mem.drop (offset + bytes.length)).length = mem.length := by
  rw [List.length_append, List.length_append, List.length_take, List.length_drop]
  omega

theorem length_blocksBytes_pos (h : group ≠ []) : 0 < (blocksBytes group).length := by
  obtain ⟨b, group, rfl⟩ := List.exists_cons_of_ne_nil h
  rw [blocksBytes_cons, List.length_append]
  have := List.length_pos_iff.mpr b.bytes_ne_nil
  omega

/-- A buffer that has just been filled up holds a whole block or line. -/
def HoldsWhole (u : UpstreamClient) : Prop :=
  u.curRecvLen = u.recvBuf.length → (parserHead u.recvBuf u.curRecvLen).succ ≠ .more

/-- What may come of an answer's next bytes. -/
inductive ReadOutcome (reply : List Byte) (left : List Block) : Link → Option HandleCall → Prop where
  | more {l : Link} (h : Awaits l reply left) : ReadOutcome reply left l none
  | blocks {l : Link} {group left' : List Block} (hleft : left = group ++ left')
      (h : Hands l reply group left') : ReadOutcome reply left l (some (.onRecv (blocksBytes group)))
  | last {l : Link} (hleft : left = []) (h : Over l reply) :
      ReadOutcome reply left l (some .onEnd)

/-- The answer's next bytes are in the buffer. -/
theorem handleGet_outcome (l : Link) {reply : List Byte} (toCome : List Byte)
    (hfits : ∀ b ∈ left, b.Fits) (hserving : Serving l.client) (hops : l.client.ops = [])
    (hroom : l.client.curRecvLen ≤ l.client.recvBuf.length)
    (hreply : l.received ++ toCome = reply)
    (hleft : l.client.recvBuf.take l.client.curRecvLen ++ toCome = answer left)
    (hwhole : HoldsWhole l.client) :
    ReadOutcome reply left { l with client := l.client.handleGet.1 } l.client.handleGet.2 := by
  have hprefix : (l.client.recvBuf.take l.client.curRecvLen).drop 0 <+: answer left :=
    ⟨toCome, hleft⟩
  obtain ⟨group, left', rem, getEnd, hcut, hloop⟩ :=
    parseLoop_eq hroom hfits (l.client.curRecvLen + 1) 0 (by omega) hprefix
  rw [List.drop_zero] at hcut
  have hparse : parseReplies l.client.recvBuf l.client.curRecvLen =
      .upTo (blocksBytes group).length getEnd := by
    rw [Nat.zero_add] at hloop
    exact hloop
  have hrem : rem ++ toCome = answer left' := by
    have h := hleft
    rw [hcut.bytes, hcut.blocks, answer_append, List.append_assoc] at h
    exact List.append_cancel_left h
  by_cases hne : group = []
  · subst hne
    have hsame : left = left' := hcut.blocks
    cases getEnd with
    | true =>
        obtain ⟨hnil, hend⟩ : left' = [] ∧ rem = endBuf := hcut.rest
        have htoCome : toCome = [] := by
          rw [hnil, hend] at hrem
          exact List.append_cancel_left (hrem.trans (List.append_nil _).symm)
        have hget : l.client.handleGet = (l.client, some .onEnd) := by
          unfold handleGet
          rw [hparse]
          simp [hserving.handle]
        rw [hget]
        refine .last (hsame.trans hnil) ⟨hops, ?_⟩
        rw [← hreply, htoCome, List.append_nil]
    | false =>
        have hun : Unparsed rem left' := hcut.rest
        have hlen : l.client.curRecvLen < (nextItem left).length := by
          have := congrArg List.length hcut.bytes
          rw [List.length_take, Nat.min_eq_left hroom, blocksBytes_nil, List.nil_append] at this
          rw [this, hsame]
          exact hun.1
        have hmore : (parserHead l.client.recvBuf l.client.curRecvLen).succ = .more := by
          apply parserHead_part hfits _ hlen
          simpa using take_at 0 hroom hprefix
        have hfull : l.client.curRecvLen ≠ l.client.recvBuf.length := fun hf => hwhole hf hmore
        have hget : l.client.handleGet = (l.client.asyncRead, none) := by
          unfold handleGet
          rw [hparse]
          simp [readMore, hfull]
        rw [hget]
        refine .more ⟨⟨hserving.type, hserving.handle, hserving.reseting⟩, ?_, .inl ?_, ?_, hlen, hfits⟩
        · simp only [asyncRead]
          omega
        · simp [asyncRead, hops]
        · exact ⟨toCome, hreply, hleft⟩
  · have htotal := length_blocksBytes_pos hne
    have hget : l.client.handleGet = ({ l.client with writeLen := (blocksBytes group).length },
        some (.onRecv (l.client.recvBuf.take (blocksBytes group).length))) := by
      obtain ⟨m, hm⟩ : ∃ m, (blocksBytes group).length = m + 1 :=
        ⟨_, (Nat.succ_pred_eq_of_pos htotal).symm⟩
      unfold handleGet
      rw [hparse, hm]
      simp [hserving.handle]
    have htake : l.client.recvBuf.take (blocksBytes group).length = blocksBytes group := by
      have hle : (blocksBytes group).length ≤ l.client.curRecvLen := by
        have := congrArg List.length hcut.bytes
        rw [List.length_take, Nat.min_eq_left hroom, List.length_append] at this
        omega
      have := congrArg (List.take (blocksBytes group).length) hcut.bytes
      rwa [List.take_take, Nat.min_eq_left hle, List.take_left] at this
    rw [hget, htake]
    refine .blocks hcut.blocks ⟨⟨hserving.type, hserving.handle, hserving.reseting⟩, hops, hne, rfl,
      hroom, ⟨toCome, rem, getEnd, hreply, ?_, hrem⟩, ?_⟩
    · exact hcut.blocks ▸ hcut
    · exact fun b hb => hfits b (hcut.blocks ▸ List.mem_append_right group hb)

/-- **The end of an operation of an upstream that waits for its answer.** A read that fills the
buffer must not leave it with a part of a block only. -/
theorem Awaits.complete {reply : List Byte} (h : Awaits l reply left) {op : SocketOp}
    (hop : l.client.ops = [op]) (hbrings : Proxy.brings op bytes)
    (hserved : l.received ++ bytes <+: reply)
    (hwhole : ∀ offset room, op = .read offset room → HoldsWhole
      { l.client.store offset bytes with curRecvLen := l.client.curRecvLen + bytes.length }) :
    ReadOutcome reply left
      ⟨({ l.client with ops := [] }.complete op bytes).1, l.received ++ bytes⟩
      ({ l.client with ops := [] }.complete op bytes).2 := by
  obtain ⟨toCome, hreply, hleft⟩ := h.toCome
  rcases h.ops with hread | ⟨hzero, hstart⟩
  · rw [hop, List.cons.injEq] at hread
    obtain ⟨rfl, -⟩ := hread
    have hlen : bytes.length ≤ l.client.recvBuf.length - l.client.curRecvLen := by
      simp only [Proxy.brings, Proxy.readable, Bool.and_eq_true, decide_eq_true_eq] at hbrings
      exact hbrings.1
    have hroom := h.room
    obtain ⟨rest, rfl⟩ : ∃ rest, toCome = bytes ++ rest := by
      rw [← hreply] at hserved
      obtain ⟨rest, hrest⟩ := (List.prefix_append_right_inj _).mp hserved
      exact ⟨rest, hrest.symm⟩
    have hstore : (l.client.store l.client.curRecvLen bytes).recvBuf.length = l.client.recvBuf.length :=
      length_store (by omega)
    have hread : ({ l.client with ops := [] }.complete
        (.read l.client.curRecvLen (l.client.recvBuf.length - l.client.curRecvLen)) bytes) =
        ({ l.client.store l.client.curRecvLen bytes with
          ops := [], curRecvLen := l.client.curRecvLen + bytes.length } : UpstreamClient).handleGet := by
      simp [UpstreamClient.complete, handleRead, store, h.serving.reseting, h.serving.type]
    rw [hread]
    refine handleGet_outcome ⟨{ l.client.store l.client.curRecvLen bytes with
      ops := [], curRecvLen := l.client.curRecvLen + bytes.length }, l.received ++ bytes⟩ rest h.fits ⟨h.serving.type, h.serving.handle, h.serving.reseting⟩ rfl ?_ ?_ ?_ ?_
    · rw [hstore]
      show l.client.curRecvLen + bytes.length ≤ _
      omega
    · rw [← hreply, List.append_assoc]
    · show (l.client.store l.client.curRecvLen bytes).recvBuf.take _ ++ rest = _
      rw [← hleft, store, take_store (Nat.le_of_lt hroom), List.append_assoc]
    · exact hwhole _ _ rfl
  · have hnil : bytes = [] := by
      rw [hop] at hstart
      rcases hstart with hc | hw
      · cases hc
        simpa [Proxy.brings] using hbrings
      · cases hw
        simpa [Proxy.brings] using hbrings
    subst hnil
    rw [List.append_nil]
    rw [hop] at hstart
    rcases hstart with hc | hw
    · cases hc
      exact .more ⟨⟨h.serving.type, h.serving.handle, h.serving.reseting⟩, h.room, .inr ⟨hzero, .inr rfl⟩,
        h.toCome, h.unparsed, h.fits⟩
    · cases hw
      exact .more ⟨⟨h.serving.type, h.serving.handle, h.serving.reseting⟩, h.room, .inl rfl, h.toCome,
        h.unparsed, h.fits⟩

/-! ## After a write to the client -/

/-- **The client has taken the blocks.** The upstream reads on, or its answer is over. -/
theorem Hands.wroteClient {reply : List Byte} (h : Hands l reply group left) :
    ReadOutcome reply left { l with client := (l.client.wroteClient (blocksBytes group).length).1 }
      (l.client.wroteClient (blocksBytes group).length).2 := by
  obtain ⟨toCome, rem, getEnd, hreply, hcut, hrem⟩ := h.toCome
  have hlen : l.client.curRecvLen = (blocksBytes group).length + rem.length := by
    have := congrArg List.length hcut.bytes
    rwa [List.length_take, Nat.min_eq_left h.room, List.length_append] at this
  have hsee : (l.client.recvBuf.drop (blocksBytes group).length).take
      (l.client.curRecvLen - (blocksBytes group).length) = rem := by
    rw [← List.drop_take, hcut.bytes, List.drop_left]
  have hsub : l.client.curRecvLen - (blocksBytes group).length = rem.length := by omega
  rw [hsub] at hsee
  have hguard : ¬ ((blocksBytes group).length ≠ l.client.writeLen ∨ l.client.reseting = true) := by
    rw [h.writeLen, h.serving.reseting]
    simp
  cases getEnd with
  | true =>
      obtain ⟨hnil, hend⟩ : left = [] ∧ rem = endBuf := hcut.rest
      have htoCome : toCome = [] := by
        rw [hnil, hend] at hrem
        exact List.append_cancel_left (hrem.trans (List.append_nil _).symm)
      have hat : (l.client.recvBuf.drop (blocksBytes group).length).take rem.length =
          endBuf.take rem.length := by
        rw [hsee, hend, List.take_length]
      obtain ⟨hsucc, htype⟩ := parserHead_end hat (congrArg List.length hend)
      have hwrote : l.client.wroteClient (blocksBytes group).length =
          ({ l.client with writeLen := 0 }, some .onEnd) := by
        unfold UpstreamClient.wroteClient
        rw [if_neg hguard]
        simp [hsub, hsucc, htype, h.serving.handle]
      rw [hwrote]
      refine .last hnil ⟨h.ops, ?_⟩
      rw [← hreply, htoCome, List.append_nil]
  | false =>
      have hun : Unparsed rem left := hcut.rest
      have hat : (l.client.recvBuf.drop (blocksBytes group).length).take rem.length =
          (answer left).take rem.length := by
        rw [hsee]
        exact List.prefix_iff_eq_take.mp hun.2
      have hmore := parserHead_part h.fits hat hun.1
      have hpos := length_blocksBytes_pos h.nonempty
      have hroom := h.room
      have hbuf : ((l.client.recvBuf.drop (blocksBytes group).length).take rem.length ++
          l.client.recvBuf.drop rem.length).length = l.client.recvBuf.length := by
        rw [hsee, List.length_append, List.length_drop]
        omega
      have hwrote : l.client.wroteClient (blocksBytes group).length =
          (({ l.client with writeLen := 0 }.shift (blocksBytes group).length).asyncRead, none) := by
        unfold UpstreamClient.wroteClient
        rw [if_neg hguard]
        simp [hsub, hmore]
      rw [hwrote]
      refine .more ⟨⟨h.serving.type, h.serving.handle, h.serving.reseting⟩, ?_, .inl ?_, ?_, ?_,
        h.fits⟩
      · simp only [asyncRead, shift, hsub, hbuf]
        omega
      · simp [asyncRead, shift, h.ops]
      · refine ⟨toCome, hreply, ?_⟩
        simp only [asyncRead, shift, hsub, hsee]
        rw [List.take_left]
        exact hrem
      · simp only [asyncRead, shift, hsub]
        exact hun.1

/-!
## What it means to relay an answer

An exchange is a command that has been sent to some upstreams, with the answers their nodes
give: blocks and a last line. The proxy relays it if the client is sent a merge of the
answers' blocks and then the last line, and if nothing keeps an upstream from reading its
answer to the end or makes it read twice at a time.
-/

/-- A get that several upstreams answer, or another command that one upstream answers with a
line. -/
structure Exchange where
  type : CmdType
  ids : List ℕ
  blocks : ℕ → List Block
  final : List Byte
  asked : ids ≠ []
  nodup : ids.Nodup
  kind : (type = .get ∧ final = endBuf) ∨
    (type = .set ∨ type = .append ∨ type = .delete) ∧ (∃ i, ids = [i]) ∧ ∀ i, blocks i = []

/-- An upstream's answer. -/
def Exchange.reply (e : Exchange) (i : ℕ) : List Byte := blocksBytes (e.blocks i) ++ e.final

/-- The lengths of the blocks fit the parser's `int`s. -/
def Exchange.Fits (e : Exchange) : Prop := ∀ i ∈ e.ids, ∀ b ∈ e.blocks i, b.Fits

/-- A client that the pool can give out; `recv_buf_len_` is an `int`. -/
structure Idle (u : UpstreamClient) : Prop where
  ops : u.ops = []
  reseting : u.reseting = false
  recvBuf : UpstreamClient.baseSize ≤ u.recvBuf.length
  bufLen : u.recvBuf.length < 2 ^ 31

/-- The command has just been given to its upstreams, and what the client was sent before has
left. -/
structure Dispatched (e : Exchange) (s : Proxy) : Prop where
  upClis : s.conn.upClis = e.ids
  wroteEnd : s.conn.wroteEnd = false
  writes : ∀ w ∈ s.conn.writes, w.memcli = none ∧ w.rest = []
  asked : ∀ i ∈ e.ids, ∃ u cmd, Idle u ∧ s.ups i = ⟨(u.init e.type cmd).request, []⟩

/-! ## How an exchange begins -/

/-! ## What the environment does -/

/-- The nodes send their answers, nothing fails and no timer runs out. -/
def Served (e : Exchange) (s : Proxy) : Event → Prop
  | .done i _ bytes => i ∈ e.ids ∧ (s.ups i).received ++ bytes <+: e.reply i
  | .taken _ _ | .written _ => True
  | _ => False

/-- The lines that a command other than a get can be answered with. -/
def knownLines : CmdType → List (List Byte)
  | .set | .append => [storedBuf, notStoredBuf]
  | .delete => [deletedBuf, notFoundBuf]
  | _ => []

/-- What a read may bring: an answer to a get may be cut anywhere, unless that fills the buffer with
a part of one block; a one-line answer is one of the two that the command has, and comes whole. -/
def ReadsWell (e : Exchange) (s : Proxy) (i k : ℕ) (bytes : List Byte) : Prop :=
  let u := (s.ups i).client
  match u.ops[k]? with
  | some (.read offset _) =>
    if e.type = .get then
      HoldsWhole { u.store offset bytes with curRecvLen := u.curRecvLen + bytes.length }
    else bytes = e.final ∧ bytes ∈ knownLines e.type
  | _ => True

/-- What the client's socket may take: bytes of one write, while of every other one that is under
way it has taken whole blocks. -/
def TakesWell (s : Proxy) (j : ℕ) : Prop :=
  ∀ j' w, j' ≠ j → s.conn.writes[j']? = some w → ∃ blocks, w.sent = blocksBytes blocks

def StepsWell (e : Exchange) (s : Proxy) : Event → Prop
  | .done i k bytes => ReadsWell e s i k bytes
  | .taken j _ => TakesWell s j
  | _ => True

/-- There is nothing under way any more. -/
def Settled (e : Exchange) (s : Proxy) : Prop :=
  (∀ i ∈ e.ids, (s.ups i).client.ops = []) ∧ s.conn.writes = []

/-- What the client should be sent: the blocks of all answers, merged, and the last line. -/
def Exchange.Relays (e : Exchange) (order : List (ℕ × Block)) (sent : List Byte) : Prop :=
  IsMerge e.ids e.blocks order ∧ sent = blocksBytes (order.map Prod.snd) ++ e.final

/-- **Faithful relaying**, of a connection that had sent `base` before. -/
structure Faithful (e : Exchange) (base : List Byte) (s : Proxy) : Prop where
  oneRead : ∀ i ∈ e.ids, (s.ups i).client.ops.countP SocketOp.isRead ≤ 1
  readsOn : ∀ i ∈ e.ids, (s.ups i).received ≠ e.reply i →
    (s.ups i).client.ops ≠ [] ∨ ∃ w ∈ s.conn.writes, w.memcli = some i
  relayed : ∃ order sent, e.Relays order sent ∧ s.conn.stream <+: base ++ sent ∧
    (Settled e s → s.conn.stream = base ++ sent)

end Oce.MemcProxy
