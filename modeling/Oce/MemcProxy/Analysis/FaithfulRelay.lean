import Oce.MemcProxy.Analysis.RelayGet
import Oce.MemcProxy.Analysis.SameNode

/-!
# The proxy relays what its upstreams answer

A set, an append or a delete has one upstream, which waits for its line until the client has
been sent it. Together with the invariant of a get this gives the result about every run
whose reads and writes go well. A line that comes in two reads is the other half: the first
read is the last one, or it is taken for the whole of another line.
-/

set_option autoImplicit false

namespace Oce.MemcProxy

open Function Oce.Base

/-! ## One-line answers -/

/-- The upstream waits for its line. -/
structure AwaitsLine (l : Link) (type : CmdType) : Prop where
  type : l.client.cmdType = type
  reseting : l.client.reseting = false
  curRecvLen : l.client.curRecvLen = 0
  ops : l.client.ops = [.connect] ∨ l.client.ops = [.write] ∨
    l.client.ops = [.read 0 l.client.recvBuf.length]
  received : l.received = []

/-- **The invariant.** -/
inductive RelaysLine (e : Exchange) (base : List Byte) (s : Proxy) (i : ℕ) : Prop where
  | waiting (hup : s.conn.upClis = [i]) (howner : ∀ w ∈ s.conn.writes, w.memcli = none)
      (hline : unsentLines s.conn.writes = []) (hstream : s.conn.stream = base)
      (h : AwaitsLine (s.ups i) e.type)
  | told (howner : ∀ w ∈ s.conn.writes, w.memcli = none) (hops : (s.ups i).client.ops = [])
      (hreceived : (s.ups i).received = e.final) (h : LineQueued s.conn (base ++ e.final))

theorem nil_not_mem_knownLines (type : CmdType) : [] ∉ knownLines type := by
  cases type <;> decide

/-- The number of bytes tells the two lines of a command apart. -/
theorem handleCall_knownLine (c : ClientConnection) (i : ℕ) {u : UpstreamClient} (line : List Byte)
    (hline : line ∈ knownLines u.cmdType) (hlen : u.curRecvLen = line.length) :
    c.handleCall i u.handleLine = c.onLine line i := by
  unfold UpstreamClient.handleLine
  cases htype : u.cmdType with
  | set | append | delete =>
      rw [htype] at hline
      simp only [knownLines, List.mem_cons, List.not_mem_nil, or_false] at hline
      rcases hline with rfl | rfl
      · simp only [hlen, if_true]
        rfl
      · simp only [hlen]
        rfl
  | _ =>
      rw [htype] at hline
      cases hline

section Line

variable {e : Exchange} {base : List Byte} {s : Proxy} {i : ℕ}

/-- The line that a read completes is relayed. -/
theorem RelaysLine.done (h : RelaysLine e base s i) (htype : e.type ≠ .get) {k : ℕ} {bytes : List Byte}
    (hwell : ReadsWell e s i k bytes) : RelaysLine e base (s.done i k bytes) i := by
  rcases done_cases s i k bytes with hsame | ⟨op, hop, hbrings, hdone⟩
  · rw [hsame]
    exact h
  · cases h with
    | told howner hops hreceived h =>
        rw [hops] at hop
        cases hop
    | waiting hup howner hline hstream h =>
        obtain ⟨op', hops⟩ : ∃ op', (s.ups i).client.ops = [op'] := by
          rcases h.ops with hc | hw | hr
          exacts [⟨_, hc⟩, ⟨_, hw⟩, ⟨_, hr⟩]
        obtain ⟨rfl, herase⟩ := one_op hops hop
        rw [hdone, herase]
        cases op' with
        | connect =>
            have hnil : bytes = [] := by simpa [Proxy.brings] using hbrings
            refine .waiting hup howner hline hstream ?_
            show AwaitsLine (update s.ups i _ i) e.type
            rw [update_self, hnil, List.append_nil, h.received]
            exact ⟨h.type, h.reseting, h.curRecvLen, .inr (.inl rfl), rfl⟩
        | write =>
            have hnil : bytes = [] := by simpa [Proxy.brings] using hbrings
            refine .waiting hup howner hline hstream ?_
            show AwaitsLine (update s.ups i _ i) e.type
            rw [update_self, hnil, List.append_nil, h.received]
            refine ⟨h.type, h.reseting, h.curRecvLen, .inr (.inr ?_), rfl⟩
            show [SocketOp.read (s.ups i).client.curRecvLen
              ((s.ups i).client.recvBuf.length - (s.ups i).client.curRecvLen)] = _
            rw [h.curRecvLen]
            rfl
        | read offset room =>
            unfold ReadsWell at hwell
            simp only [hop, if_neg htype] at hwell
            obtain ⟨rfl, hknown⟩ := hwell
            have hhandled : ({ (s.ups i).client with ops := [] }.complete (.read offset room) e.final) =
                ({ (s.ups i).client.store offset e.final with
                    ops := [], curRecvLen := (s.ups i).client.curRecvLen + e.final.length },
                  UpstreamClient.handleLine { (s.ups i).client.store offset e.final with
                    ops := [], curRecvLen := (s.ups i).client.curRecvLen + e.final.length }) := by
              have htype' : (s.ups i).client.cmdType ≠ .get := by
                rw [h.type]
                exact htype
              simp [UpstreamClient.complete, UpstreamClient.handleRead, UpstreamClient.store,
                h.reseting, htype']
            rw [hhandled, handleCall_knownLine s.conn i e.final]
            · refine .told ?_ ?_ ?_ (.inr ⟨⟨none, e.final, e.final⟩, ?_, ?_⟩)
              · intro w hw
                have hw' : w ∈ s.conn.writes ++ [⟨none, e.final, e.final⟩] := by
                  simpa [ClientConnection.onLine, ClientConnection.asyncWrite] using hw
                rcases List.mem_append.mp hw' with hm | hm
                · exact howner w hm
                · rw [List.mem_singleton.mp hm]
              · show (update s.ups i _ i).client.ops = []
                rw [update_self]
              · show (update s.ups i _ i).received = e.final
                rw [update_self, h.received, List.nil_append]
              · have hne : e.final ≠ [] := fun hnil => nil_not_mem_knownLines e.type (hnil ▸ hknown)
                simp only [ClientConnection.onLine, ClientConnection.asyncWrite, checkRead_writes]
                rw [unsentLines_append, hline, unsentLines_cons_pos rfl hne]
                rfl
              · simp only [ClientConnection.onLine, ClientConnection.asyncWrite, checkRead_stream]
                rw [hstream]
            · show e.final ∈ knownLines (s.ups i).client.cmdType
              rw [h.type]
              exact hknown
            · show (s.ups i).client.curRecvLen + e.final.length = e.final.length
              rw [h.curRecvLen, Nat.zero_add]

/-- The socket takes bytes of the line. -/
theorem RelaysLine.taken (h : RelaysLine e base s i) (j n : ℕ) : RelaysLine e base (s.taken j n) i := by
  unfold Proxy.taken
  cases hget : s.conn.writes[j]? with
  | none => exact h
  | some w =>
      dsimp only
      split
      · next hn =>
          obtain ⟨l₁, l₂, hwrites, hset, -, -⟩ := exists_around hget
          have hw : w ∈ s.conn.writes := by
            rw [hwrites]
            simp
          have hrest : w.rest ≠ [] := by
            intro hnil
            rw [hnil] at hn
            exact absurd hn.2 (by simp; omega)
          rw [hset]
          cases h with
          | waiting hup howner hline hstream h =>
              rw [hwrites, unsentLines_append, unsentLines_cons_pos (howner w hw) hrest] at hline
              exact absurd (List.append_eq_nil_iff.mp hline).2 (List.cons_ne_nil _ _)
          | told howner hops hreceived h =>
              refine .told ?_ hops hreceived (h.taken hwrites (howner w hw) hrest n)
              intro v hv
              have hv' : v ∈ l₁ ++ { w with rest := w.rest.drop n } :: l₂ := hv
              rw [List.mem_append, List.mem_cons] at hv'
              rcases hv' with hm | rfl | hm
              · exact howner v (by rw [hwrites]; simp [hm])
              · exact howner w hw
              · exact howner v (by rw [hwrites]; simp [hm])
      · exact h

/-- The end of a write leaves what the client was sent. -/
theorem RelaysLine.written (h : RelaysLine e base s i) (j : ℕ) : RelaysLine e base (s.written j) i := by
  unfold Proxy.written
  cases hget : s.conn.writes[j]? with
  | none => exact h
  | some w =>
      dsimp only
      split
      · next hrest =>
          obtain ⟨l₁, l₂, hwrites, -, herase, -⟩ := exists_around hget
          have hunsent : unsentLines (l₁ ++ l₂) = unsentLines s.conn.writes := by
            rw [hwrites, unsentLines_append, unsentLines_append, unsentLines_cons_neg (.inr hrest)]
          have hsub : ∀ v ∈ l₁ ++ l₂, v ∈ s.conn.writes := by
            intro v hv
            rw [hwrites]
            rcases List.mem_append.mp hv with hm | hm
            · simp [hm]
            · simp [hm]
          have hw : w ∈ s.conn.writes := by
            rw [hwrites]
            simp
          rw [herase]
          cases h with
          | waiting hup howner hline hstream h =>
              rw [howner w hw]
              exact .waiting hup (fun v hv => howner v (hsub v hv)) (hunsent.trans hline) hstream h
          | told howner hops hreceived h =>
              rw [howner w hw]
              exact .told (fun v hv => howner v (hsub v hv)) hops hreceived (h.congr hunsent rfl)
      · exact h

theorem RelaysLine.step (h : RelaysLine e base s i) (htype : e.type ≠ .get) (hids : e.ids = [i])
    {cl : Clusters} {pool : ℕ → UpstreamClient} {a : Event} (hserved : Served e s a)
    (hwell : StepsWell e s a) : RelaysLine e base (s.step cl pool a) i := by
  cases a with
  | done j k bytes =>
      have hj : j = i := by
        have := hserved.1
        rwa [hids, List.mem_singleton] at this
      subst hj
      exact h.done htype hwell
  | taken j n => exact h.taken j n
  | written j => exact h.written j
  | failed | clientSent | expired | timeout => exact absurd hserved id

theorem Dispatched.relaysLine (h : Dispatched e s) (hids : e.ids = [i]) :
    RelaysLine e s.conn.stream s i := by
  obtain ⟨u, cmd, hidle, hlink⟩ := h.asked i (by rw [hids]; exact List.mem_singleton_self i)
  refine .waiting (h.upClis.trans hids) (fun w hw => (h.writes w hw).1) ?_ rfl ?_
  · refine List.filter_eq_nil_iff.mpr fun w hw => ?_
    simp [(h.writes w hw).2]
  · rw [hlink]
    refine ⟨rfl, hidle.reseting, rfl, ?_, rfl⟩
    have hops : (u.init e.type cmd).request.ops = [if u.socketErr then .connect else .write] := by
      simp [UpstreamClient.request, UpstreamClient.init, hidle.ops]
    show (u.init e.type cmd).request.ops = _ ∨ (u.init e.type cmd).request.ops = _ ∨ _
    rw [hops]
    cases u.socketErr with
    | true => exact .inl rfl
    | false => exact .inr (.inl rfl)

/-- A relayed line is a faithful answer. -/
theorem RelaysLine.faithful (h : RelaysLine e base s i) (hids : e.ids = [i])
    (hblocks : ∀ j, e.blocks j = []) : Faithful e base s := by
  have hmerge : IsMerge e.ids e.blocks [] :=
    ⟨fun p hp => absurd hp List.not_mem_nil, fun j _ => (hblocks j).symm⟩
  have hreply : ∀ j, e.reply j = e.final := fun j => by rw [Exchange.reply, hblocks]; rfl
  cases h with
  | waiting hup howner hline hstream h =>
      refine ⟨?_, ?_, [], _, ⟨hmerge, rfl⟩, ?_, ?_⟩
      · intro j hj
        rw [hids, List.mem_singleton] at hj
        subst hj
        rcases h.ops with hops | hops | hops
        · rw [hops]
          exact Nat.zero_le _
        · rw [hops]
          exact Nat.zero_le _
        · rw [hops]
          exact Nat.le_refl 1
      · intro j hj _
        rw [hids, List.mem_singleton] at hj
        subst hj
        refine .inl fun hnil => ?_
        rcases h.ops with hops | hops | hops
        · exact List.cons_ne_nil _ _ (hops.symm.trans hnil)
        · exact List.cons_ne_nil _ _ (hops.symm.trans hnil)
        · exact List.cons_ne_nil _ _ (hops.symm.trans hnil)
      · rw [hstream]
        exact List.prefix_append _ _
      · rintro ⟨hops, -⟩
        have hnil := hops i (by rw [hids]; exact List.mem_singleton_self i)
        rcases h.ops with hops | hops | hops
        · exact absurd (hops.symm.trans hnil) (List.cons_ne_nil _ _)
        · exact absurd (hops.symm.trans hnil) (List.cons_ne_nil _ _)
        · exact absurd (hops.symm.trans hnil) (List.cons_ne_nil _ _)
  | told howner hops hreceived h =>
      refine ⟨?_, ?_, [], _, ⟨hmerge, rfl⟩, h.prefix, fun hsettled => h.eq hsettled.2⟩
      · intro j hj
        rw [hids, List.mem_singleton] at hj
        subst hj
        rw [hops]
        exact Nat.zero_le _
      · intro j hj hne
        rw [hids, List.mem_singleton] at hj
        subst hj
        exact absurd (hreceived.trans (hreply j).symm) hne

end Line

/-! ## All commands -/

variable (cl : Clusters) (pool : ℕ → UpstreamClient)

/-- **Faithful relaying.** From the moment a command is given to its upstreams, where the blocks of
the answers are as short as the parser's `int`s can tell, in every run without a failure or a
timeout in which no read fills a buffer with a part of a block, one-line
answers are those the command has and are read whole, and the client's socket does not
leave a block unfinished for another write, the client is sent a merge of the blocks and the
last line, and every upstream reads its answer to the end, one read at a time. -/
theorem relays_faithfully (e : Exchange) (hfits : e.Fits) {s : Proxy} (h : Dispatched e s) {events : List Event}
    (hrun : StepsMeet (Proxy.step cl pool) (fun s a => Served e s a ∧ StepsWell e s a) s events) (k : ℕ) :
    Faithful e s.conn.stream (runOps (Proxy.step cl pool) s (events.take k)) := by
  rcases e.kind with ⟨htype, hfinal⟩ | ⟨htype, ⟨i, hids⟩, hblocks⟩
  · have hstep : ∀ s' a, (∃ order part todo left, RelaysGet e s.conn.stream s' order part todo left) →
        Served e s' a ∧ StepsWell e s' a →
        ∃ order part todo left,
          RelaysGet e s.conn.stream (Proxy.step cl pool s' a) order part todo left := by
      rintro s' a ⟨order, part, todo, left, hinv⟩ ⟨hserved, hwell⟩
      exact hinv.step htype hserved hwell
    obtain ⟨order, part, todo, left, hinv⟩ :=
      run_invariant_take hstep ⟨_, _, _, _, h.relaysGet hfits htype hfinal⟩ hrun k
    exact hinv.faithful
  · have hget : e.type ≠ .get := by
      rcases htype with ht | ht | ht <;> rw [ht] <;> decide
    have hstep : ∀ s' a, RelaysLine e s.conn.stream s' i → Served e s' a ∧ StepsWell e s' a →
        RelaysLine e s.conn.stream (Proxy.step cl pool s' a) i :=
      fun s' a hinv hmeets => hinv.step hget hids hmeets.1 hmeets.2
    exact (run_invariant_take hstep (h.relaysLine hids) hrun k).faithful hids hblocks

/-! ## Two runs -/

/-- A command has just been given to its upstreams, all alike. -/
def asked (e : Exchange) (u : UpstreamClient) : Proxy where
  conn := ⟨false, [], 0, e.type, e.ids, true, 0, [], [], [], []⟩
  ups := fun _ => ⟨(u.init e.type []).request, []⟩
  next := 0

theorem dispatched_asked (e : Exchange) {u : UpstreamClient} (hu : Idle u) : Dispatched e (asked e u) :=
  ⟨rfl, rfl, (fun _ hw => absurd hw List.not_mem_nil), fun _ _ => ⟨u, [], hu, rfl⟩⟩

theorem idle_new : Idle .new := by
  have hlen : UpstreamClient.new.recvBuf.length = UpstreamClient.baseSize := List.length_replicate
  exact ⟨rfl, rfl, hlen ▸ Nat.le_refl _, hlen ▸ by decide⟩

section Evaluation

attribute [local simp] asked StepsMeet runOps Proxy.step Proxy.done Proxy.handled Proxy.brings
  Proxy.readable Proxy.taken Proxy.written Proxy.handleWrite UpstreamClient.init
  UpstreamClient.request UpstreamClient.complete UpstreamClient.handleConnect
  UpstreamClient.handleWrite UpstreamClient.handleRead UpstreamClient.handleLine
  UpstreamClient.asyncRead UpstreamClient.store ClientConnection.handleCall
  ClientConnection.onStored ClientConnection.onLine ClientConnection.asyncWrite

variable {u : UpstreamClient}

def blockA : Block := ⟨ascii "a", 0, ascii "xy", by decide⟩

/-- Two upstreams have a block each. -/
def twoBlocks : Exchange where
  type := .get
  ids := [0, 1]
  blocks := fun _ => [blockA]
  final := endBuf
  asked := List.cons_ne_nil _ _
  nodup := by decide
  kind := .inl ⟨rfl, rfl⟩

theorem fits_twoBlocks : twoBlocks.Fits := by
  intro i _ b hb
  rw [List.mem_singleton.mp hb]
  decide

/-- Of the one answer ten bytes come first, the other comes at once. -/
def twoReads : List Event :=
  [.done 0 0 [], .done 1 0 [], .done 0 0 [], .done 1 0 [], .done 1 0 ((answer [blockA]).take 10),
    .done 0 0 (answer [blockA])]

theorem twoReads_meets (hu : Idle u) (herr : u.socketErr = true) :
    StepsMeet (Proxy.step cl pool) (fun s a => Served twoBlocks s a ∧ StepsWell twoBlocks s a)
      (asked twoBlocks u) twoReads := by
  have hlen : (answer [blockA]).length = 22 := by decide
  have hne : answer [blockA] ≠ [] := by decide
  have hsize := hu.recvBuf
  unfold UpstreamClient.baseSize at hsize
  have hten : 10 ≤ u.recvBuf.length := by omega
  have hall : 22 ≤ u.recvBuf.length := by omega
  have hreply : blockA.bytes ++ endBuf = answer [blockA] := by simp [answer]
  simp [twoReads, twoBlocks, Served, StepsWell, ReadsWell, HoldsWhole, Exchange.reply, hu.ops,
    hu.reseting, herr, hlen, hne, hten, hall, hreply, List.take_prefix]
  constructor
  · intro hfull
    omega
  · intro hfull
    omega

/-- Everything goes well in this run. -/
theorem relays_faithfully_twoReads :
    Faithful twoBlocks [] (runOps (Proxy.step (oneRing twoNodes) fun _ => .new) (asked twoBlocks .new)
      (twoReads.take 6)) :=
  relays_faithfully (oneRing twoNodes) (fun _ => .new) twoBlocks fits_twoBlocks (dispatched_asked twoBlocks idle_new)
    (twoReads_meets _ _ idle_new rfl) 6

def notStored : Exchange where
  type := .set
  ids := [0]
  blocks := fun _ => []
  final := notStoredBuf
  asked := List.cons_ne_nil _ _
  nodup := List.nodup_singleton _
  kind := .inr ⟨.inl rfl, ⟨0, rfl⟩, fun _ => rfl⟩

/-- The line `NOT_STORED` comes in two reads, of which the first has as many bytes as `STORED`. -/
def cutReply : List Event :=
  [.done 0 0 [], .done 0 0 [], .done 0 0 (notStoredBuf.take 8), .taken 0 8, .written 0]

theorem cutReply_run (hu : Idle u) (herr : u.socketErr = true) :
    StepsMeet (Proxy.step cl pool) (Served notStored) (asked notStored u) cutReply ∧
    let s := runOps (Proxy.step cl pool) (asked notStored u) cutReply
    s.conn.stream = storedBuf ∧ s.conn.writes = [] ∧ (s.ups 0).client.ops = [] ∧
      (s.ups 0).received = notStoredBuf.take 8 := by
  have hlen : notStoredBuf.length = 12 := rfl
  have hne : notStoredBuf ≠ [] := by decide
  have hstored : storedBuf.length = 8 := rfl
  have hdrop : storedBuf.drop 8 = [] := rfl
  have htake : storedBuf.take 8 = storedBuf := rfl
  have hsize := hu.recvBuf
  unfold UpstreamClient.baseSize at hsize
  have height : 8 ≤ u.recvBuf.length := by omega
  simp [cutReply, notStored, Served, Exchange.reply, List.take_prefix, hu.ops, hu.reseting, herr, hlen,
    hne, hstored, hdrop, htake, height]

end Evaluation

/-- The client is told `STORED`, and the rest of the answer is not read. -/
theorem stored_for_not_stored :
    ¬ ∀ (e : Exchange) (cl : Clusters) (pool : ℕ → UpstreamClient) (s : Proxy) (events : List Event),
      Dispatched e s → StepsMeet (Proxy.step cl pool) (Served e) s events →
      Faithful e s.conn.stream (runOps (Proxy.step cl pool) s events) := by
  intro hall
  obtain ⟨hserved, -, hwrites, hops, hreceived⟩ :=
    cutReply_run (oneRing twoNodes) (fun _ => .new) idle_new rfl
  have hfaithful := hall notStored _ _ (asked notStored .new) cutReply (dispatched_asked _ idle_new)
    hserved
  have hne : notStoredBuf.take 8 ≠ notStored.reply 0 := by decide
  rcases hfaithful.readsOn 0 (List.mem_singleton_self 0) (hreceived ▸ hne) with hbusy | ⟨w, hw, -⟩
  · exact hbusy hops
  · rw [hwrites] at hw
    cases hw

/-! ## What the conditions keep away -/

/-- A full buffer with a part of a block only makes an upstream read twice at a time. -/
theorem handleGet_full {u : UpstreamClient} (hpos : 0 < u.curRecvLen) (h : ¬ HoldsWhole u) :
    u.handleGet = (u.asyncRead.grow.asyncRead, none) ∧
      u.handleGet.1.ops.countP SocketOp.isRead = u.ops.countP SocketOp.isRead + 2 := by
  unfold HoldsWhole at h
  push Not at h
  obtain ⟨hfull, hmore⟩ := h
  have hparse : UpstreamClient.parseReplies u.recvBuf u.curRecvLen = .upTo 0 false := by
    unfold UpstreamClient.parseReplies UpstreamClient.parseLoop
    rw [if_neg (by omega)]
    simp only [List.drop_zero, Nat.sub_zero, hmore]
  have hget : u.handleGet = (u.asyncRead.grow.asyncRead, none) := by
    unfold UpstreamClient.handleGet UpstreamClient.readMore
    rw [hparse]
    simp only [if_pos hfull]
  refine ⟨hget, ?_⟩
  rw [hget]
  simp only [UpstreamClient.asyncRead, UpstreamClient.grow, List.countP_append]
  rfl

/-- A part of a line is not read on, unless it is as long as one of the command's lines. -/
theorem handleRead_partLine {u : UpstreamClient} (hreset : u.reseting = false) (htype : u.cmdType ≠ .get)
    {n : ℕ} (h : ∀ line ∈ knownLines u.cmdType, u.curRecvLen + n ≠ line.length) :
    u.handleRead n = ({ u with curRecvLen := u.curRecvLen + n }, none) := by
  have hline : UpstreamClient.handleLine { u with curRecvLen := u.curRecvLen + n } = none := by
    unfold UpstreamClient.handleLine
    cases hcmd : u.cmdType with
    | set | append | delete =>
        simp only [knownLines, hcmd, List.mem_cons, List.not_mem_nil, or_false, forall_eq_or_imp,
          forall_eq] at h
        simp only [if_neg h.1, if_neg h.2]
    | _ => rfl
  unfold UpstreamClient.handleRead
  rw [if_neg (by rw [hreset]; exact Bool.false_ne_true)]
  dsimp only
  rw [if_neg htype, hline]

end Oce.MemcProxy
