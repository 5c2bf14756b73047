import Oce.MemcProxy.Analysis.ClientWrites
import Oce.MemcProxy.Analysis.UpstreamSteps

/-!
# The answers to a get

Every upstream of the exchange waits, hands blocks over or is through, and the blocks of its
answer are split three ways: those that the client's socket has begun with, those handed over
that it has not, and those that are not handed over yet. At most one block has been sent in
part, and what the client has been sent lacks the rest of that block only.
-/

set_option autoImplicit false

namespace Oce.MemcProxy

open Function Oce.Base

variable {w : ClientWrite} {c : ClientConnection} {i k j : ℕ} {l : Link} {p : List Byte}
  {t f : List Block} {l₁ l₂ : List ClientWrite}

/-- How an upstream and the writes of its blocks stand, given the rest of the block that is being
sent, the blocks that are handed over and not begun, and those to come. -/
inductive LinkOk (up : Prop) (ws : List ClientWrite) (l : Link) (reply : List Byte) :
    List Byte → List Block → List Block → Prop where
  | awaits {left : List Block} (hup : up) (hws : ws = []) (h : Awaits l reply left) :
      LinkOk up ws l reply [] [] left
  | hands {w : ClientWrite} {part : List Byte} (sent : List Block) {todo left : List Block} (hup : up)
      (hws : ws = [w]) (hbytes : w.bytes = blocksBytes (sent ++ todo)) (hsuffix : w.rest <:+ w.bytes)
      (hrest : w.rest = part ++ blocksBytes todo) (hpart : PartOf part sent)
      (h : Hands l reply (sent ++ todo) left) : LinkOk up ws l reply part todo left
  | ended (hup : ¬up) (hws : ws = []) (h : Over l reply) : LinkOk up ws l reply [] [] []

section LinkOk

variable {up : Prop} {ws : List ClientWrite} {l : Link} {reply part : List Byte} {todo left : List Block}

/-- An upstream that is off the list is through. -/
theorem LinkOk.through (h : LinkOk up ws l reply part todo left) (hup : ¬up) :
    part = [] ∧ todo = [] ∧ left = [] ∧ Over l reply := by
  cases h with
  | awaits h => exact absurd h hup
  | hands sent h => exact absurd h hup
  | ended hup hws h => exact ⟨rfl, rfl, rfl, h⟩

/-- An upstream with something under way waits for its answer. -/
theorem LinkOk.waiting (h : LinkOk up ws l reply part todo left) (hops : l.client.ops ≠ []) :
    up ∧ ws = [] ∧ part = [] ∧ todo = [] ∧ Awaits l reply left := by
  cases h with
  | awaits hup hws h => exact ⟨hup, hws, rfl, rfl, h⟩
  | hands sent hup hws hbytes hsuffix hrest hpart h => exact absurd h.ops hops
  | ended hup hws h => exact absurd h.ops hops

/-- An upstream on the list has something under way, or the client has on its behalf. -/
theorem LinkOk.busy (h : LinkOk up ws l reply part todo left) (hup : up) :
    l.client.ops ≠ [] ∨ ws ≠ [] := by
  cases h with
  | awaits hup' hws h =>
      refine .inl fun hnil => ?_
      rcases h.ops with hr | ⟨-, hc | hw⟩
      · exact List.cons_ne_nil _ _ (hr.symm.trans hnil)
      · exact List.cons_ne_nil _ _ (hc.symm.trans hnil)
      · exact List.cons_ne_nil _ _ (hw.symm.trans hnil)
  | hands sent hup' hws hbytes hsuffix hrest hpart h => exact .inr (hws ▸ List.cons_ne_nil _ _)
  | ended hup' => exact absurd hup hup'

/-- A write of an upstream is that of the blocks which it has handed over. -/
theorem LinkOk.handed (h : LinkOk up ws l reply part todo left) (hw : w ∈ ws) :
    up ∧ ws = [w] ∧ ∃ sent, w.bytes = blocksBytes (sent ++ todo) ∧ w.rest <:+ w.bytes ∧
      w.rest = part ++ blocksBytes todo ∧ PartOf part sent ∧ Hands l reply (sent ++ todo) left := by
  cases h with
  | awaits hup hws h =>
      rw [hws] at hw
      cases hw
  | hands sent hup hws hbytes hsuffix hrest hpart h =>
      rw [hws] at hw
      cases List.mem_singleton.mp hw
      exact ⟨hup, hws, _, hbytes, hsuffix, hrest, hpart, h⟩
  | ended hup hws h =>
      rw [hws] at hw
      cases hw

end LinkOk

/-- What the client has been sent: all that has been begun, but for the rest of one block; or all
blocks and the last line, as far as that has left. -/
inductive Sent (e : Exchange) (base : List Byte) (c : ClientConnection) (order : List (ℕ × Block))
    (part : ℕ → List Byte) : Prop where
  | blocks {k : ℕ} (hup : c.upClis ≠ []) (hend : c.wroteEnd = false) (hline : unsentLines c.writes = [])
      (hk : k ∈ e.ids) (hpart : ∀ i ∈ e.ids, i ≠ k → part i = [])
      (h : c.stream ++ part k = base ++ blocksBytes (order.map Prod.snd))
  | line (hup : c.upClis = [])
      (h : LineQueued c (base ++ (blocksBytes (order.map Prod.snd) ++ e.final)))

/-- Everything but the upstreams themselves. -/
structure Books (e : Exchange) (base : List Byte) (s : Proxy) (order : List (ℕ × Block))
    (part : ℕ → List Byte) (todo left : ℕ → List Block) : Prop where
  final : e.final = endBuf
  nodup : s.conn.upClis.Nodup
  up : ∀ i ∈ s.conn.upClis, i ∈ e.ids
  owner : ∀ w ∈ s.conn.writes, ∀ i, w.memcli = some i → i ∈ e.ids
  mem : ∀ p ∈ order, p.1 ∈ e.ids
  parts : ∀ i ∈ e.ids, ofSource i order ++ (todo i ++ left i) = e.blocks i
  sent : Sent e base s.conn order part

def LinkAt (e : Exchange) (s : Proxy) (part : ℕ → List Byte) (todo left : ℕ → List Block) (i : ℕ) :
    Prop :=
  LinkOk (i ∈ s.conn.upClis) (writesOf i s.conn.writes) (s.ups i) (e.reply i) (part i) (todo i) (left i)

/-- **The invariant.** -/
structure RelaysGet (e : Exchange) (base : List Byte) (s : Proxy) (order : List (ℕ × Block))
    (part : ℕ → List Byte) (todo left : ℕ → List Block) : Prop where
  books : Books e base s order part todo left
  links : ∀ i ∈ e.ids, LinkAt e s part todo left i

/-! ## What the upstreams call -/

@[simp] theorem checkRead_upClis (c : ClientConnection) (b : Bool) : (c.checkRead b).upClis = c.upClis := by
  unfold ClientConnection.checkRead
  split_ifs <;> rfl

@[simp] theorem checkRead_wroteEnd (c : ClientConnection) (b : Bool) :
    (c.checkRead b).wroteEnd = c.wroteEnd := by
  unfold ClientConnection.checkRead
  split_ifs <;> rfl

@[simp] theorem checkRead_writes (c : ClientConnection) (b : Bool) : (c.checkRead b).writes = c.writes := by
  unfold ClientConnection.checkRead
  split_ifs <;> rfl

@[simp] theorem checkRead_stream (c : ClientConnection) (b : Bool) : (c.checkRead b).stream = c.stream := by
  unfold ClientConnection.checkRead
  split_ifs <;> rfl

/-- An upstream that is not the last one is taken off the list. -/
theorem onEnd_more (h : c.upClis.erase i ≠ []) :
    c.onEnd i = { c with upClis := c.upClis.erase i } := by
  unfold ClientConnection.onEnd
  exact if_neg h

/-- The last upstream's end is the end of the answer. -/
theorem onEnd_last (h : c.upClis.erase i = []) (hend : c.wroteEnd = false) :
    (c.onEnd i).upClis = [] ∧ (c.onEnd i).writes = c.writes ++ [⟨none, endBuf, endBuf⟩] ∧
      (c.onEnd i).stream = c.stream := by
  unfold ClientConnection.onEnd
  simp [h, hend, ClientConnection.asyncWrite]

variable {e : Exchange} {base : List Byte} {s : Proxy} {order : List (ℕ × Block)}
  {part : ℕ → List Byte} {todo left : ℕ → List Block}

/-- An upstream's state, put together from its parts. -/
theorem LinkAt.intro (ws : List ClientWrite) (hws : writesOf i s.conn.writes = ws)
    (hlink : s.ups i = l) (hpart : part i = p) (htodo : todo i = t) (hleft : left i = f)
    (h : LinkOk (i ∈ s.conn.upClis) ws l (e.reply i) p t f) : LinkAt e s part todo left i := by
  unfold LinkAt
  rw [hws, hlink, hpart, htodo, hleft]
  exact h

/-- An upstream that an event does not touch. -/
theorem LinkAt.congr {s' : Proxy} {part' : ℕ → List Byte} {todo' left' : ℕ → List Block}
    (h : LinkAt e s part todo left i) (hup : i ∈ s'.conn.upClis ↔ i ∈ s.conn.upClis)
    (hws : writesOf i s'.conn.writes = writesOf i s.conn.writes) (hlink : s'.ups i = s.ups i)
    (hpart : part' i = part i) (htodo : todo' i = todo i) (hleft : left' i = left i) :
    LinkAt e s' part' todo' left' i := by
  unfold LinkAt
  rw [hws, hlink, hpart, htodo, hleft, hup]
  exact h

section Handled

variable {i : ℕ} {l : Link} (hb : Books e base s order part todo left)
  (hlinks : ∀ j ∈ e.ids, j ≠ i → LinkAt e s part todo left j)

include hb hlinks

/-- The upstream reads on. -/
theorem Books.reads_on (hup : i ∈ s.conn.upClis) (hws : writesOf i s.conn.writes = [])
    (hpart : part i = []) (htodo : todo i = []) (h : Awaits l (e.reply i) (left i)) :
    RelaysGet e base { s with ups := update s.ups i l } order part todo left := by
  refine ⟨⟨hb.final, hb.nodup, hb.up, hb.owner, hb.mem, hb.parts, hb.sent⟩, ?_⟩
  intro j hj
  by_cases hji : j = i
  · subst hji
    exact .intro _ hws (update_self _ _ _) hpart htodo rfl (.awaits hup rfl h)
  · exact (hlinks j hj hji).congr Iff.rfl rfl (update_of_ne hji _ _) rfl rfl rfl

/-- The upstream hands blocks over. -/
theorem Books.hands_over (hi : i ∈ e.ids) (hup : i ∈ s.conn.upClis)
    (hws : writesOf i s.conn.writes = []) (hpart : part i = []) (htodo : todo i = [])
    {group left' : List Block} (hleft : left i = group ++ left') (h : Hands l (e.reply i) group left') :
    RelaysGet e base
      { s with
        conn := s.conn.onRecv (blocksBytes group) i
        ups := update s.ups i l }
      order part (update todo i group) (update left i left') := by
  have hnew : writesOf i [⟨some i, blocksBytes group, blocksBytes group⟩] =
      [⟨some i, blocksBytes group, blocksBytes group⟩] := writesOf_cons_self rfl []
  refine ⟨⟨hb.final, hb.nodup, hb.up, ?_, hb.mem, ?_, ?_⟩, ?_⟩
  · intro w hw j hj
    rcases List.mem_append.mp hw with hw | hw
    · exact hb.owner w hw j hj
    · cases List.mem_singleton.mp hw
      cases hj
      exact hi
  · intro j hj
    have hparts := hb.parts j hj
    by_cases hji : j = i
    · subst hji
      rw [htodo, List.nil_append, hleft] at hparts
      rwa [update_self, update_self]
    · rwa [update_of_ne hji, update_of_ne hji]
  · cases hb.sent with
    | blocks hne hend hline hk hothers hs =>
        refine .blocks hne hend ?_ hk hothers hs
        show unsentLines (s.conn.writes ++ _) = []
        rw [unsentLines_append, hline, unsentLines_cons_neg (.inl (Option.some_ne_none i))]
        rfl
    | line hnil hs =>
        rw [hnil] at hup
        cases hup
  · intro j hj
    by_cases hji : j = i
    · subst hji
      refine .intro [⟨some j, blocksBytes group, blocksBytes group⟩] ?_
        (update_self _ _ _) hpart (update_self _ _ _) (update_self _ _ _)
        (.hands [] hup rfl rfl List.suffix_rfl rfl (.inl rfl) h)
      show writesOf j (s.conn.writes ++ _) = _
      rw [writesOf_append, hws, hnew]
      rfl
    · refine (hlinks j hj hji).congr Iff.rfl ?_ (update_of_ne hji _ _) rfl
        (update_of_ne hji _ _) (update_of_ne hji _ _)
      show writesOf j (s.conn.writes ++ _) = _
      have hne : some i ≠ some j := fun he => hji (Option.some.inj he).symm
      rw [writesOf_append, writesOf_cons_ne hne, writesOf, writesOf, List.filter_nil, List.append_nil]

/-- The upstream is through; the last one's end is the end of the whole answer. -/
theorem Books.ends (hi : i ∈ e.ids) (hup : i ∈ s.conn.upClis)
    (hws : writesOf i s.conn.writes = []) (hpart : part i = []) (htodo : todo i = [])
    (hleft : left i = []) (h : Over l (e.reply i)) :
    RelaysGet e base { s with conn := s.conn.onEnd i, ups := update s.ups i l }
      order part todo left := by
  have hgone : i ∉ s.conn.upClis.erase i := hb.nodup.not_mem_erase
  have hlink : ∀ c : ClientConnection, c.upClis = s.conn.upClis.erase i →
      (∀ j, writesOf j c.writes = writesOf j s.conn.writes) →
      ∀ j ∈ e.ids, LinkAt e { s with conn := c, ups := update s.ups i l } part todo left j := by
    intro c hc hw j hj
    by_cases hji : j = i
    · subst hji
      refine .intro _ ((hw j).trans hws) (update_self _ _ _) hpart htodo hleft (.ended ?_ rfl h)
      show j ∉ c.upClis
      rw [hc]
      exact hgone
    · refine (hlinks j hj hji).congr ?_ (hw j) (update_of_ne hji _ _) rfl rfl rfl
      show j ∈ c.upClis ↔ j ∈ s.conn.upClis
      rw [hc]
      exact List.mem_erase_of_ne hji
  obtain ⟨k, hend, hline, hk, hothers, hs⟩ : ∃ k, s.conn.wroteEnd = false ∧
      unsentLines s.conn.writes = [] ∧ k ∈ e.ids ∧ (∀ i ∈ e.ids, i ≠ k → part i = []) ∧
      s.conn.stream ++ part k = base ++ blocksBytes (order.map Prod.snd) := by
    cases hb.sent with
    | blocks hne hend hline hk hothers hs => exact ⟨_, hend, hline, hk, hothers, hs⟩
    | line hnil hs =>
        rw [hnil] at hup
        cases hup
  by_cases herase : s.conn.upClis.erase i = []
  · obtain ⟨hnil, hwrites, hstream⟩ := onEnd_last herase hend
    have hwritesOf : ∀ j, writesOf j (s.conn.onEnd i).writes = writesOf j s.conn.writes := by
      intro j
      have hne : (none : Option ℕ) ≠ some j := by simp
      rw [hwrites, writesOf_append, writesOf_cons_ne hne]
      simp [writesOf]
    have hall := hlink _ (hnil.trans herase.symm) hwritesOf
    have hkpart : part k = [] := by
      have hkup : k ∉ (s.conn.onEnd i).upClis := by
        rw [hnil]
        exact List.not_mem_nil
      exact ((hall k hk).through hkup).1
    refine ⟨⟨hb.final, ?_, ?_, ?_, hb.mem, hb.parts, .line hnil (.inr ⟨⟨none, endBuf, endBuf⟩, ?_, ?_⟩)⟩,
      hall⟩
    · show (s.conn.onEnd i).upClis.Nodup
      rw [hnil]
      exact List.nodup_nil
    · intro j hj
      rw [hnil] at hj
      cases hj
    · intro w hw j hj
      rw [hwrites] at hw
      rcases List.mem_append.mp hw with hw | hw
      · exact hb.owner w hw j hj
      · cases List.mem_singleton.mp hw
        cases hj
    · rw [hwrites, unsentLines_append, hline]
      rfl
    · rw [hkpart, List.append_nil] at hs
      show (s.conn.onEnd i).stream ++ endBuf = _
      rw [hstream, hs, hb.final, List.append_assoc]
  · rw [onEnd_more herase]
    exact ⟨⟨hb.final, hb.nodup.erase i, fun j hj => hb.up j (List.mem_of_mem_erase hj), hb.owner,
      hb.mem, hb.parts, .blocks herase hend hline hk hothers hs⟩, hlink _ rfl fun _ => rfl⟩

/-- **What an upstream's handler makes of the whole.** Upstream `i` has nothing handed over; it reads
on, hands over blocks or is through. -/
theorem Books.handled (hi : i ∈ e.ids) (hup : i ∈ s.conn.upClis)
    (hws : writesOf i s.conn.writes = []) (hpart : part i = []) (htodo : todo i = [])
    {call : Option HandleCall} (h : ReadOutcome (e.reply i) (left i) l call) :
    ∃ todo' left', RelaysGet e base
      { s with conn := s.conn.handleCall i call, ups := update s.ups i l }
      order part todo' left' := by
  generalize hl : left i = lefti at h
  cases h with
  | more h => exact ⟨_, _, hb.reads_on hlinks hup hws hpart htodo (hl ▸ h)⟩
  | blocks hleft h => exact ⟨_, _, hb.hands_over hlinks hi hup hws hpart htodo (hl.trans hleft) h⟩
  | last hleft h => exact ⟨_, _, hb.ends hlinks hi hup hws hpart htodo (hl.trans hleft) h⟩

end Handled

/-! ## The events -/

/-- The end of an upstream's operation: nothing, or the operation's handler. -/
theorem done_cases (s : Proxy) (i k : ℕ) (bytes : List Byte) :
    s.done i k bytes = s ∨
    ∃ op, (s.ups i).client.ops[k]? = some op ∧ Proxy.brings op bytes = true ∧
      s.done i k bytes =
        { s with
          conn := s.conn.handleCall i
            ({ (s.ups i).client with ops := (s.ups i).client.ops.eraseIdx k }.complete op bytes).2
          ups := update s.ups i
            ⟨({ (s.ups i).client with ops := (s.ups i).client.ops.eraseIdx k }.complete op bytes).1,
              (s.ups i).received ++ bytes⟩ } := by
  unfold Proxy.done
  cases hop : (s.ups i).client.ops[k]? with
  | none =>
      refine .inl ?_
      simp only [hop]
  | some op =>
      by_cases hbrings : Proxy.brings op bytes = true
      · refine .inr ⟨op, rfl, hbrings, ?_⟩
        simp only [hop, hbrings, if_true, Proxy.handled, update_idem, update_self]
      · refine .inl ?_
        simp only [hop, hbrings]
        rfl

/-- A socket with one operation under way. -/
theorem one_op {ops : List SocketOp} {op op' : SocketOp} (hops : ops = [op'])
    (hk : ops[k]? = some op) : op' = op ∧ ops.eraseIdx k = [] := by
  subst hops
  cases k with
  | zero =>
      cases hk
      exact ⟨rfl, rfl⟩
  | succ k => cases hk

/-- A read of the answer is relayed. -/
theorem RelaysGet.done (h : RelaysGet e base s order part todo left) (htype : e.type = .get)
    {bytes : List Byte} (hi : i ∈ e.ids) (hserved : (s.ups i).received ++ bytes <+: e.reply i)
    (hwell : ReadsWell e s i k bytes) :
    ∃ todo' left', RelaysGet e base (s.done i k bytes) order part todo' left' := by
  rcases done_cases s i k bytes with hsame | ⟨op, hop, hbrings, hdone⟩
  · rw [hsame]
    exact ⟨_, _, h⟩
  · have hne : (s.ups i).client.ops ≠ [] := by
      intro hnil
      rw [hnil] at hop
      cases hop
    obtain ⟨hup, hws, hpart, htodo, hawaits⟩ := (h.links i hi).waiting hne
    obtain ⟨op', hops⟩ : ∃ op', (s.ups i).client.ops = [op'] := by
      rcases hawaits.ops with hr | ⟨-, hc | hw⟩
      exacts [⟨_, hr⟩, ⟨_, hc⟩, ⟨_, hw⟩]
    obtain ⟨rfl, herase⟩ := one_op hops hop
    rw [hdone, herase]
    refine h.books.handled (fun j hj _ => h.links j hj) hi hup hws hpart htodo ?_
    refine hawaits.complete hops hbrings hserved ?_
    intro offset room hread
    unfold ReadsWell at hwell
    simpa only [hop, hread, htype, if_true] using hwell

/-- What a write has sent lacks the rest of the block that is being sent. -/
theorem LinkOk.sent_append {up : Prop} {ws : List ClientWrite} {reply : List Byte}
    (h : LinkOk up ws l reply p t f) (hw : w ∈ ws) :
    ∃ begun, w.sent ++ p = blocksBytes begun ∧ PartOf p begun := by
  obtain ⟨-, -, begun, hbytes, ⟨pre, hpre⟩, hrest, hpart, -⟩ := h.handed hw
  refine ⟨begun, ?_, hpart⟩
  have hsent : w.sent = pre := by
    unfold ClientWrite.sent
    rw [← hpre, List.length_append, Nat.add_sub_cancel, List.take_left]
  rw [hsent]
  rw [← hpre, hrest, blocksBytes_append, ← List.append_assoc] at hbytes
  exact List.append_cancel_right hbytes

/-- While the socket takes bytes of one write, no other block is cut. -/
theorem RelaysGet.part_eq_nil (h : RelaysGet e base s order part todo left)
    (hwell : TakesWell s j)
    (haround : ∀ v, v ∈ l₁ ∨ v ∈ l₂ → ∃ j', j' ≠ j ∧ s.conn.writes[j']? = some v)
    (hwrites : s.conn.writes = l₁ ++ w :: l₂) (hi : i ∈ e.ids) (hne : w.memcli ≠ some i) :
    part i = [] := by
  cases hws : writesOf i s.conn.writes with
  | nil =>
      have hlink := h.links i hi
      unfold LinkAt at hlink
      rw [hws] at hlink
      generalize part i = p at hlink
      generalize todo i = t at hlink
      generalize left i = f at hlink
      cases hlink with
      | awaits => rfl
      | hands sent hup hws' => cases hws'
      | ended => rfl
  | cons v ws =>
      have hv : v ∈ writesOf i s.conn.writes := by
        rw [hws]
        exact List.mem_cons_self
      obtain ⟨hmem, howner⟩ := mem_writesOf.mp hv
      have hother : v ∈ l₁ ∨ v ∈ l₂ := by
        rw [hwrites, List.mem_append, List.mem_cons] at hmem
        rcases hmem with hm | rfl | hm
        · exact .inl hm
        · exact absurd howner hne
        · exact .inr hm
      obtain ⟨j', hj', hget⟩ := haround v hother
      obtain ⟨whole, hwhole⟩ := hwell j' v hj' hget
      obtain ⟨begun, hbegun, hpart⟩ := (h.links i hi).sent_append hv
      rw [hwhole] at hbegun
      exact hpart.eq_nil hbegun.symm

/-- The socket takes bytes of an upstream's blocks. -/
theorem RelaysGet.taken_blocks (h : RelaysGet e base s order part todo left)
    (hwrites : s.conn.writes = l₁ ++ w :: l₂) (howner : w.memcli = some i)
    (hothers : ∀ j ∈ e.ids, j ≠ i → part j = []) (n : ℕ) :
    ∃ order' part' todo', RelaysGet e base
      { s with conn := { s.conn with
          writes := l₁ ++ { w with rest := w.rest.drop n } :: l₂
          stream := s.conn.stream ++ w.rest.take n } } order' part' todo' left := by
  have hw : w ∈ s.conn.writes := by
    rw [hwrites]
    simp
  have hi := h.books.owner w hw i howner
  have hmine : w ∈ writesOf i s.conn.writes := mem_writesOf.mpr ⟨hw, howner⟩
  obtain ⟨hup, hws, sent, hbytes, hsuffix, hrest, hpart, hhands⟩ := (h.links i hi).handed hmine
  obtain ⟨begun, todo', part', htodo, hdrop, htake, hpart'⟩ := drop_part hpart (todo i) n
  rw [← hrest] at hdrop htake
  have hsplit : sent ++ todo i = (sent ++ begun) ++ todo' := by rw [htodo, List.append_assoc]
  refine ⟨order ++ begun.map (fun b => (i, b)), update part i part',
    update todo i todo', ⟨h.books.final, h.books.nodup, h.books.up, ?_, ?_, ?_, ?_⟩, ?_⟩
  · intro v hv j hj
    have hv' : v ∈ l₁ ++ { w with rest := w.rest.drop n } :: l₂ := hv
    rw [List.mem_append, List.mem_cons] at hv'
    rcases hv' with hm | rfl | hm
    · exact h.books.owner v (by rw [hwrites]; simp [hm]) j hj
    · exact h.books.owner w hw j hj
    · exact h.books.owner v (by rw [hwrites]; simp [hm]) j hj
  · intro p hp
    rcases List.mem_append.mp hp with hp | hp
    · exact h.books.mem p hp
    · obtain ⟨b, -, rfl⟩ := List.mem_map.mp hp
      exact hi
  · intro j hj
    have hparts := h.books.parts j hj
    by_cases hji : j = i
    · subst hji
      rw [ofSource_append, ofSource_map_self, update_self, ← hparts, htodo]
      simp only [List.append_assoc]
    · rw [ofSource_append, ofSource_map_of_ne (Ne.symm hji), List.append_nil,
        update_of_ne hji]
      exact hparts
  · cases h.books.sent with
    | @blocks k hne hend hline hk hkothers hs =>
        have hstream : s.conn.stream ++ part i = base ++ blocksBytes (order.map Prod.snd) := by
          by_cases hki : i = k
          · rw [hki]
            exact hs
          · rw [hkothers i hi hki, ← hothers k hk (Ne.symm hki)]
            exact hs
        refine .blocks (k := i) hne hend ?_ hi ?_ ?_
        · have hnone : w.memcli ≠ none := by
            rw [howner]
            exact Option.some_ne_none i
          rw [hwrites, unsentLines_append, unsentLines_cons_neg (.inl hnone)] at hline
          show unsentLines (l₁ ++ _) = []
          rw [unsentLines_append,
            unsentLines_cons_neg (w := { w with rest := w.rest.drop n }) (.inl hnone)]
          exact hline
        · intro j hj hji
          rw [update_of_ne hji]
          exact hothers j hj hji
        · rw [update_self, List.map_append, List.map_map]
          have hid : (Prod.snd ∘ fun b : Block => (i, b)) = id := rfl
          rw [hid, List.map_id, blocksBytes_append, ← List.append_assoc, ← hstream]
          show s.conn.stream ++ w.rest.take n ++ part' = _
          rw [List.append_assoc, htake, List.append_assoc]
    | line hnil hs =>
        rw [hnil] at hup
        cases hup
  · intro j hj
    by_cases hji : j = i
    · subst hji
      rw [hwrites, writesOf_append, writesOf_cons_self howner] at hws
      obtain ⟨h₁, h₂, -⟩ := append_cons_eq_singleton hws
      refine .intro [{ w with rest := w.rest.drop n }] ?_ rfl (update_self _ _ _)
        (update_self _ _ _) rfl (.hands (sent ++ begun) hup rfl ?_ ?_ hdrop hpart' ?_)
      · show writesOf j (l₁ ++ _) = _
        rw [writesOf_append, writesOf_cons_self (w := { w with rest := w.rest.drop n }) howner, h₁, h₂,
          List.nil_append]
      · rw [← hsplit]
        exact hbytes
      · exact (List.drop_suffix n w.rest).trans hsuffix
      · rw [← hsplit]
        exact hhands
    · have hne : w.memcli ≠ some j := by
        rw [howner]
        exact fun he => hji (Option.some.inj he).symm
      refine (h.links j hj).congr Iff.rfl ?_ rfl (update_of_ne hji _ _)
        (update_of_ne hji _ _) rfl
      show writesOf j (l₁ ++ _) = _
      rw [hwrites, writesOf_append, writesOf_append, writesOf_cons_ne hne,
        writesOf_cons_ne (w := { w with rest := w.rest.drop n }) hne]

/-- The socket takes bytes of one write. -/
theorem RelaysGet.taken (h : RelaysGet e base s order part todo left) {n : ℕ}
    (hwell : TakesWell s j) :
    ∃ order' part' todo', RelaysGet e base (s.taken j n) order' part' todo' left := by
  unfold Proxy.taken
  cases hget : s.conn.writes[j]? with
  | none => exact ⟨_, _, _, h⟩
  | some w =>
      dsimp only
      split
      · next hn =>
          obtain ⟨l₁, l₂, hwrites, hset, -, haround⟩ := exists_around hget
          rw [hset]
          cases howner : w.memcli with
          | some i =>
              have hothers : ∀ j ∈ e.ids, j ≠ i → part j = [] := by
                intro j hj hji
                refine h.part_eq_nil hwell haround hwrites hj ?_
                rw [howner]
                exact fun he => hji (Option.some.inj he).symm
              rw [← howner]
              exact h.taken_blocks hwrites howner hothers n
          | none =>
              have hrest : w.rest ≠ [] := by
                intro hnil
                rw [hnil] at hn
                exact absurd hn.2 (by simp; omega)
              rw [← howner]
              have hws : ∀ i, writesOf i (l₁ ++ { w with rest := w.rest.drop n } :: l₂) =
                  writesOf i s.conn.writes := by
                intro i
                have hne : w.memcli ≠ some i := by simp [howner]
                rw [hwrites, writesOf_append, writesOf_append, writesOf_cons_ne hne,
                  writesOf_cons_ne (w := { w with rest := w.rest.drop n }) hne]
              refine ⟨order, part, todo, ⟨h.books.final, h.books.nodup, h.books.up, ?_, h.books.mem,
                h.books.parts, ?_⟩, fun i hi => (h.links i hi).congr Iff.rfl (hws i) rfl rfl rfl rfl⟩
              · intro v hv i hi
                have hv' : v ∈ writesOf i (l₁ ++ { w with rest := w.rest.drop n } :: l₂) :=
                  mem_writesOf.mpr ⟨hv, hi⟩
                rw [hws i] at hv'
                exact h.books.owner v (mem_writesOf.mp hv').1 i hi
              · cases h.books.sent with
                | blocks hne hend hline hk hothers hs =>
                    rw [hwrites, unsentLines_append, unsentLines_cons_pos howner hrest] at hline
                    exact absurd (List.append_eq_nil_iff.mp hline).2 (List.cons_ne_nil _ _)
                | line hnil hs => exact .line hnil (hs.taken hwrites howner hrest n)
      · exact ⟨_, _, _, h⟩

theorem blocksBytes_eq_nil {l : List Block} (h : blocksBytes l = []) : l = [] := by
  cases l with
  | nil => rfl
  | cons b l => exact absurd (List.append_eq_nil_iff.mp h).1 b.bytes_ne_nil

/-- The end of a write leaves what the client was sent. -/
theorem RelaysGet.written (h : RelaysGet e base s order part todo left) (j : ℕ) :
    ∃ todo' left', RelaysGet e base (s.written j) order part todo' left' := by
  unfold Proxy.written
  cases hget : s.conn.writes[j]? with
  | none => exact ⟨_, _, h⟩
  | some w =>
      dsimp only
      split
      · next hrest =>
          obtain ⟨l₁, l₂, hwrites, -, herase, -⟩ := exists_around hget
          rw [herase]
          have hline : unsentLines (l₁ ++ l₂) = unsentLines s.conn.writes := by
            rw [hwrites, unsentLines_append, unsentLines_append, unsentLines_cons_neg (.inr hrest)]
          have hws : ∀ i, w.memcli ≠ some i → writesOf i (l₁ ++ l₂) = writesOf i s.conn.writes := by
            intro i hne
            rw [hwrites, writesOf_append, writesOf_append, writesOf_cons_ne hne]
          have hbooks : Books e base { s with conn := { s.conn with writes := l₁ ++ l₂ } } order part
              todo left := by
            refine ⟨h.books.final, h.books.nodup, h.books.up, ?_, h.books.mem, h.books.parts, ?_⟩
            · intro v hv i hi
              refine h.books.owner v ?_ i hi
              rw [hwrites]
              rcases List.mem_append.mp hv with hm | hm
              · simp [hm]
              · simp [hm]
            · cases h.books.sent with
              | blocks hne hend hunsent hk hothers hs =>
                  exact .blocks hne hend (hline.trans hunsent) hk hothers hs
              | line hnil hs => exact .line hnil (hs.congr hline rfl)
          cases howner : w.memcli with
          | none =>
              refine ⟨todo, left, hbooks, fun i hi => (h.links i hi).congr Iff.rfl ?_ rfl rfl rfl rfl⟩
              exact hws i (by simp [howner])
          | some i =>
              have hw : w ∈ s.conn.writes := by
                rw [hwrites]
                simp
              have hi := h.books.owner w hw i howner
              obtain ⟨hup, hmine, sent, hbytes, -, hparts, -, hhands⟩ :=
                (h.links i hi).handed (mem_writesOf.mpr ⟨hw, howner⟩)
              rw [hrest] at hparts
              obtain ⟨hpart, htodo⟩ := List.append_eq_nil_iff.mp hparts.symm
              have htodo := blocksBytes_eq_nil htodo
              have hnone : writesOf i (l₁ ++ l₂) = [] := by
                rw [hwrites, writesOf_append, writesOf_cons_self howner] at hmine
                obtain ⟨h₁, h₂, -⟩ := append_cons_eq_singleton hmine
                rw [writesOf_append, h₁, h₂, List.append_nil]
              have hlinks : ∀ j ∈ e.ids, j ≠ i →
                  LinkAt e { s with conn := { s.conn with writes := l₁ ++ l₂ } } part todo left j := by
                intro j hj hji
                refine (h.links j hj).congr Iff.rfl (hws j ?_) rfl rfl rfl rfl
                rw [howner]
                exact fun he => hji (Option.some.inj he).symm
              have hcall := hbooks.handled hlinks hi hup hnone hpart htodo hhands.wroteClient
              unfold Proxy.handleWrite
              rw [hbytes]
              dsimp only
              rw [if_pos hup]
              exact hcall
      · exact ⟨_, _, h⟩

/-- **One step.** -/
theorem RelaysGet.step (h : RelaysGet e base s order part todo left) (htype : e.type = .get)
    {cl : Clusters} {pool : ℕ → UpstreamClient} {a : Event} (hserved : Served e s a)
    (hwell : StepsWell e s a) :
    ∃ order' part' todo' left', RelaysGet e base (s.step cl pool a) order' part' todo' left' := by
  cases a with
  | done i k bytes =>
      obtain ⟨todo', left', h'⟩ := h.done htype hserved.1 hserved.2 hwell
      exact ⟨_, _, _, _, h'⟩
  | taken j n =>
      obtain ⟨order', part', todo', h'⟩ := h.taken hwell (n := n)
      exact ⟨_, _, _, _, h'⟩
  | written j =>
      obtain ⟨todo', left', h'⟩ := h.written j
      exact ⟨_, _, _, _, h'⟩
  | failed | clientSent | expired | timeout => exact absurd hserved id

/-! ## The beginning and what follows -/

/-- A client from the pool that has been given its command. -/
theorem awaits_request {u : UpstreamClient} (hu : Idle u) (cmd reply : List Byte) {blocks : List Block}
    (hreply : reply = answer blocks) (hfits : ∀ b ∈ blocks, b.Fits) :
    Awaits ⟨(u.init .get cmd).request, []⟩ reply blocks := by
  have hsize := hu.recvBuf
  have hops : (u.init .get cmd).request.ops = [if u.socketErr then .connect else .write] := by
    simp [UpstreamClient.request, UpstreamClient.init, hu.ops]
  refine ⟨⟨rfl, rfl, hu.reseting⟩, ?_, .inr ⟨rfl, ?_⟩, ⟨reply, rfl, ?_⟩, ?_, hfits⟩
  · show 0 < u.recvBuf.length
    unfold UpstreamClient.baseSize at hsize
    omega
  · show (u.init .get cmd).request.ops = _ ∨ (u.init .get cmd).request.ops = _
    rw [hops]
    cases u.socketErr with
    | true => exact .inl rfl
    | false => exact .inr rfl
  · exact hreply
  · exact List.length_pos_iff.mpr (nextItem_ne_nil blocks)

/-- At first nothing is relayed. -/
theorem Dispatched.relaysGet (h : Dispatched e s) (hfits : e.Fits) (htype : e.type = .get) (hfinal : e.final = endBuf) :
    RelaysGet e s.conn.stream s [] (fun _ => []) (fun _ => []) e.blocks := by
  have hws : ∀ i, writesOf i s.conn.writes = [] := by
    intro i
    refine List.filter_eq_nil_iff.mpr fun w hw => ?_
    simp [(h.writes w hw).1]
  have hline : unsentLines s.conn.writes = [] := by
    refine List.filter_eq_nil_iff.mpr fun w hw => ?_
    simp [(h.writes w hw).2]
  obtain ⟨k, hk⟩ := List.exists_mem_of_ne_nil e.ids e.asked
  refine ⟨⟨hfinal, h.upClis ▸ e.nodup, fun i hi => h.upClis ▸ hi, ?_, ?_, fun i hi => rfl,
    .blocks (h.upClis ▸ e.asked) h.wroteEnd hline hk (fun _ _ _ => rfl) rfl⟩, ?_⟩
  · intro w hw i hi
    rw [(h.writes w hw).1] at hi
    cases hi
  · intro p hp
    cases hp
  · intro i hi
    obtain ⟨u, cmd, hidle, hlink⟩ := h.asked i hi
    rw [htype] at hlink
    refine .intro _ (hws i) hlink rfl rfl rfl (.awaits (h.upClis ▸ hi) rfl (awaits_request hidle cmd _ ?_ (hfits i hi)))
    rw [Exchange.reply, hfinal, answer]

/-- Once no upstream is on the list, nothing is left of the answers. -/
theorem RelaysGet.merged (h : RelaysGet e base s order part todo left) (hnil : s.conn.upClis = []) :
    IsMerge e.ids e.blocks order := by
  refine ⟨h.books.mem, fun i hi => ?_⟩
  have hup : i ∉ s.conn.upClis := by
    rw [hnil]
    exact List.not_mem_nil
  obtain ⟨-, htodo, hleft, -⟩ := (h.links i hi).through hup
  have hparts := h.books.parts i hi
  rwa [htodo, hleft, List.append_nil, List.append_nil] at hparts

/-- What the invariant says. -/
theorem RelaysGet.faithful (h : RelaysGet e base s order part todo left) : Faithful e base s := by
  refine ⟨?_, ?_, ?_⟩
  · intro i hi
    by_cases hops : (s.ups i).client.ops = []
    · rw [hops]
      exact Nat.zero_le _
    · rcases ((h.links i hi).waiting hops).2.2.2.2.ops with hr | ⟨-, hc | hw⟩
      · rw [hr]
        exact Nat.le_refl 1
      · rw [hc]
        exact Nat.zero_le _
      · rw [hw]
        exact Nat.zero_le _
  · intro i hi hreply
    by_cases hup : i ∈ s.conn.upClis
    · rcases (h.links i hi).busy hup with hops | hws
      · exact .inl hops
      · obtain ⟨w, hw⟩ := List.exists_mem_of_ne_nil _ hws
        exact .inr ⟨w, mem_writesOf.mp hw⟩
    · exact absurd ((h.links i hi).through hup).2.2.2.received hreply
  · cases h.books.sent with
    | blocks hne hend hline hk hothers hs =>
        refine ⟨_, _, ⟨IsMerge.of_begun e.nodup h.books.mem h.books.parts, rfl⟩, ?_, ?_⟩
        · refine List.IsPrefix.trans ⟨_, hs⟩ ?_
          rw [List.map_append, blocksBytes_append, List.append_assoc, ← List.append_assoc base]
          exact List.prefix_append _ _
        · rintro ⟨hops, hwrites⟩
          obtain ⟨i, hi⟩ := List.exists_mem_of_ne_nil _ hne
          have hid := h.books.up i hi
          rcases (h.links i hid).busy hi with hbusy | hbusy
          · exact absurd (hops i hid) hbusy
          · rw [hwrites] at hbusy
            exact absurd rfl hbusy
    | line hnil hs =>
        exact ⟨_, _, ⟨h.merged hnil, rfl⟩, hs.prefix, fun hsettled => hs.eq hsettled.2⟩

end Oce.MemcProxy
