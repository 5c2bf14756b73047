import Oce.TalkProxy.Model.Session

/-!
# No session acts before its password is verified

Only `DefultAction` looks at the state of the session: an iq or a presence goes to the
handlers in any state, and `AuthAction` stores the jid of a passport before it looks at the
passport's result. `Guarded` is the condition that neither matters. Under it a session that
is logged in has the jid of a passport that was accepted (`SessionInv.holder`), and every call
is made under the jid of such a passport.
-/

set_option autoImplicit false

namespace Oce.TalkProxy

open Oce.Base Oce.TalkCommon Session

/-- The user is verified. SOURCE: TalkCommon.ice:21 -/
def Passport.Accepted (p : Passport) : Prop := p.result ≠ -1 ∧ p.result ≠ -2

instance (p : Passport) : Decidable p.Accepted := inferInstanceAs (Decidable (_ ∧ _))

/-- Each call is made under the jid of a passport that was accepted before it; `jidOf` is the
jid of a passport. -/
def Justified (jidOf : Passport → Jid) : List Event → Prop
  | [] => True
  | .passport _ :: log => Justified jidOf log
  | .call c :: log =>
    (∃ p, .passport p ∈ log ∧ p.Accepted ∧ c.jid = some (jidOf p)) ∧ Justified jidOf log

namespace Session

def LoggedIn (s : Session) : Prop := s.state = .login ∨ s.state = .chat

end Session

/-- A presence that goes out. -/
def goesOut (doc : XmlNode) : Prop :=
  (childOrNull doc "presence").attr "to" = "" ∨
    idType ((childOrNull doc "presence").attr "to") ≠ .undefine

/-- A presence that goes out finds the session logged in, and so does an iq; a session that is
logged in gets no passport that is refused. -/
def SessionOp.Guarded (s : Session) : SessionOp → Prop
  | messaged doc _ => (firstChild doc).name = "presence" → goesOut doc → s.LoggedIn
  | run i verify => ∀ r ∈ s.requests[i]?,
      (r.1 = .iq → s.LoggedIn) ∧
      (r.1 = .auth → s.LoggedIn → ∀ p ∈ verifyTwice verify, p.Accepted)

/-- The invariant of a session. -/
structure SessionInv (proxy : Proxy) (connectionId : ℤ) (s : Session) : Prop where
  connection : s.connectionId = connectionId
  justified : Justified (fun p => ⟨p.userId, proxy.name, connectionId⟩) s.log
  holder : s.LoggedIn → ∃ p, .passport p ∈ s.log ∧ p.Accepted ∧
    s.jid = some ⟨p.userId, proxy.name, connectionId⟩

variable {proxy : Proxy} {connectionId : ℤ} {s : Session}

theorem sessionInv_new : SessionInv proxy connectionId (.new connectionId) where
  connection := rfl
  justified := trivial
  holder := by
    rintro (h | h)
    · cases h
    · cases h

/-! ## Steps -/

/-- What the invariant is about. -/
theorem SessionInv.congr (h : SessionInv proxy connectionId s) {s' : Session}
    (hid : s'.connectionId = s.connectionId) (hjid : s'.jid = s.jid) (hlog : s'.log = s.log)
    (hstate : s'.LoggedIn → s.LoggedIn) : SessionInv proxy connectionId s' where
  connection := hid.trans h.connection
  justified := hlog ▸ h.justified
  holder := fun hs => by
    rw [hlog, hjid]
    exact h.holder (hstate hs)

/-- A session that is logged in makes a call under its own jid. -/
theorem SessionInv.call (h : SessionInv proxy connectionId s) (hs : s.LoggedIn) {c : Call}
    (hc : c.jid = s.jid) : SessionInv proxy connectionId (s.call c) where
  connection := h.connection
  justified := by
    obtain ⟨p, hp, hacc, hjid⟩ := h.holder hs
    exact ⟨⟨p, hp, hacc, hc.trans hjid⟩, h.justified⟩
  holder := fun _ => by
    obtain ⟨p, hp, hacc, hjid⟩ := h.holder hs
    exact ⟨p, List.mem_cons_of_mem _ hp, hacc, hjid⟩

theorem SessionInv.presence (h : SessionInv proxy connectionId s) (hs : s.LoggedIn) (doc : XmlNode) :
    SessionInv proxy connectionId (s.presence doc) := by
  have hbound : SessionInv proxy connectionId
      { s with binding := if s.binding = 0 then 1 else s.binding } :=
    h.congr rfl rfl rfl id
  exact hbound.call hs rfl

theorem SessionInv.stream (h : SessionInv proxy connectionId s) (doc : XmlNode) :
    SessionInv proxy connectionId (s.streamAction doc) := by
  unfold streamAction
  dsimp only
  split
  · exact h.congr rfl rfl rfl id
  · split
    · refine h.congr rfl rfl rfl ?_
      rintro (h' | h') <;> cases h'
    · refine h.congr rfl rfl rfl ?_
      rintro (h' | h') <;> cases h'
    · exact h

/-- **A passport.** One that is accepted becomes the session's own; one that is refused changes
the jid of a session that is not logged in. -/
theorem SessionInv.auth (h : SessionInv proxy connectionId s) (doc : XmlNode)
    {verify : ℕ → Option (Option Passport)}
    (hok : s.LoggedIn → ∀ p ∈ verifyTwice verify, p.Accepted) :
    SessionInv proxy connectionId (s.authAction proxy doc verify) := by
  unfold authAction
  dsimp only
  split
  · exact h.congr rfl rfl rfl id
  cases hp : verifyTwice verify with
  | none => exact h.congr rfl rfl rfl id
  | some passport =>
      have hjid : jidOf proxy s passport = ⟨passport.userId, proxy.name, connectionId⟩ := by
        rw [jidOf, h.connection]
      have hrefused : ¬ passport.Accepted → ∀ at_ : ℤ, SessionInv proxy connectionId
          { s with
            jid := some (jidOf proxy s passport), log := .passport passport :: s.log
            shutdownAt := at_ } :=
        fun hnot _ => ⟨h.connection, h.justified, fun hs => absurd (hok hs passport hp) hnot⟩
      dsimp only
      split_ifs with h1 h2
      · exact hrefused (fun hacc => hacc.1 h1) 4
      · exact hrefused (fun hacc => hacc.2 h2) 5
      · exact ⟨h.connection, h.justified, fun _ =>
          ⟨passport, List.mem_cons_self, ⟨h1, h2⟩, congrArg some hjid⟩⟩

theorem SessionInv.iq (h : SessionInv proxy connectionId s) (hs : s.LoggedIn) (doc : XmlNode) :
    SessionInv proxy connectionId (s.iqAction doc) := by
  unfold iqAction
  dsimp only
  split
  · exact h.call hs rfl
  · exact h.call hs rfl

/-- `DefultAction` looks at the state itself. -/
theorem SessionInv.defult (h : SessionInv proxy connectionId s) (doc : XmlNode) :
    SessionInv proxy connectionId (s.defultAction doc) := by
  unfold defultAction
  dsimp only
  split_ifs with hstate hto
  · exact h.congr rfl rfl rfl id
  · have hs : s.LoggedIn := Or.inr (not_not.mp hstate)
    split
    · exact h.call hs rfl
    · exact h.call hs rfl
    · exact h.call hs rfl
    · exact h
  · exact h.call (Or.inr (not_not.mp hstate)) rfl

theorem SessionInv.forwardPresence (h : SessionInv proxy connectionId s) (doc : XmlNode)
    (hs : goesOut doc → s.LoggedIn) : SessionInv proxy connectionId (s.forwardPresence doc) := by
  unfold Session.forwardPresence
  dsimp only
  split_ifs with hto
  · exact h.presence (hs (Or.inl hto)) doc
  · split
    · next ht => exact h.call (hs (Or.inr (by rw [ht]; decide))) rfl
    · next ht => exact h.call (hs (Or.inr (by rw [ht]; decide))) rfl
    · next ht => exact h.presence (hs (Or.inr (by rw [ht]; decide))) doc
    · exact h

/-- The first presence is passed on by a session that is logged in. -/
theorem SessionInv.firstPresence (h : SessionInv proxy connectionId s) (doc : XmlNode) :
    SessionInv proxy connectionId (s.firstPresence doc) := by
  unfold Session.firstPresence
  dsimp only
  split_ifs with hlogin
  · have hs : s.LoggedIn := Or.inl hlogin.1
    exact (h.call hs rfl).congr rfl rfl rfl fun _ => hs
  · exact h

theorem SessionInv.processPresence (h : SessionInv proxy connectionId s) (doc : XmlNode)
    (hs : goesOut doc → s.LoggedIn) (thrown : Bool) :
    SessionInv proxy connectionId (s.processPresence doc thrown) := by
  unfold Session.processPresence
  dsimp only
  split
  · exact h.forwardPresence doc hs
  · exact (h.forwardPresence doc hs).firstPresence doc

/-! ## Whole runs -/

/-- **The step lemma.** -/
theorem SessionInv.step (h : SessionInv proxy connectionId s) {op : SessionOp} (hop : op.Guarded s) :
    SessionInv proxy connectionId (op.step proxy s) := by
  cases op with
  | messaged doc thrown =>
      unfold SessionOp.step messaged
      dsimp only
      split_ifs with h1 h2 h3 h4 h5
      · exact h.congr rfl rfl rfl id
      · exact h
      · exact h.congr rfl rfl rfl id
      · exact h.congr rfl rfl rfl id
      · exact h.processPresence doc (hop h5) thrown
      · exact h.congr rfl rfl rfl id
  | run i verify =>
      unfold SessionOp.step
      dsimp only
      cases hr : s.requests[i]? with
      | none => exact h
      | some r =>
          obtain ⟨action, doc⟩ := r
          obtain ⟨hiq, hauth⟩ := hop _ hr
          have htaken : SessionInv proxy connectionId { s with requests := s.requests.eraseIdx i } :=
            h.congr rfl rfl rfl id
          cases action with
          | stream => exact htaken.stream doc
          | auth => exact htaken.auth doc (hauth rfl)
          | iq => exact htaken.iq (hiq rfl) doc
          | defult => exact htaken.defult doc

/-- **In every run that keeps to the condition the session binds and forwards only under the jid
of a user whose password was verified before.** -/
theorem acts_verified {ops : List SessionOp}
    (hops : StepsMeet (SessionOp.step proxy) SessionOp.Guarded (.new connectionId) ops) :
    Justified (fun p => ⟨p.userId, proxy.name, connectionId⟩)
      (runOps (SessionOp.step proxy) (.new connectionId) ops).log :=
  (run_invariant (fun _ _ h hop => h.step hop) sessionInv_new hops).justified

/-! ## Sample sessions -/

/-- A stanza without attributes. -/
def bare (name text : String) : XmlNode := .element "" [] [.element name [] [.pcdata text]]

/-- A proxy that decodes the text of `loginFirst`. -/
def sampleProxy : Proxy := ⟨"T1", fun _ => ['\x00', 'a', '\x00', 'b']⟩

/-- A client authenticates as user 5 and sends a presence. -/
def loginFirst : List SessionOp :=
  [.messaged (bare "auth" "AGEAYg==") false, .run 0 fun _ => some (some ⟨5, 0⟩),
    .messaged (bare "presence" "") false]

theorem acts_verified_loginFirst :
    Justified (fun p => ⟨p.userId, "T1", 7⟩)
      (runOps (SessionOp.step sampleProxy) (.new 7) loginFirst).log := by
  have hmeet : StepsMeet (SessionOp.step sampleProxy) SessionOp.Guarded (.new 7) loginFirst := by
    refine ⟨fun h => absurd h (by decide), ?_, ?_, trivial⟩
    · rintro r hr
      cases hr
      exact ⟨nofun, fun _ h => h.elim nofun nofun⟩
    · exact fun _ _ => Or.inl rfl
  exact acts_verified hmeet

/-- A client that has not authenticated sends an iq. -/
def iqFirst : List SessionOp := [.messaged (bare "iq" "") false, .run 0 fun _ => none]

theorem iq_unverified :
    ¬ Justified (fun p => ⟨p.userId, "T1", 7⟩)
      (runOps (SessionOp.step sampleProxy) (.new 7) iqFirst).log := by
  rintro ⟨⟨p, hp, -⟩, -⟩
  cases hp

end Oce.TalkProxy
