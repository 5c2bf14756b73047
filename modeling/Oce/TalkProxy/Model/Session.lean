import Mathlib.Data.List.Basic
import Mathlib.Logic.Function.Basic
import Oce.Base.Bytes
import Oce.Base.Run
import Oce.TalkCommon.Model.Types

/-!
# A session of the talk proxy

A client's stanzas come in as XML documents. `SessionListener::messaged` runs `starttls` and
`presence` at once and schedules an action for each of the others; a scheduled action runs
later, in whatever order. What the actions share is the session: its state, its jid, whether
it is bound.

`log` is not in the source: the calls that the session makes of the handlers, and the
passports that `verify` has given it, the latest first. What goes back to the client is left
out, for nothing reads it.

`Session::presence` and `Session::stopped` hold the lock of the session from their first line to
their last, so each is one step of the proxy (`Talk`); the steps of all sessions come in any order.
-/

set_option autoImplicit false

namespace Oce.TalkProxy

open Oce.Base Oce.TalkCommon

/-! ## Documents -/

/-- What the code reads of a pugixml document: texts and elements. -/
inductive XmlNode where
  | pcdata (value : String)
  | element (name : String) (attributes : List (String × String)) (children : List XmlNode)

namespace XmlNode

def name : XmlNode → String
  | pcdata _ => ""
  | element name _ _ => name

def value : XmlNode → String
  | pcdata value => value
  | element _ _ _ => ""

def children : XmlNode → List XmlNode
  | pcdata _ => []
  | element _ _ children => children

/-- `attribute(name).value()`, empty where there is none. -/
def attr (n : XmlNode) (name : String) : String :=
  match n with
  | pcdata _ => ""
  | element _ attributes _ => (attributes.lookup name).getD ""

end XmlNode

/-- The node that every lookup in nothing gives. -/
def nullNode : XmlNode := .pcdata ""

def child (n : XmlNode) (name : String) : Option XmlNode :=
  n.children.find? fun c => c.name = name

/-- `child(name)`, the null node where there is none. -/
def childOrNull (n : XmlNode) (name : String) : XmlNode := (child n name).getD nullNode

/-- `first_child()`, the null node where there is none. -/
def firstChild (n : XmlNode) : XmlNode := n.children.head?.getD nullNode

/-! ## Passports and addresses -/

/-- `result` is -1 for a wrong user or password and -2 for a user who may not log in.
SOURCE: TalkCommon.ice:18-22 -/
structure Passport where
  userId : ℤ
  result : ℤ
  deriving DecidableEq, Repr

/-- SOURCE: XmppTools.h:141 -/
inductive IdType where
  | undefine
  | jid
  | roomId
  | roomJid
  deriving DecidableEq, Repr

/-- Whether `boost::lexical_cast<int>` takes a text. -/
def isInt (s : String) : Bool :=
  match readInt (ascii s) with
  | some n => -2147483648 ≤ n ∧ n ≤ 2147483647
  | none => false

/-- `atoi`: blanks, a sign and the digits that follow. -/
def atoi (s : List Byte) : ℤ :=
  match s.dropWhile fun b => b = 32 ∨ 9 ≤ b ∧ b ≤ 13 with
  | 45 :: l => -(digitsValue (l.takeWhile isDigit) : ℤ)
  | 43 :: l => digitsValue (l.takeWhile isDigit)
  | l => digitsValue (l.takeWhile isDigit)

/-- SOURCE: XmppTools.cpp:358-390 -/
def idType (id : String) : IdType :=
  let node := id.toList.takeWhile (· ≠ '@')
  match id.toList.dropWhile (· ≠ '@') with
  | [] => .undefine
  | _ :: rest =>
    let domain := String.ofList (rest.takeWhile (· ≠ '/'))
    if domain = "talk.xiaonei.com" then
      if isInt (String.ofList node) then .jid else .undefine
    else if domain = "conference.talk.xiaonei.com" ∨ domain = "group.talk.xiaonei.com" then
      if '/' ∈ rest then .roomJid else .roomId
    else .undefine

/-! ## The session -/

/-- SOURCE: Session.h:33-39 -/
inductive SessionState where
  | none
  | firstStream
  | secondStream
  | login
  | chat
  deriving DecidableEq, Repr

/-- The calls that a session makes of the handlers. -/
inductive Call where
  | bind (jid : Option Jid)
  | iq (jid : Option Jid) (doc : XmlNode)
  | presence (jid : Option Jid) (doc : XmlNode)
  | mucPresence (jid : Option Jid) (doc : XmlNode)
  | presenceWithSecver (jid : Option Jid) (show_ ver subver ext secver : String)
  | message (jid : Option Jid) (doc : XmlNode)
  | mucMessage (jid : Option Jid) (doc : XmlNode)

/-- The jid that a call is made under. -/
def Call.jid : Call → Option Jid
  | bind j => j
  | iq j _ => j
  | presence j _ => j
  | mucPresence j _ => j
  | presenceWithSecver j _ _ _ _ _ => j
  | message j _ => j
  | mucMessage j _ => j

/-- What `log` holds. -/
inductive Event where
  | call (c : Call)
  | passport (p : Passport)

/-- The actions that are scheduled. SOURCE: Action.h:52-111 -/
inductive Action where
  | stream
  | auth
  | iq
  | defult
  deriving DecidableEq, Repr

/-- SOURCE: Session.h:42-118, Connection.h:139-192 -/
structure Session where
  connectionId : ℤ
  state : SessionState
  jid : Option Jid
  binding : ℕ
  shutdownAt : ℤ
  requests : List (Action × XmlNode)
  log : List Event

/-- What is fixed for a session: the name of the service, and `Base64::decode64`. -/
structure Proxy where
  name : String
  decode64 : String → List Char

namespace Session

/-- SOURCE: Session.cpp:15-22 -/
def new (connectionId : ℤ) : Session where
  connectionId := connectionId
  state := .none
  jid := none
  binding := 0
  shutdownAt := 0
  requests := []
  log := []

def call (s : Session) (c : Call) : Session := { s with log := .call c :: s.log }

/-- SOURCE: Session.cpp:46-68 -/
def presence (s : Session) (doc : XmlNode) : Session :=
  ({ s with binding := if s.binding = 0 then 1 else s.binding } : Session).call (.presence s.jid doc)

/-- What is left of a session that has stopped. SOURCE: Session.cpp:70-92 -/
def stopped (s : Session) : Session := { s with binding := 2 }

/-! ### The actions -/

/-- SOURCE: Action.cpp:77-92 -/
def verifyVersion (version : String) : Bool :=
  let text := ascii version
  let dot := text.findIdx (· = 46)
  if text = [] then false
  else
    let maj := if dot ≠ 0 ∧ dot ≠ text.length then atoi (text.take dot) else 0
    maj ≤ 1

/-- SOURCE: Action.cpp:50-75 -/
def streamAction (s : Session) (doc : XmlNode) : Session :=
  let version := (firstChild doc).attr "version"
  if version ≠ "" ∧ ¬ verifyVersion version then { s with shutdownAt := 1 }
  else
    match s.state with
    | .none => { s with state := .firstStream }
    | .firstStream => { s with state := .secondStream }
    | _ => s

/-- The passport that two tries of `verify` end with; nothing for an exception.
SOURCE: Action.cpp:163-180 -/
def verifyTwice (verify : ℕ → Option (Option Passport)) : Option Passport :=
  match verify 0 with
  | some passport => passport
  | none => (verify 1).join

/-- The jid of a passport. SOURCE: Action.cpp:190-193 -/
def jidOf (proxy : Proxy) (s : Session) (p : Passport) : Jid := ⟨p.userId, proxy.name, s.connectionId⟩

/-- The jid is stored before the result is looked at. `verify` is what the tries give.
SOURCE: Action.cpp:147-216 -/
def authAction (proxy : Proxy) (s : Session) (doc : XmlNode) (verify : ℕ → Option (Option Passport)) :
    Session :=
  let data := proxy.decode64 (firstChild (firstChild doc)).value
  if '\x00' ∉ data then { s with shutdownAt := 2 }
  else
    match verifyTwice verify with
    | none => { s with shutdownAt := 3 }
    | some passport =>
      let s' := { s with jid := some (jidOf proxy s passport), log := .passport passport :: s.log }
      if passport.result = -1 then { s' with shutdownAt := 4 }
      else if passport.result = -2 then { s' with shutdownAt := 5 }
      else { s' with state := .login }

/-- SOURCE: Action.cpp:232-285 -/
def iqAction (s : Session) (doc : XmlNode) : Session :=
  let iq := childOrNull doc "iq"
  if iq.attr "type" = "set" ∧ (child iq "bind").isSome then s.call (.bind s.jid)
  else s.call (.iq s.jid doc)

/-- SOURCE: Action.cpp:354-380 -/
def defultAction (s : Session) (doc : XmlNode) : Session :=
  if s.state ≠ .chat then { s with shutdownAt := 6 }
  else
    let target := (childOrNull doc "message").attr "to"
    if target ≠ "" then
      match idType target with
      | .roomId | .roomJid => s.call (.mucMessage s.jid doc)
      | .jid => s.call (.message s.jid doc)
      | .undefine => s
    else s.call (.message s.jid doc)

/-! ### Presence -/

/-- The presence goes out, to the user's buddies or to a room. SOURCE: Action.cpp:422-440 -/
def forwardPresence (s : Session) (doc : XmlNode) : Session :=
  let target := (childOrNull doc "presence").attr "to"
  if target = "" then s.presence doc
  else
    match idType target with
    | .roomId | .roomJid => s.call (.mucPresence s.jid doc)
    | .jid => s.presence doc
    | .undefine => s

/-- The first presence after the login. SOURCE: Action.cpp:442-470 -/
def firstPresence (s : Session) (doc : XmlNode) : Session :=
  let presence := childOrNull doc "presence"
  let type := presence.attr "type"
  if s.state = .login ∧ type ≠ "subscribe" ∧ type ≠ "subscribed" ∧ type ≠ "unsubscribed" then
    let c := childOrNull presence "c"
    let show_ := (firstChild (childOrNull presence "show")).value
    { s.call (.presenceWithSecver s.jid show_ (c.attr "ver") (c.attr "subver")
        (c.attr "ext") (c.attr "secver")) with state := .chat }
  else s

/-- `thrown` says that the call of the room handler throws, which ends the function.
SOURCE: Action.cpp:421-473 -/
def processPresence (s : Session) (doc : XmlNode) (thrown : Bool) : Session :=
  let s' := s.forwardPresence doc
  if thrown ∧ idType ((childOrNull doc "presence").attr "to") ∈ [.roomId, .roomJid] then s'
  else s'.firstPresence doc

/-! ### The listener -/

def schedule (s : Session) (action : Action) (doc : XmlNode) : Session :=
  { s with requests := s.requests ++ [(action, doc)] }

/-- `doc` is the document after `changeDomain`. SOURCE: Action.cpp:393-420 -/
def messaged (s : Session) (doc : XmlNode) (thrown : Bool) : Session :=
  let name := (firstChild doc).name
  if name = "stream:stream" then s.schedule .stream doc
  else if name = "starttls" then s
  else if name = "auth" then s.schedule .auth doc
  else if name = "iq" then s.schedule .iq doc
  else if name = "presence" then s.processPresence doc thrown
  else s.schedule .defult doc

/-- An action runs; `verify` is what the tries of `verify` give it, should it be an
`AuthAction`. SOURCE: Action.h:33-38 -/
def execute (proxy : Proxy) (s : Session) (doc : XmlNode) (verify : ℕ → Option (Option Passport)) :
    Action → Session
  | .stream => s.streamAction doc
  | .auth => s.authAction proxy doc verify
  | .iq => s.iqAction doc
  | .defult => s.defultAction doc

end Session

/-- A stanza comes in, or one of the scheduled actions runs. -/
inductive SessionOp where
  | messaged (doc : XmlNode) (thrown : Bool)
  | run (i : ℕ) (verify : ℕ → Option (Option Passport))

/-- One step of a session. -/
def SessionOp.step (proxy : Proxy) (s : Session) : SessionOp → Session
  | messaged doc thrown => s.messaged doc thrown
  | run i verify =>
    match s.requests[i]? with
    | none => s
    | some (action, doc) =>
      ({ s with requests := s.requests.eraseIdx i } : Session).execute proxy doc verify action

/-! ## Sessions that come and go -/

/-- What is called of a session, and what it calls. -/
inductive Notice where
  | presence
  | stopped
  | forwarded (jid : Option Jid)
  | unbind (jid : Option Jid)
  | offline (jid : Option Jid)
  deriving DecidableEq, Repr

/-- The sessions of the proxy, what each has been called and has called, the latest last, and
`Server::_onlineUserCount`, which `bind` and `unbind` count up and down. SOURCE: Server.h:78-85 -/
structure Talk where
  sessions : ℕ → Session
  notices : ℕ → List Notice
  onlineUserCount : ℤ

namespace Talk

def new : Talk := ⟨fun i => .new i, fun _ => [], 0⟩

/-- Session `i` has become `s`, with the notices that are given. -/
def set (t : Talk) (i : ℕ) (s : Session) (l : List Notice) (count : ℤ) : Talk where
  sessions := Function.update t.sessions i s
  notices := Function.update t.notices i (t.notices i ++ l)
  onlineUserCount := t.onlineUserCount + count

/-- A call of the handler that throws has been made. SOURCE: Session.cpp:46-69 -/
def presence (t : Talk) (i : ℕ) (doc : XmlNode) : Talk :=
  let s := t.sessions i
  t.set i (s.presence doc) [.presence, .forwarded s.jid] (if s.binding = 0 then 1 else 0)

/-- `thrown` says that `LoginMsgHandler::unbind` throws, which leads past `offline`.
SOURCE: Session.cpp:70-92 -/
def stopped (t : Talk) (i : ℕ) (thrown : Bool) : Talk :=
  let s := t.sessions i
  if s.binding = 1 then
    t.set i s.stopped
      (if thrown then [.stopped, .unbind s.jid] else [.stopped, .unbind s.jid, .offline s.jid]) (-1)
  else t.set i s.stopped [.stopped] 0

/-- SOURCE: Session.h:55-57 -/
def setJid (t : Talk) (i : ℕ) (jid : Option Jid) : Talk :=
  t.set i { t.sessions i with jid := jid } [] 0

end Talk

/-- A call of a session. -/
inductive TalkOp where
  | presence (i : ℕ) (doc : XmlNode)
  | stopped (i : ℕ) (thrown : Bool)
  | setJid (i : ℕ) (jid : Option Jid)

/-- One step of the proxy. -/
def TalkOp.step (t : Talk) : TalkOp → Talk
  | presence i doc => t.presence i doc
  | stopped i thrown => t.stopped i thrown
  | setJid i jid => t.setJid i jid

end Oce.TalkProxy
