import Mathlib.Data.Int.Notation
import Mathlib.Data.Nat.Notation

/-!
# Types that the talk services share

The jid of one avatar of a user, how visible an avatar is, and what is sent between users.
-/

set_option autoImplicit false

namespace Oce.TalkCommon

/-- SOURCE: TalkCommon.ice:24-29 -/
structure Jid where
  userId : ℤ
  endpoint : String
  index : ℤ
  deriving DecidableEq, Repr

/-- SOURCE: TalkCommon.ice:42 -/
inductive OnlineStat where
  | offline
  | invisiable
  | notAvailable
  | busy
  | away
  | online
  deriving DecidableEq, Repr

/-- The number of an `OnlineStat`, which orders them. -/
def OnlineStat.val : OnlineStat → ℕ
  | offline => 0
  | invisiable => 1
  | notAvailable => 2
  | busy => 3
  | away => 4
  | online => 5

/-- SOURCE: TalkCommon.ice:43-50 -/
structure Avatar where
  jid : Jid
  stat : OnlineStat
  ver : String
  ext : String
  stamp : ℤ
  deriving DecidableEq, Repr

/-- SOURCE: TalkCommon.ice:69-76 -/
structure Message where
  fromJid : Jid
  toJid : Jid
  msg : String
  type : ℤ
  msgKey : ℤ
  deriving DecidableEq, Repr

/-- SOURCE: MessageType.h:13 -/
def OFFLINE_MESSAGE : ℤ := 4

end Oce.TalkCommon
