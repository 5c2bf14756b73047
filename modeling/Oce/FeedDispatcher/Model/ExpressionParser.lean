import Mathlib.Data.Finset.Sort
import Oce.Base.Bytes
import Oce.Base.Int32
import Oce.Base.Run

/-!
# Expressions for who is to be told

A feed goes to the users of an expression: factors, each a letter and a number in parentheses, and
operators between them, taken from left to right. `Tokenize` collects the factors and the operators,
each in the order in which they come, and `CalculateIds` goes through both at once.

`string::npos` is the largest `size_t`, so the position after it is 0. What the database has is a
parameter; a query that fails has no rows.
-/

set_option autoImplicit false

namespace Oce.FeedDispatcher

open Oce.Base

/-! ## Factors and operators -/

/-- The classes of factors. SOURCE: ExpressionParser.h:100-260 -/
inductive FactorType
  | user | friend | app | appFan | page | highSchool | follow | miniGroup | xiaoZu | miniSite | cheWen
  deriving DecidableEq

namespace FactorType

/-- SOURCE: ExpressionParser.h:26 -/
def char : FactorType → Byte
  | user => 117
  | friend => 102
  | app => 97
  | appFan => 65
  | page => 112
  | highSchool => 115
  | follow => 118
  | miniGroup => 103
  | xiaoZu => 122
  | miniSite => 120
  | cheWen => 99

/-- SOURCE: ExpressionParser.cpp:115-156 -/
def ofChar (c : Byte) : Option FactorType :=
  [user, friend, app, appFan, page, highSchool, follow, miniGroup, xiaoZu, miniSite, cheWen].find? (·.char = c)

end FactorType

/-- SOURCE: ExpressionParser.h:37-57 -/
structure Factor where
  type : FactorType
  paramId : ℤ
  deriving DecidableEq

/-- SOURCE: ExpressionParser.h:28, 62-75 -/
inductive Op
  | plus | minus | and
  deriving DecidableEq

/-- A factor as it is written. SOURCE: FeedDispatcher.cpp:125-160, ExpressionCache.cpp:168-172 -/
def Factor.print (f : Factor) : List Byte := f.type.char :: 40 :: (intDigits f.paramId ++ [41])

namespace Op

def char : Op → Byte
  | plus => 43
  | minus => 45
  | and => 38

def ofChar (c : Byte) : Option Op := [plus, minus, and].find? (·.char = c)

end Op

/-! ## The parser -/

inductive ParseError
  | wrongCharactor (c : Byte) (pos : ℕ)
  | startLargerThanEnd
  | badLexicalCast
  deriving DecidableEq

/-- Where the parser is, and what it has found. -/
structure Tokens where
  pos : ℕ
  factors : List Factor
  ops : List Op
  deriving DecidableEq

/-- `find(c, pos)`. -/
def findFrom (s : List Byte) (c : Byte) (pos : ℕ) : Option ℕ := ((s.drop pos).idxOf? c).map (pos + ·)

/-- The number that a text is, with the position after it. SOURCE: ExpressionParser.cpp:165-168 -/
def value (text : List Byte) (pos : ℕ) : Except ParseError (ℤ × ℕ) :=
  match lexicalCastInt text with
  | some n => .ok (n, pos)
  | none => .error .badLexicalCast

/-- The number between the parentheses, and the position after them.
SOURCE: ExpressionParser.cpp:158-169 -/
def scanInteger (s : List Byte) (pos : ℕ) : Except ParseError (ℤ × ℕ) :=
  match findFrom s 40 pos, findFrom s 41 pos with
  | some i, some j =>
    if j < i then .error .startLargerThanEnd else value ((s.drop (i + 1)).take (j - i - 1)) (j + 1)
  | none, some _ => .error .startLargerThanEnd
  -- `npos` for the end
  | some i, none => value (s.drop (i + 1)) 0
  | none, none => value s 0

/-- One round. SOURCE: ExpressionParser.cpp:78-92 -/
def Tokens.scan (s : List Byte) (t : Tokens) : Except ParseError Tokens :=
  match s[t.pos]? with
  | none => .ok t
  | some c =>
    match Op.ofChar c with
    | some op => .ok { t with pos := t.pos + 1, ops := t.ops ++ [op] }
    | none =>
      match FactorType.ofChar c with
      | some type => (scanInteger s t.pos).map fun r => ⟨r.2, t.factors ++ [⟨type, r.1⟩], t.ops⟩
      | none => .error (.wrongCharactor c t.pos)

/-- Whether there is another round. -/
def scanning (s : List Byte) : Except ParseError Tokens → Bool
  | .ok t => t.pos < s.length
  | .error _ => false

/-- Nothing if it has not come to an end after `fuel` rounds. SOURCE: ExpressionParser.cpp:74-113 -/
def tokenize (s : List Byte) (fuel : ℕ) : Option (Except ParseError Tokens) :=
  whileLoop (scanning s) (fun r => r.bind (Tokens.scan s)) fuel (.ok ⟨0, [], []⟩)

/-! ## The queries -/

/-- Where the ids of a factor are, and the beginning of the statement that selects them. -/
structure Query where
  database : List Byte
  table : List Byte
  column : List Byte
  head : List Byte

/-- The properties of the service. -/
abbrev Properties := List Byte → Option (List Byte)

/-- `getPropertyWithDefault`. -/
def Properties.get (props : Properties) (key dflt : String) : List Byte := (props (ascii key)).getD (ascii dflt)

/-- `SELECT column FROM table ...`. -/
def Query.select (database table : List Byte) (column condition : String) (id : ℤ) (rest : String) : Query where
  database := database
  table := table
  column := ascii column
  head := ascii "SELECT " ++ ascii column ++ ascii " FROM " ++ table ++ ascii condition ++ intDigits id ++ ascii rest

section Queries

variable (props : Properties) (id : ℤ)

/-- SOURCE: ExpressionParser.cpp:267-276 -/
def AppFactor.generateSQL : Query :=
  .select (ascii "app_user") (ascii "app_user_" ++ intDigits (id.tmod 100)) "user_id" " WHERE app_id = " id " "

/-- SOURCE: ExpressionParser.cpp:359-367 -/
def AppFanFactor.generateSQL : Query :=
  .select (ascii "app_fans") (ascii "app_fans_" ++ intDigits (id.tmod 100)) "user_id" " WHERE app_id=" id " "

/-- SOURCE: ExpressionParser.cpp:452-470 -/
def PageFactor.generateSQL : Query :=
  .select (props.get "Service.Database.PageFans" "page_fans")
    (props.get "Service.table.PageFans" "page_fans" ++ ascii "_" ++ intDigits (id.tmod 100))
    "user_id" " WHERE page_id=" id " AND state=0"

/-- SOURCE: ExpressionParser.cpp:553-571 -/
def FollowFactor.generateSQL : Query :=
  .select (props.get "Service.Database.VFollows" "page") (props.get "Service.table.VFollows" "v_follow_list")
    "follower_id" " WHERE v_id=" id ""

/-- SOURCE: ExpressionParser.cpp:658-671 -/
def FriendFactor.generateSQL : Query :=
  .select (props.get "Service.Database.Relation" "xfeed_relation")
    (props.get "Service.table.Relation" "relation_" ++ intDigits (id.tmod 100)) "guest" " WHERE host=" id " "

/-- SOURCE: ExpressionParser.cpp:761-772 -/
def HighSchoolFactor.generateSQL : Query :=
  .select (props.get "Service.Database.HIGHSCHOOL" "high_school_page")
    (props.get "Service.Table.ASP_MEMBER" "asp_member") "uid" " WHERE pid=" id "  AND status=0 AND stage <= 30 "

/-- SOURCE: ExpressionParser.cpp:863-872 -/
def MiniGroupFactor.generateSQL : Query :=
  .select (ascii "minigroup") (ascii "minigroup_member_" ++ intDigits (id.tmod 100)) "member_id"
    " WHERE minigroup_id = " id " and access_id in (1,2,3) "

/-- SOURCE: ExpressionParser.cpp:979-988 -/
def XiaoZuFactor.generateSQL : Query :=
  .select (ascii "forum") (ascii "forum_member_" ++ intDigits (id.tmod 100)) "member_id" " WHERE forum_id=" id
    " and access_id in (1,2,3) "

/-- SOURCE: ExpressionParser.cpp:1075-1083 -/
def MiniSiteFactor.generateSQL : Query :=
  .select (ascii "minisite") (ascii "minisite_follower") "follower_id" " WHERE site_id=" id ""

/-- The number goes into the statement only, not into `table_`. SOURCE: ExpressionParser.cpp:1170-1178 -/
def CheWenFactor.generateSQL : Query where
  database := ascii "chewen_user"
  table := ascii "cw_followed_"
  column := ascii "renren_id"
  head :=
    let tablename := ascii "cw_followed_" ++ intDigits (id.tmod 10)
    ascii "SELECT renren_id FROM " ++ tablename ++ ascii " WHERE map_renren_id=" ++ intDigits id

end Queries

/-- The query of a factor; a `UserFactor` has none. -/
def Factor.query (props : Properties) (f : Factor) : Option Query :=
  match f.type with
  | .user => none
  | .friend => some (FriendFactor.generateSQL props f.paramId)
  | .app => some (AppFactor.generateSQL f.paramId)
  | .appFan => some (AppFanFactor.generateSQL f.paramId)
  | .page => some (PageFactor.generateSQL props f.paramId)
  | .highSchool => some (HighSchoolFactor.generateSQL props f.paramId)
  | .follow => some (FollowFactor.generateSQL props f.paramId)
  | .miniGroup => some (MiniGroupFactor.generateSQL f.paramId)
  | .xiaoZu => some (XiaoZuFactor.generateSQL f.paramId)
  | .miniSite => some (MiniSiteFactor.generateSQL f.paramId)
  | .cheWen => some (CheWenFactor.generateSQL f.paramId)

/-- `QueryRunner(database, CDbRServer, table).store(sql)`: the ids in the rows, nothing if it fails. -/
abbrev Database := List Byte → List Byte → List Byte → Option (List ℤ)

/-- ` AND column IN (...)`, for ids that are not none. SOURCE: ExpressionParser.cpp:209-215 -/
def inClause (column : List Byte) (ids : Finset ℤ) : List Byte :=
  ascii " AND " ++ column ++ ascii " IN (" ++ (ascii ",").intercalate ((ids.sort (· ≤ ·)).map intDigits) ++ ascii ")"

/-- The ids from the least to the greatest. -/
def intSeq (ids : Finset ℤ) : List ℤ := ids.sort (· ≤ ·)

@[simp] theorem mem_intSeq {ids : Finset ℤ} {id : ℤ} : id ∈ intSeq ids ↔ id ∈ ids := Finset.mem_sort _

@[simp] theorem intSeq_empty : intSeq ∅ = [] := Finset.sort_empty _

@[simp] theorem length_intSeq (ids : Finset ℤ) : (intSeq ids).length = ids.card := Finset.length_sort _

namespace Factor

variable (db : Database) (props : Properties)

/-- SOURCE: ExpressionParser.cpp:179-199, 876-878 -/
def plus (f : Factor) (result : Finset ℤ) : Finset ℤ :=
  match f.query props with
  | none => insert f.paramId result
  | some q => ((db q.database q.table q.head).getD []).foldl (fun r id => insert id r) result

/-- SOURCE: ExpressionParser.cpp:201-231, 880-882 -/
def minus (f : Factor) (result : Finset ℤ) : Finset ℤ :=
  match f.query props with
  | none => result.erase f.paramId
  | some q =>
    ((db q.database q.table (q.head ++ inClause q.column result)).getD []).foldl (fun r id => r.erase id) result

/-- SOURCE: ExpressionParser.cpp:233-265, 884-891 -/
def and (f : Factor) (result : Finset ℤ) : Finset ℤ :=
  match f.query props with
  | none => if f.paramId ∈ result then {f.paramId} else ∅
  | some q =>
    ((db q.database q.table (q.head ++ inClause q.column result)).getD []).foldl (fun r id => insert id r) ∅

/-- What an operator does with a factor. SOURCE: ExpressionParser.cpp:41-58 -/
def apply (op : Op) (f : Factor) (result : Finset ℤ) : Finset ℤ :=
  match op with
  | .plus => f.plus db props result
  | .minus => if result = ∅ then result else f.minus db props result
  | .and => if result = ∅ then result else f.and db props result

end Factor

/-- The rest of the factors, with the operators before them; nothing where the operators are read
past their end. SOURCE: ExpressionParser.cpp:37-64 -/
def calculateRest (db : Database) (props : Properties) : List Factor → List Op → Finset ℤ → Option (Finset ℤ)
  | [], _, result => some result
  | _ :: _, [], _ => none
  | f :: factors, op :: ops, result => calculateRest db props factors ops (f.apply db props op result)

/-- SOURCE: ExpressionParser.cpp:28-66 -/
def calculateIds (db : Database) (props : Properties) (factors : List Factor) (ops : List Op) :
    Option (Finset ℤ) :=
  match factors with
  | [] => none
  | f :: factors => calculateRest db props factors ops (f.plus db props ∅)

end Oce.FeedDispatcher
