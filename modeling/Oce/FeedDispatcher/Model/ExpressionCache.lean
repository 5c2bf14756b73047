import Mathlib.Data.Finset.Union
import Mathlib.Data.List.Lex
import Oce.Base.OrdMap
import Oce.FeedDispatcher.Model.ExpressionParser

/-!
# Expressions that have been calculated

The ids of the last expressions are kept in the order in which they were asked for, and each factor of
them that is not a user knows the expressions that it is in, so that they can be thrown away when the
factor changes. A factor that is in no expression any more is taken out of the map.

Sets of `ExprEntryPtr` compare what is pointed to, the texts. A `FactorEntry` is known by its address
and is there as long as somebody points to it. `Expr2Ids` locks the cache twice: to look an expression
up, and to put it in after it has been calculated, in between factor by factor from the database. The
threads take these steps in any order; `notices` are the calls of `Reload` for what has changed in the
database that are on their way.
-/

set_option autoImplicit false

namespace Oce.FeedDispatcher

open Oce.Base

attribute [local instance] byteOrder

/-- SOURCE: ExpressionCache.h:103-133 -/
structure FactorEntry where
  name : List Byte
  exprSet : Finset (List Byte)

/-- SOURCE: ExpressionCache.h:45-89 -/
structure ExprEntry where
  expr : List Byte
  ids : Finset ℤ
  factors : List ℕ

/-- SOURCE: ExpressionCache.h:145-181 -/
structure ExprCache where
  strFactorMap : OrdMap (List Byte) ℕ
  factorEntries : ℕ → Option FactorEntry
  next : ℕ
  exprEvictor : List ExprEntry
  findCount : ℕ
  hitCount : ℕ

/-- SOURCE: ExpressionCache.h:39 -/
def kEvictorSize : ℕ := 10000

namespace ExprCache

def empty : ExprCache := ⟨.empty, fun _ => none, 0, [], 0, 0⟩

/-- SOURCE: ExpressionCache.cpp:17-22, 164-166 -/
def dereferExprEntry (c : ExprCache) (p : ℕ) (expr : List Byte) : ExprCache :=
  match c.factorEntries p with
  | none => c
  | some f =>
    let exprSet := f.exprSet.erase expr
    { c with
      factorEntries := Function.update c.factorEntries p (some { f with exprSet := exprSet })
      strFactorMap := if exprSet = ∅ then c.strFactorMap.erase f.name else c.strFactorMap }

/-- SOURCE: ExpressionCache.cpp:26-32 -/
def notifyRemove (c : ExprCache) (e : ExprEntry) : ExprCache :=
  e.factors.foldl (fun c p => c.dereferExprEntry p e.expr) c

def entry (c : ExprCache) (expr : List Byte) : Option ExprEntry := c.exprEvictor.find? (·.expr = expr)

/-- The entry of an expression to the front, if there is one. -/
def relocate (c : ExprCache) (e : ExprEntry) : ExprCache :=
  { c with exprEvictor := e :: c.exprEvictor.filter (·.expr ≠ e.expr) }

/-- The first time that the cache is locked. SOURCE: ExpressionCache.cpp:45-61 -/
def lookup (c : ExprCache) (expr : List Byte) : ExprCache × Option (Finset ℤ) :=
  match c.entry expr with
  | some e =>
    ({ c.relocate e with hitCount := c.hitCount + 1, findCount := c.findCount + 1 }, some e.ids)
  | none => (c, none)

/-- SOURCE: ExpressionCache.cpp:168-183 -/
def factorFactory (c : ExprCache) (f : Factor) : ExprCache × ℕ :=
  match c.strFactorMap.find f.print with
  | some p => (c, p)
  | none =>
    ({ c with
      strFactorMap := c.strFactorMap.insert f.print c.next
      factorEntries := Function.update c.factorEntries c.next (some ⟨f.print, ∅⟩)
      next := c.next + 1 }, c.next)

/-- SOURCE: ExpressionCache.h:110-112 -/
def addExprEntry (c : ExprCache) (p : ℕ) (expr : List Byte) : ExprCache :=
  let f := (c.factorEntries p).map fun f => { f with exprSet := insert expr f.exprSet }
  { c with factorEntries := Function.update c.factorEntries p f }

/-- One factor of a new expression. SOURCE: ExpressionCache.cpp:90-94 -/
def addFactor (expr : List Byte) (r : ExprCache × List ℕ) (f : Factor) : ExprCache × List ℕ :=
  if f.type = .user then r
  else
    let (c, p) := r.1.factorFactory f
    (c.addExprEntry p expr, r.2 ++ [p])

/-- The last entry goes. SOURCE: ExpressionCache.cpp:140-146 -/
def kickOne (c : ExprCache) : ExprCache :=
  match c.exprEvictor.getLast? with
  | some e => { c with exprEvictor := c.exprEvictor.dropLast }.notifyRemove e
  | none => c

/-- One entry in every round until there are few enough. SOURCE: ExpressionCache.cpp:138-147 -/
def kick (c : ExprCache) : ExprCache := kickOne^[c.exprEvictor.length - kEvictorSize] c

/-- An expression that is there already stays as it is. SOURCE: ExpressionCache.cpp:128-136 -/
def addExprToEvictor (c : ExprCache) (e : ExprEntry) : ExprCache :=
  match c.entry e.expr with
  | some e => c.relocate e
  | none => { c with exprEvictor := e :: c.exprEvictor }.kick

/-- The second time that the cache is locked. SOURCE: ExpressionCache.cpp:74-101 -/
def store (c : ExprCache) (expr : List Byte) (factors : List Factor) (ids : Finset ℤ) : ExprCache :=
  if factors.all (·.type = .user) then c
  else
    let (c, ptrs) := factors.foldl (addFactor expr) (c, [])
    let c := c.addExprToEvictor ⟨expr, ids, ptrs⟩
    { c with findCount := c.findCount + 1 }

/-- SOURCE: ExpressionCache.cpp:150-162 -/
def deleteExprEntry (c : ExprCache) (expr : List Byte) : ExprCache :=
  match c.entry expr with
  | some e => { c with exprEvictor := c.exprEvictor.filter (·.expr ≠ expr) }.notifyRemove e
  | none => c

/-- SOURCE: ExpressionCache.cpp:105-126 -/
def invalidateFactor (c : ExprCache) (name : List Byte) : ExprCache × Bool :=
  match (c.strFactorMap.find name).bind c.factorEntries with
  | some f => ((f.exprSet.sort (· ≤ ·)).foldl deleteExprEntry c, true)
  | none => (c, false)

/-! ## What is printed -/

/-- SOURCE: ExpressionCache.cpp:254-262 -/
def factors (c : ExprCache) : Finset (List Byte) := (c.strFactorMap.entries.map Prod.fst).toFinset

def exprsInFactors (c : ExprCache) : Finset (List Byte) :=
  c.strFactorMap.values.toFinset.biUnion fun p => ((c.factorEntries p).map FactorEntry.exprSet).getD ∅

/-- SOURCE: ExpressionCache.cpp:263-275 -/
def exprs (c : ExprCache) : Finset (List Byte) := (c.exprEvictor.map ExprEntry.expr).toFinset

def factorsInExprs (c : ExprCache) : Finset (List Byte) :=
  (c.exprEvictor.flatMap fun e => e.factors.filterMap fun p => (c.factorEntries p).map FactorEntry.name).toFinset

/-- The two warnings. SOURCE: ExpressionCache.cpp:295-302 -/
def warns (c : ExprCache) : Bool × Bool :=
  (c.factors.card != c.factorsInExprs.card, c.exprs.card != c.exprsInFactors.card)

end ExprCache

/-! ## The threads -/

/-- Where a call of `Expr2Ids` is. -/
inductive Phase
  | idle
  /-- The text has been looked up and not been found; the parser does not come to an end. -/
  | parsing
  /-- Before the factor with the index `fit`. -/
  | calculating (expr : List Byte) (factors : List Factor) (ops : List Op) (fit : ℕ) (result : Finset ℤ)
  /-- Behind the end of the operators or of the factors. -/
  | crashed

/-- SOURCE: ExpressionCache.cpp:38-43 -/
def eraseSpaces (expr : List Byte) : List Byte := expr.filter (· ≠ 32)

/-- SOURCE: RFeed.ice:96 -/
inductive LoadType
  | friend | app | appFan | page | highSchool | follow | miniGroup | xiaoZu | miniSite
  deriving DecidableEq

/-- The factor that a notice is about; there are no notices for users and for `CheWen`.
SOURCE: FeedDispatcher.cpp:125-160 -/
def LoadType.factor (type : LoadType) (id : ℤ) : Factor :=
  match type with
  | friend => ⟨.friend, id⟩
  | app => ⟨.app, id⟩
  | appFan => ⟨.appFan, id⟩
  | page => ⟨.page, id⟩
  | highSchool => ⟨.highSchool, id⟩
  | follow => ⟨.follow, id⟩
  | miniGroup => ⟨.miniGroup, id⟩
  | xiaoZu => ⟨.xiaoZu, id⟩
  | miniSite => ⟨.miniSite, id⟩

structure System where
  cache : ExprCache
  db : Database
  threads : List Phase
  notices : List (LoadType × ℤ)

inductive Step
  /-- A thread calls `Expr2Ids`. -/
  | lookup (t : ℕ) (expr : List Byte)
  /-- A thread goes on. -/
  | advance (t : ℕ)
  /-- The database changes, and notices are sent. -/
  | change (db : Database) (notices : List (LoadType × ℤ))
  /-- A notice arrives. -/
  | reload (i : ℕ)

namespace System

variable (props : Properties) (fuel : ℕ)

def setThread (s : System) (t : ℕ) (ph : Phase) : System := { s with threads := s.threads.set t ph }

/-- What a thread does that has looked in vain, or found no ids. SOURCE: ExpressionCache.cpp:67-70 -/
def parse (expr : List Byte) : Phase :=
  match tokenize expr fuel with
  | some (.ok t) => .calculating expr t.factors t.ops 0 ∅
  | some (.error _) => .idle
  | none => .parsing

/-- SOURCE: ExpressionCache.cpp:36-70 -/
def lookup (s : System) (t : ℕ) (input : List Byte) : System :=
  match s.threads[t]? with
  | some .idle =>
    let expr := eraseSpaces input
    let (cache, found) := s.cache.lookup expr
    let s := { s with cache := cache }
    if (found.getD ∅).Nonempty then s.setThread t .idle else s.setThread t (parse fuel expr)
  | _ => s

/-- A factor is added to the result, or the result is put into the cache.
SOURCE: ExpressionParser.cpp:27-66, ExpressionCache.cpp:74-103 -/
def advance (s : System) (t : ℕ) : System :=
  match s.threads[t]? with
  | some (.calculating expr factors ops fit result) =>
    match factors[fit]? with
    | none =>
      if fit = 0 then s.setThread t .crashed
      else { s with cache := s.cache.store expr factors result }.setThread t .idle
    | some f =>
      if fit = 0 then s.setThread t (.calculating expr factors ops 1 (f.plus s.db props result))
      else
        match ops[fit - 1]? with
        | none => s.setThread t .crashed
        | some op => s.setThread t (.calculating expr factors ops (fit + 1) (f.apply s.db props op result))
  | _ => s

/-- SOURCE: FeedDispatcher.cpp:162-205 -/
def reload (s : System) (i : ℕ) : System :=
  match s.notices[i]? with
  | some (type, id) =>
    { s with
      cache := (s.cache.invalidateFactor (type.factor id).print).1
      notices := s.notices.eraseIdx i }
  | none => s

def step (s : System) : Step → System
  | .lookup t expr => s.lookup fuel t expr
  | .advance t => s.advance props t
  | .change db notices => { s with db := db, notices := s.notices ++ notices }
  | .reload i => s.reload i

/-- An empty cache before `n` threads. -/
def new (db : Database) (n : ℕ) : System := ⟨.empty, db, List.replicate n .idle, []⟩

end System

end Oce.FeedDispatcher
