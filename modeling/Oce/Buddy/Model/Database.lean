import Oce.Buddy.Model.CommonFriend
import Oce.Buddy.Model.Relation

/-!
# The database of relations and the loader

A table is the list of its rows by their two key columns; a table that is split over
several (`relation_17`, `buddyapply_accepter_17`, …) is the union of its parts, since the
column that a row is read by also says which part it is in. The columns without influence
on a relation (`TIME`, the properties of an apply) are left out.

The loader reads five lists for a user. It keeps one set of all the users it has seen
(`building[0]`), so an id that two queries return goes into the first list only and the
second time into the duplicates, whose rows in `relation_block` are deleted afterwards.
-/

set_option autoImplicit false

namespace Oce.Buddy

open Oce.Base

/-- The rows of a table. -/
abbrev Rows := List (ℤ × ℤ)

/-- `relation_block` and `relation_N` by `(HOST, GUEST)`, `buddyapply_applicant_N` and
`buddyapply_accepter_N` by `(APPLICANT, ACCEPTER)`. SOURCE: BuddyCreate.h:18-29 -/
structure BuddyDatabase where
  block : Rows
  friend : Rows
  applicant : Rows
  accepter : Rows
  deriving DecidableEq

/-- `REPLACE INTO`. -/
def Rows.replaceRow (row : ℤ × ℤ) (rows : Rows) : Rows := rows.filter (· ≠ row) ++ [row]

/-- `DELETE FROM … WHERE` both key columns. -/
def Rows.deleteRow (row : ℤ × ℤ) (rows : Rows) : Rows := rows.filter (· ≠ row)

namespace BuddyDatabase

/-! ## BuddyDatabaseHelper -/

/-- SOURCE: cache/BuddyI.cpp:1102-1120 -/
def insertBuddyApply (db : BuddyDatabase) (applicant accepter : ℤ) : BuddyDatabase :=
  { db with
    accepter := db.accepter.replaceRow (applicant, accepter)
    applicant := db.applicant.replaceRow (applicant, accepter) }

/-- SOURCE: cache/BuddyI.cpp:1122-1139 -/
def deleteBuddyApply (db : BuddyDatabase) (applicant accepter : ℤ) : BuddyDatabase :=
  { db with
    accepter := db.accepter.deleteRow (applicant, accepter)
    applicant := db.applicant.deleteRow (applicant, accepter) }

/-- SOURCE: cache/BuddyI.cpp:1141-1158 -/
def insertRelationBi (db : BuddyDatabase) (fromId toId : ℤ) : BuddyDatabase :=
  { db with friend := (db.friend.replaceRow (fromId, toId)).replaceRow (toId, fromId) }

/-- SOURCE: cache/BuddyI.cpp:1160-1175 -/
def deleteRelationBi (db : BuddyDatabase) (fromId toId : ℤ) : BuddyDatabase :=
  { db with friend := (db.friend.deleteRow (fromId, toId)).deleteRow (toId, fromId) }

/-- SOURCE: cache/BuddyI.cpp:1177-1187 -/
def insertBlock (db : BuddyDatabase) (fromId toId : ℤ) : BuddyDatabase :=
  { db with block := db.block ++ [(fromId, toId)] }

/-- SOURCE: cache/BuddyI.cpp:1189-1197 -/
def deleteBlock (db : BuddyDatabase) (fromId toId : ℤ) : BuddyDatabase :=
  { db with block := db.block.deleteRow (fromId, toId) }

end BuddyDatabase

/-! ## The loader -/

/-- What one query has collected. SOURCE: BuddyCreate.h:111-136 -/
structure BuddyResultHandler where
  totalbuilding : AscSeq ℤ
  building : AscSeq ℤ
  duplicates : List ℤ

/-- SOURCE: BuddyCreate.h:119-129 -/
def BuddyResultHandler.handle (h : BuddyResultHandler) (toId : ℤ) : BuddyResultHandler :=
  if toId ∈ h.totalbuilding then { h with duplicates := h.duplicates ++ [toId] }
  else { h with totalbuilding := h.totalbuilding.insert toId, building := h.building.insert toId }

/-- A query that finds the ids `tos`, in the order of the rows. -/
def queryIds (total : AscSeq ℤ) (tos : List ℤ) : BuddyResultHandler :=
  tos.foldl BuddyResultHandler.handle ⟨total, AscSeq.empty, []⟩

namespace BuddyDatabase

/-- The second columns of the rows that have `id` in the first. -/
def guestsOf (rows : Rows) (id : ℤ) : List ℤ := (rows.filter (·.1 = id)).map Prod.snd

/-- The first columns of the rows that have `id` in the second. -/
def hostsOf (rows : Rows) (id : ℤ) : List ℤ := (rows.filter (·.2 = id)).map Prod.fst

/-! The five queries, each with the users of the ones before it. SOURCE: BuddyCreate.cpp:13-54 -/

def blockQuery (db : BuddyDatabase) (id : ℤ) : BuddyResultHandler :=
  queryIds AscSeq.empty (guestsOf db.block id)

def blockedQuery (db : BuddyDatabase) (id : ℤ) : BuddyResultHandler :=
  queryIds (db.blockQuery id).totalbuilding (hostsOf db.block id)

def friendQuery (db : BuddyDatabase) (id : ℤ) : BuddyResultHandler :=
  queryIds (db.blockedQuery id).totalbuilding (guestsOf db.friend id)

def appliedQuery (db : BuddyDatabase) (id : ℤ) : BuddyResultHandler :=
  queryIds (db.friendQuery id).totalbuilding (hostsOf db.accepter id)

def applyQuery (db : BuddyDatabase) (id : ℤ) : BuddyResultHandler :=
  queryIds (db.appliedQuery id).totalbuilding (guestsOf db.applicant id)

/-- The users in both block lists, who make up the biblock list. SOURCE: BuddyCreate.cpp:55-68 -/
def blockIntersection (db : BuddyDatabase) (id : ℤ) : List ℤ :=
  (db.blockQuery id).building.vals.filter (· ∈ (db.blockedQuery id).building)

/-- `BuddyRelationFactory::create`. SOURCE: BuddyCreate.cpp:8-106 -/
def create (db : BuddyDatabase) (id : ℤ) : BuddyRelation where
  friends := (db.friendQuery id).building
  apply := (db.applyQuery id).building
  applied := (db.appliedQuery id).building
  block := (db.blockIntersection id).foldl (fun s x => s.eraseAll x) (db.blockQuery id).building
  blocked := (db.blockIntersection id).foldl (fun s x => s.eraseAll x) (db.blockedQuery id).building
  biblock := (db.blockIntersection id).foldl (fun s x => s.insert x) AscSeq.empty

end BuddyDatabase

/-!
## The cleanup behind a load

Every load leaves the duplicates it met to a task, and the task schedules one `DELETE … LIMIT 1` for
each of them in `relation_block`. A statement that is scheduled runs some time later, so loads of
this and of other users stand between.
-/

namespace BuddyDatabase

/-- The rows that the cleanup of a load deletes, one for each statement. For duplicates of the other
kinds the statement is built and not run. SOURCE: BuddyCreate.cpp:108-199 -/
def cleanupRows (db : BuddyDatabase) (userId : ℤ) : List (ℤ × ℤ) :=
  (db.blockQuery userId).duplicates.map (fun toId => (userId, toId)) ++
    (db.blockedQuery userId).duplicates.map fun toId => (toId, userId)

end BuddyDatabase

/-- The database, and the rows whose statements are scheduled. -/
structure CleanupState where
  db : BuddyDatabase
  scheduled : List (ℤ × ℤ)

/-- A load of a user, or the run of one of the scheduled statements. -/
inductive CleanupEvent where
  | create (userId : ℤ)
  | delete (place : ℕ)

namespace CleanupState

def step (s : CleanupState) : CleanupEvent → CleanupState
  | .create userId => { s with scheduled := s.scheduled ++ s.db.cleanupRows userId }
  | .delete place =>
    match s.scheduled[place]? with
    | none => s
    | some row => ⟨{ s.db with block := s.db.block.erase row }, s.scheduled.eraseIdx place⟩

def run (s : CleanupState) (evs : List CleanupEvent) : CleanupState := evs.foldl step s

end CleanupState

end Oce.Buddy
