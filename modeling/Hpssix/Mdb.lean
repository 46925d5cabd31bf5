import Hpssix.Base.Lite
import Hpssix.Base.Rel
import Hpssix.Workdata

/-!
# Hpssix.Mdb

The master db (`libhpssix/src/hpssix-mdb.c`): the sqlite log with one row for
each recorded round of the scanner daemon.

Two queries read it back.  `hpssix_mdb_get_last_scanned_oid` takes the largest
`oid_end` of all rows, `hpssix_mdb_get_last_scanned_status` takes the row with
the largest id; what each returns on an undisturbed database is
`mdbGetLastScannedOid_answer` and `mdbGetLastScannedStatus_answer`.
-/

namespace Hpssix

open Cursor Lite Rel

/-- `hpssix_work_status_t`. -/
structure WorkStatus where
  id : UInt64 := 0
  oidStart : UInt64 := 0
  oidEnd : UInt64 := 0
  scannerStart : UInt64 := 0
  builderStart : UInt64 := 0
  extractorStart : UInt64 := 0
  extractorEnd : UInt64 := 0
  nScanned : UInt64 := 0
  nDeleted : UInt64 := 0
  nIndexed : UInt64 := 0
  nExtracted : UInt64 := 0
  status : Int32 := 0
deriving DecidableEq

/-- A row of the table `hpssix_mdb`. -/
structure MdbRow where
  id : Nat
  oidStart : Int
  oidEnd : Int
  scannerStart : Int
  builderStart : Int
  extractorStart : Int
  extractorEnd : Int
  nScanned : Int
  nDeleted : Int
  nIndexed : Int
  nExtracted : Int
  status : Int
deriving DecidableEq

/-! ## the statements -/

/-- The values that `hpssix_mdb_record` binds, under a new id. -/
def mdbRow (id : Nat) (status : WorkStatus) : MdbRow where
  id := id
  oidStart := bindInt64 status.oidStart
  oidEnd := bindInt64 status.oidEnd
  scannerStart := bindInt64 status.scannerStart
  builderStart := bindInt64 status.builderStart
  extractorStart := bindInt64 status.extractorStart
  extractorEnd := bindInt64 status.extractorEnd
  nScanned := bindInt64 status.nScanned
  nDeleted := bindInt64 status.nDeleted
  nIndexed := bindInt64 status.nIndexed
  nExtracted := bindInt64 status.nExtracted
  status := status.status.toInt

/-- `HPSSIX_MDB_SQL_RECORD`. -/
def sqlRecord (status : WorkStatus) (t : List MdbRow) : List MdbRow :=
  t ++ [mdbRow (nextId MdbRow.id t) status]

/-- The rows `where status=0`. -/
def finished (t : List MdbRow) : List MdbRow := t.filter fun r => r.status = 0

/-- `HPSSIX_MDB_SQL_LAST_OID`: an aggregate, so always one row; NULL over no rows. -/
def sqlLastOid (t : List MdbRow) : List (Option Int) := [((finished t).map MdbRow.oidEnd).max?]

/-- `HPSSIX_MDB_SQL_LAST_STAUS`. -/
def sqlLastStatus (t : List MdbRow) : List (Int × Int) :=
  (limit 0 1 (orderDesc MdbRow.id (finished t))).map fun r => (r.oidEnd, r.scannerStart)

/-! ## the operations -/

/-- `hpssix_mdb_record`.  The results of the transaction statements are not
looked at.  `stepEnds` says whether a step that fails ends the transaction by
itself, as a full disk may.  `none` while the step is still busy. -/
def mdbRecord (bindOk : Bool) (beginRc : ExecRc) (steps : List (Rc Unit)) (stepEnds : Bool)
    (endRc rollbackRc : ExecRc) (status : WorkStatus) (db : Conn (List MdbRow)) :
    Option (Nat × Conn (List MdbRow)) :=
  if !bindOk then some (errIo, db)
  else
    let db := (db.begin beginRc).2
    match stepBusy steps with
    | none => none
    | some (.done, _) => some (0, ((db.write (sqlRecord status)).commit endRc).2)
    | some _ => some (errIo, ((db.fail stepEnds).rollback rollbackRc).2)

/-- `hpssix_mdb_get_last_scanned_oid`; NULL reads as 0. -/
def mdbGetLastScannedOid (firstOid : UInt64) (steps : List (Rc (Option Int))) :
    Option (Except Nat UInt64) :=
  match stepBusy steps with
  | none => none
  | some (.row oid, _) => some (.ok (columnInt64 (oid.getD 0)))
  | some (.done, _) => some (.ok firstOid)
  | some _ => some (.error errIo)

/-- `hpssix_mdb_get_last_scanned_status`: the object id and the time stamp. -/
def mdbGetLastScannedStatus (steps : List (Rc (Int × Int))) :
    Option (Except Nat (UInt64 × UInt64)) :=
  match stepBusy steps with
  | none => none
  | some (.row (oid, ts), _) => some (.ok (columnInt64 oid, columnInt64 ts))
  | some (.done, _) => some (.ok (0, 0))
  | some _ => some (.error errIo)

/-! ## undisturbed runs -/

/-- The row that the status query selects: the last finished one. -/
def lastStatus (t : List MdbRow) : UInt64 × UInt64 :=
  match (finished t).getLast? with
  | some r => (columnInt64 r.oidEnd, columnInt64 r.scannerStart)
  | none => (0, 0)

/-- The object id that the aggregate query yields. -/
def lastOid (t : List MdbRow) : UInt64 := columnInt64 ((((finished t).map MdbRow.oidEnd).max?).getD 0)

theorem idSorted_sqlRecord {t : List MdbRow} (h : IdSorted MdbRow.id t) (status : WorkStatus) :
    IdSorted MdbRow.id (sqlRecord status t) :=
  h.append_nextId MdbRow.id rfl

theorem finished_sqlRecord {status : WorkStatus} (h : status.status = 0) (t : List MdbRow) :
    finished (sqlRecord status t) = finished t ++ [mdbRow (nextId MdbRow.id t) status] := by
  simp [finished, sqlRecord, mdbRow, h]

/-- After a finished round is recorded, its own object id and start time are
read back. -/
@[simp] theorem lastStatus_sqlRecord {status : WorkStatus} (h : status.status = 0)
    (t : List MdbRow) :
    lastStatus (sqlRecord status t) = (status.oidEnd, status.scannerStart) := by
  simp [lastStatus, finished_sqlRecord h, mdbRow]

theorem sqlLastStatus_eq {t : List MdbRow} (h : IdSorted MdbRow.id t) :
    sqlLastStatus t = ((finished t).getLast?.map fun r => (r.oidEnd, r.scannerStart)).toList := by
  have hs : (finished t).Pairwise fun a b => a.id < b.id := List.Pairwise.filter _ h
  rw [sqlLastStatus, orderDesc_of_pairwise _ hs, List.getLast?_eq_head?_reverse]
  cases (finished t).reverse <;> rfl

theorem mdbGetLastScannedStatus_answer {t : List MdbRow} (h : IdSorted MdbRow.id t) :
    mdbGetLastScannedStatus (answer (sqlLastStatus t)) = some (.ok (lastStatus t)) := by
  rw [sqlLastStatus_eq h, lastStatus]
  cases (finished t).getLast? <;> rfl

theorem mdbGetLastScannedOid_answer (firstOid : UInt64) (t : List MdbRow) :
    mdbGetLastScannedOid firstOid (answer (sqlLastOid t)) = some (.ok (lastOid t)) := rfl

/-- A record call in which every sqlite call succeeds stores the row. -/
theorem mdbRecord_answer (status : WorkStatus) (t : List MdbRow) (stepEnds : Bool)
    (rollbackRc : ExecRc) :
    mdbRecord true .ok (answer []) stepEnds .ok rollbackRc status { stored := t } =
      some (0, { stored := sqlRecord status t }) := rfl

end Hpssix
