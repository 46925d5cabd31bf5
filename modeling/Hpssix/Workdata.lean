import Hpssix.Base.Cursor
import Hpssix.Base.CText
import Hpssix.Base.Rel

/-!
# Hpssix.Workdata

The workdata store (`libhpssix/src/hpssix-workdata.c`): the sqlite file
through which the builder hands the files to extract to the extractor.

The builder creates the file anew and appends one row for each file; every
extractor thread opens it and fetches its own window of rows.  Row ids are
sqlite's `integer primary key`, so they grow with every append, and
`order by id asc` is the order of the appends — the fact all readers use
(`sqlFetch_appendAll`).
-/

namespace Hpssix

open CText Cursor Rel

/-- The error numbers that the library returns. -/
def errIo : Nat := 5

/-- One row of the `hpssix_workdata` table.  `pid` holds the 64 bits of an
object id, as `sqlite3_bind_int64` stores them. -/
structure WorkRow where
  id : Nat
  pid : Int64
  path : Text
deriving DecidableEq

/-- The sqlite file: no table yet, or the rows of the table. -/
abbrev WorkFile := Option (List WorkRow)

/-- `hpssix_workdata_object_t`. -/
structure WorkObject where
  objectId : UInt64
  path : Text
deriving DecidableEq

/-- `hpssix_workdata_worklist_t`: the window asked for and, after a dispatch,
the rows fetched. -/
structure Worklist where
  offset : Nat
  count : Nat
  objectList : List WorkObject := []
deriving DecidableEq

/-! ## the statements -/

/-- `workdata_schema`: `drop table if exists`, then `create table`. -/
def workdataSchema : WorkFile → WorkFile := fun _ => some []

/-- `insert into hpssix_workdata (pid,path) values (?,?)`. -/
def sqlAppend (pid : Int64) (path : Text) (t : List WorkRow) : List WorkRow :=
  t ++ [⟨nextId WorkRow.id t, pid, path⟩]

/-- `select count(id) from hpssix_workdata`. -/
def sqlTotalcount (t : List WorkRow) : List Nat := [t.length]

/-- `select pid,path from hpssix_workdata order by id asc limit ?,?`. -/
def sqlFetch (offset count : Nat) (t : List WorkRow) : List (Int64 × Text) :=
  (limit offset count (orderAsc WorkRow.id t)).map fun r => (r.pid, r.path)

/-! ## the operations -/

/-- `hpssix_workdata_create`: opening in create mode runs the schema. -/
def workdataCreate (file : WorkFile) : WorkFile := workdataSchema file

/-- `hpssix_workdata_append`; the row is inserted by the step that is done. -/
def workdataAppend (steps : List (Rc Unit)) (pid : UInt64) (path : Text) (t : List WorkRow) :
    Option (Nat × List WorkRow) :=
  match stepBusy steps with
  | none => none
  | some (.done, _) => some (0, sqlAppend pid.toInt64 path t)
  | some _ => some (errIo, t)

/-- `hpssix_workdata_get_total_count`; the count is only written on success. -/
def workdataGetTotalCount (steps : List (Rc Nat)) : Option (Except Nat Nat) :=
  match stepBusy steps with
  | none => none
  | some (.row n, _) => some (.ok n)
  | some _ => some (.error errIo)

/-- The columns of a fetched row, copied into a work object. -/
def readObject (r : Int64 × Text) : WorkObject := ⟨r.1.toUInt64, r.2⟩

/-- The `do … while (sqlite3_step(stmt) == SQLITE_ROW)` loop: copy the current
row, step, and go on as long as the step returns a row. -/
def fetchObjects (r : Int64 × Text) : List (Rc (Int64 × Text)) → List WorkObject
  | .row r' :: steps => readObject r :: fetchObjects r' steps
  | _ => [readObject r]

/-- `hpssix_workdata_dispatch`: the return code and the work list after it.
A first step that yields no row is an error and leaves the list alone. -/
def workdataDispatch (steps : List (Rc (Int64 × Text))) (list : Worklist) :
    Option (Nat × Worklist) :=
  match stepBusy steps with
  | none => none
  | some (.row r, rest) =>
      let objects := fetchObjects r rest
      some (0, { list with objectList := objects, count := objects.length })
  | some _ => some (errIo, list)

/-! ## undisturbed runs -/

/-- A sequence of successful appends. -/
def appendAll (work : List (UInt64 × Text)) (t : List WorkRow) : List WorkRow :=
  work.foldl (fun t w => sqlAppend w.1.toInt64 w.2 t) t

@[simp] theorem workdataAppend_done (pid : UInt64) (path : Text) (t : List WorkRow) :
    workdataAppend (answer []) pid path t = some (0, sqlAppend pid.toInt64 path t) := rfl

@[simp] theorem workdataGetTotalCount_answer (t : List WorkRow) :
    workdataGetTotalCount (answer (sqlTotalcount t)) = some (.ok t.length) := rfl

theorem idSorted_appendAll (work : List (UInt64 × Text)) {t : List WorkRow}
    (h : IdSorted WorkRow.id t) : IdSorted WorkRow.id (appendAll work t) := by
  induction work generalizing t with
  | nil => exact h
  | cons w work ih => exact ih (h.append_nextId WorkRow.id rfl)

/-- The stored pairs are those of the table before, then the appended ones. -/
theorem map_appendAll (work : List (UInt64 × Text)) (t : List WorkRow) :
    (appendAll work t).map (fun r => (r.pid, r.path)) =
      t.map (fun r => (r.pid, r.path)) ++ work.map fun w => (w.1.toInt64, w.2) := by
  induction work generalizing t with
  | nil => simp [appendAll]
  | cons w work ih =>
      rw [appendAll, List.foldl_cons, ← appendAll, ih]
      simp [sqlAppend]

/-- What a fetch of a window sees after a sequence of appends to a new store:
that window of the appended sequence. -/
theorem sqlFetch_appendAll (offset count : Nat) (work : List (UInt64 × Text)) :
    sqlFetch offset count (appendAll work []) =
      (limit offset count work).map fun w => (w.1.toInt64, w.2) := by
  have hs : IdSorted WorkRow.id (appendAll work []) := idSorted_appendAll work (idSorted_nil _)
  rw [sqlFetch, orderAsc_of_pairwise _ hs, limit, List.map_take, List.map_drop, map_appendAll]
  simp [limit]

theorem fetchObjects_answer (r : Int64 × Text) (rows : List (Int64 × Text)) :
    fetchObjects r (answer rows) = (r :: rows).map readObject := by
  induction rows generalizing r with
  | nil => rfl
  | cons r' rows ih => exact congrArg (readObject r :: ·) (ih r')

/-- An undisturbed dispatch fails exactly when its window holds no row, and
otherwise fetches the window. -/
theorem workdataDispatch_answer (rows : List (Int64 × Text)) (list : Worklist) :
    workdataDispatch (answer rows) list =
      if rows = [] then some (errIo, list)
      else some (0, { list with objectList := rows.map readObject, count := rows.length }) := by
  cases rows with
  | nil => rfl
  | cons r rows => simp [workdataDispatch, fetchObjects_answer]

end Hpssix
