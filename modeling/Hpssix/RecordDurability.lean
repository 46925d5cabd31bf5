import Hpssix.Mdb

/-!
# Hpssix.RecordDurability

What the return value of `hpssix_mdb_record` says about the master db
(`libhpssix/src/hpssix-mdb.c`).

The statement runs inside a transaction that the function opens, and it does not
look at what `end transaction` returns: while another connection reads the file,
the transaction stays open and the function returns 0.  Where the insert fails,
the transaction is closed by `rollback transaction`, or SQLite has rolled it back
by then, and `rollback transaction` fails for having none
(`record_durable_iff`).
-/

namespace Hpssix

open Cursor Lite Rel

/-- `hpssix_mdb_record` while other connections read the file: `readers` is what they
do until `end transaction` is run. -/
def mdbRecordAmong (shared : Nat) (readers : List Reader) (beginRc : ExecRc) (steps : List (Rc Unit))
    (stepEnds : Bool) (endRc rollbackRc : ExecRc) (status : WorkStatus) (db : Conn (List MdbRow)) :
    Option (Nat × Conn (List MdbRow)) :=
  mdbRecord true beginRc steps stepEnds (lockedRc (sharedAfter shared readers) endRc) rollbackRc
    status db

/-- A connection that has done nothing but insert rows. -/
structure Inserting (db : Conn (List MdbRow)) : Prop where
  sorted : IdSorted MdbRow.id db.view
  grown : db.stored <+: db.view

/-- A connection that was just opened. -/
theorem inserting_open {t : List MdbRow} (h : IdSorted MdbRow.id t) : Inserting { stored := t } :=
  ⟨h, List.prefix_refl t⟩

/-- What a new connection reads back. -/
def readBack (t : List MdbRow) : Option (Except Nat (UInt64 × UInt64)) :=
  mdbGetLastScannedStatus (answer (sqlLastStatus t))

/-- What the return value promises: the row is stored, and a new connection reads a
finished round back; or nothing is stored and no transaction is open. -/
structure ReportsDurable (status : WorkStatus) (db : Conn (List MdbRow)) (ret : Nat)
    (db' : Conn (List MdbRow)) : Prop where
  success : ret = 0 → db'.stored = sqlRecord status db.view ∧
    (status.status = 0 → readBack db'.stored = some (.ok (status.oidEnd, status.scannerStart)))
  failure : ret ≠ 0 → db'.stored = db.stored ∧ db'.txn = none

/-- The insert is done after a wait. -/
def Inserted (steps : List (Rc Unit)) : Prop := ∃ rest, stepBusy steps = some (.done, rest)

section Record
variable {beginRc endRc rollbackRc : ExecRc} {steps : List (Rc Unit)} {stepEnds : Bool}
  {status : WorkStatus} {db db' : Conn (List MdbRow)} {ret : Nat}

/-- The insert is done: 0 is returned, whatever `end transaction` says. -/
theorem mdbRecord_of_inserted (hstep : Inserted steps) :
    mdbRecord true beginRc steps stepEnds endRc rollbackRc status db =
      some (0, (((db.begin beginRc).2.write (sqlRecord status)).commit endRc).2) := by
  obtain ⟨rest, hrest⟩ := hstep
  simp [mdbRecord, hrest]

/-- The insert fails: `EIO` is returned after the rollback. -/
theorem mdbRecord_of_not_inserted (hstep : ¬ Inserted steps)
    (h : mdbRecord true beginRc steps stepEnds endRc rollbackRc status db = some (ret, db')) :
    ret = errIo ∧ db' = (((db.begin beginRc).2.fail stepEnds).rollback rollbackRc).2 := by
  simp only [mdbRecord, Bool.not_true, Bool.false_eq_true, if_false] at h
  cases hs : stepBusy steps with
  | none => simp [hs] at h
  | some rc =>
      obtain ⟨rc, rest⟩ := rc
      cases rc with
      | done => exact absurd ⟨rest, hs⟩ hstep
      | _ => simpa [hs, eq_comm] using h

/-- The row that was inserted is stored exactly if it was inserted outside a
transaction or the transaction is ended. -/
theorem stored_commit_write_iff (endRc : ExecRc) (c : Conn (List MdbRow))
    {f : List MdbRow → List MdbRow}
    (hne : c.stored ≠ f c.view) :
    ((c.write f).commit endRc).2.stored = f c.view ↔ c.txn = none ∨ endRc = .ok := by
  obtain ⟨stored, _ | txn⟩ := c
  · cases endRc <;> simp [Conn.write, Conn.commit, Conn.view]
  · cases endRc <;> simp_all [Conn.write, Conn.commit, Conn.view]

/-- Later calls find a connection of the same kind. -/
theorem Inserting.record (hdb : Inserting db)
    (h : mdbRecord true beginRc steps stepEnds endRc rollbackRc status db = some (ret, db')) :
    Inserting db' := by
  obtain ⟨hsorted, hgrown⟩ := hdb
  have hsorted' := idSorted_sqlRecord hsorted status
  have hgrown' : db.stored <+: sqlRecord status db.view := hgrown.trans (List.prefix_append ..)
  have hstored : IdSorted MdbRow.id db.stored := hsorted.sublist hgrown.sublist
  by_cases hstep : Inserted steps
  · rw [mdbRecord_of_inserted hstep, Option.some.injEq, Prod.mk.injEq] at h
    obtain ⟨-, rfl⟩ := h
    obtain ⟨stored, _ | txn⟩ := db <;> cases beginRc <;> cases endRc <;>
      first
      | exact inserting_open hsorted'
      | exact ⟨hsorted', hgrown'⟩
      | exact inserting_open hstored
  · obtain ⟨-, rfl⟩ := mdbRecord_of_not_inserted hstep h
    obtain ⟨stored, _ | txn⟩ := db <;> cases beginRc <;> cases stepEnds <;> cases rollbackRc <;>
      first
      | exact ⟨hsorted, hgrown⟩
      | exact inserting_open hstored

/-- **What the return value promises holds** exactly if the insert ran outside a
transaction, because begin was refused, or the transaction comes to its end: by
`end transaction` after an insert that is done, which needs that no other
connection reads the file, and after one that failed by itself or by `rollback`. -/
theorem record_durable_iff (hdb : Inserting db) {shared : Nat} {readers : List Reader}
    (hrun : mdbRecordAmong shared readers beginRc steps stepEnds endRc rollbackRc status db =
      some (ret, db')) :
    ReportsDurable status db ret db' ↔
      beginRc ≠ .ok ∧ db.txn = none ∨
        Inserted steps ∧ sharedAfter shared readers = 0 ∧ endRc = .ok ∨
        ¬ Inserted steps ∧ (stepEnds = true ∨ rollbackRc = .ok ∨ rollbackRc = .rolledBack) := by
  unfold mdbRecordAmong at hrun
  by_cases hstep : Inserted steps
  · rw [mdbRecord_of_inserted hstep, Option.some.injEq, Prod.mk.injEq] at hrun
    obtain ⟨rfl, rfl⟩ := hrun
    have hne : db.stored ≠ sqlRecord status db.view := fun he => by
      have hlen := hdb.grown.length_le
      rw [he, sqlRecord, List.length_append, List.length_singleton] at hlen
      omega
    have hiff := stored_commit_write_iff (lockedRc (sharedAfter shared readers) endRc)
      (db.begin beginRc).2 (f := sqlRecord status) (by simpa using hne)
    rw [Conn.view_begin, Conn.txn_begin_eq_none, lockedRc_eq_ok] at hiff
    simp only [hstep, true_and, not_true_eq_false, false_and, or_false]
    rw [← hiff]
    refine ⟨fun h => (h.success rfl).1, fun h => ⟨fun _ => ⟨h, fun hstatus => ?_⟩, fun h0 => ?_⟩⟩
    · rw [h, readBack, mdbGetLastScannedStatus_answer (idSorted_sqlRecord hdb.sorted status),
        lastStatus_sqlRecord hstatus]
    · contradiction
  · obtain ⟨rfl, rfl⟩ := mdbRecord_of_not_inserted hstep hrun
    simp only [hstep, false_and, false_or, not_false_eq_true, true_and]
    rw [← Conn.txn_begin_eq_none, ← or_assoc, ← Conn.txn_fail_eq_none, ← Conn.txn_rollback_eq_none]
    refine ⟨fun h => (h.failure (by decide)).2, fun h => ⟨fun h0 => ?_, fun _ => ⟨by simp, h⟩⟩⟩
    simp [errIo] at h0

/-- A reader that has finished before the end of the transaction. -/
theorem record_durable_iff_reader_gone :
    ReportsDurable { oidEnd := 7 } { stored := [] } 0
        { stored := [mdbRow 1 { oidEnd := 7 }] } ↔
      (.ok : ExecRc) ≠ .ok ∧ (none : Option (List MdbRow)) = none ∨
        Inserted [.busy, .done] ∧ sharedAfter 1 [.drops] = 0 ∧ (.ok : ExecRc) = .ok ∨
        ¬ Inserted [.busy, .done] ∧
          (false = true ∨ (.ok : ExecRc) = .ok ∨ (.ok : ExecRc) = .rolledBack) :=
  record_durable_iff (inserting_open (idSorted_nil MdbRow.id)) rfl

/-- A reader at the end of the transaction: 0 is returned, and nothing is stored. -/
theorem record_while_read_not_durable :
    mdbRecordAmong 0 [.takes] .ok [.done] false .ok .ok { oidEnd := 7 } { stored := [] } =
        some (0, { stored := [], txn := some [mdbRow 1 { oidEnd := 7 }] }) ∧
      ¬ ReportsDurable { oidEnd := 7 } { stored := [] } 0
        { stored := [], txn := some [mdbRow 1 { oidEnd := 7 }] } :=
  ⟨rfl, fun h => absurd (h.success rfl).1 (by simp [sqlRecord])⟩

end Record

end Hpssix
