import Hpssix.Base.Fate
import Hpssix.Db2Scan
import Hpssix.Mdb

/-!
# Hpssix.Scanner

The scanner's side of a round (`hpssixd/src/hpssixd-scanner.c`): reading the
watermark back from the master db, launching the scan script, and reading the
numbers it prints.

* `catchScannerOutput_scanReport` — what the daemon makes of the script's
  report: the counts, and the id on the last fattr line, 0 if there is none;
* `launchScannerProcess_scan` — the whole call on an undisturbed database and
  a script that succeeds.
-/

namespace Hpssix

open CText Cursor Fate Lite Rel

/-! ## reading a child's output -/

/-- `catch_line_output`: the number after the last colon of a line that starts
with `key`; the value so far on other lines. -/
def catchLineOutput (line key : Text) (val : UInt64) : Fate UInt64 :=
  if hasPrefix key line then do
    let pos ← deref (strrchr ':' line)
    pure (UInt64.ofNat (strtoull (pos.drop 2)))
  else pure val

/-- A process read through `popen`: the lines that `fgets` returned, whether
the stream ended in an error, and the status that `pclose` returned. -/
structure Child where
  lines : List Text
  readError : Bool := false
  status : Int := 0
deriving DecidableEq

/-- `errno ? errno : ENOMEM`. -/
def popenError (errno : Nat) : Nat := if errno = 0 then 12 else errno

/-! ## launching the scan -/

/-- The body of the read loop: four keys are looked for on every line. -/
def catchScannerLine (status : WorkStatus) (line : Text) : Fate WorkStatus := do
  let oidStart ← catchLineOutput line "## start oid".toList status.oidStart
  let oidEnd ← catchLineOutput line "## end oid".toList status.oidEnd
  let nScanned ← catchLineOutput line "## scanned".toList status.nScanned
  let nDeleted ← catchLineOutput line "## deleted".toList status.nDeleted
  pure { status with oidStart, oidEnd, nScanned, nDeleted }

/-- The read loop. -/
def catchScannerOutput (lines : List Text) (status : WorkStatus) : Fate WorkStatus :=
  lines.foldlM catchScannerLine status

/-- What the daemon passes to the script: the object id to start after and the
day from which changes count, from the recorded pair and the clock. -/
def scanArgs (site : Site) (now : UInt64) (last : UInt64 × UInt64) : UInt64 × Int :=
  let args := if last.1 = 0 then (UInt64.ofNat site.firstOid.val, now) else last
  (args.1, site.calendar.day (args.2 - 60 * 60 * 24).toInt64.toInt)

/-- `launch_scanner_process`: the return value and the status with the numbers
that the script printed.  `popen` is the script, as a function of its last
object id and its date. -/
def launchScannerProcess (site : Site) (query : List (Rc (Int × Int))) (now : UInt64)
    (popen : Nat → Int → Except Nat Child) (status : WorkStatus) : Fate (Int × WorkStatus) := do
  match ← await (mdbGetLastScannedStatus query) with
  | .error ret => pure (ret, status)
  | .ok last =>
    let args := scanArgs site now last
    match popen args.1.toNat args.2 with
    | .error errno => pure (popenError errno, status)
    | .ok child =>
      let status ← catchScannerOutput child.lines status
      pure (child.status, status)

/-! ## the report read back -/

/-- The last colon of a report is the one in front of its value. -/
theorem strrchr_reportLine (key value : Text) (hv : ':' ∉ value) :
    strrchr ':' (reportLine key value) = some (':' :: ' ' :: value ++ ['\n']) := by
  have hline : reportLine key value = key ++ ':' :: (' ' :: value ++ ['\n']) := by
    simp [reportLine]
  rw [hline]
  exact strrchr_append (by simp [hv]) key

theorem hasPrefix_reportLine (key value : Text) : hasPrefix key (reportLine key value) = true := by
  simp [hasPrefix, reportLine, List.append_assoc]

/-- A report is read as the number that it prints. -/
theorem catchLineOutput_reportLine (key value : Text) (hv : ':' ∉ value) (val : UInt64) :
    catchLineOutput (reportLine key value) key val =
      done (UInt64.ofNat (strtoull (value ++ ['\n']))) := by
  simp [catchLineOutput, hasPrefix_reportLine, strrchr_reportLine key value hv]

/-- A line that starts with another key is passed over. -/
theorem catchLineOutput_of_not_prefix {line key : Text} (h : hasPrefix key line = false)
    (val : UInt64) : catchLineOutput line key val = done val := by
  simp [catchLineOutput, h]

/-- A line of the report is passed over by the other keys. -/
theorem catchLineOutput_other {key key' : Text} (h1 : ¬ key <+: key') (h2 : ¬ key' <+: key)
    (value : Text) (val : UInt64) : catchLineOutput (reportLine key' value) key val = done val := by
  refine catchLineOutput_of_not_prefix ?_ val
  rw [hasPrefix, Bool.eq_false_iff, Ne, List.isPrefixOf_iff_prefix]
  intro hpre
  have hpre' : key' <+: reportLine key' value := ⟨": ".toList ++ value ++ ['\n'], by
    simp [reportLine]⟩
  obtain h | h := List.prefix_or_prefix_of_prefix hpre hpre'
  · exact h1 h
  · exact h2 h

/-- The object id that the daemon takes from the report: the last one listed,
or 0. -/
def endOid (fattr : List FattrRecord) : UInt64 :=
  match fattr.getLast? with
  | none => 0
  | some r => UInt64.ofNat r.objid.val

/-- The start id that the daemon takes from the report. -/
def startOid (lastObjid : Nat) : UInt64 :=
  UInt64.ofNat (strtoull (bashSucc lastObjid ++ ['\n']))

/-- The last object id is read back from the report. -/
theorem strtoull_endOidText (fattr : List FattrRecord) :
    UInt64.ofNat (strtoull (endOidText fattr ++ ['\n'])) = endOid fattr := by
  cases hlast : fattr.getLast? with
  | none => simp [endOidText, endOid, hlast, strtoull_newline]
  | some r =>
      have hr : strtoull (decimal r.objid.val ++ ['\n']) = r.objid.val :=
        strtoull_decimal (r.objid.isLt.trans (by decide))
      simp only [endOidText, endOid, hlast, hr]

theorem colon_not_mem_decimal (n : Nat) : ':' ∉ decimal n := not_mem_decimal n (by decide)

theorem colon_not_mem_bashSucc (n : Nat) : ':' ∉ bashSucc n := by
  unfold bashSucc
  split
  · exact colon_not_mem_decimal _
  · simpa using colon_not_mem_decimal _

theorem colon_not_mem_endOidText (fattr : List FattrRecord) : ':' ∉ endOidText fattr := by
  unfold endOidText
  split
  · exact List.not_mem_nil
  · exact colon_not_mem_decimal _

/-- The status after the script's report. -/
def scannedStatus (lastObjid : Nat) (files : ScanFiles) (status : WorkStatus) : WorkStatus :=
  { status with
    oidStart := startOid lastObjid
    oidEnd := endOid files.fattr
    nScanned := UInt64.ofNat files.fattr.length
    nDeleted := UInt64.ofNat files.deleted.length }

/-- **The report read back**: the daemon ends up with the ids and the counts of
the exports. -/
theorem catchScannerOutput_scanReport (lastObjid : Nat) {files : ScanFiles}
    (hlen : files.fattr.length + files.deleted.length < 2 ^ 64) (status : WorkStatus) :
    catchScannerOutput (scanReport lastObjid files) status =
      done (scannedStatus lastObjid files status) := by
  have hblank : ∀ s, catchScannerLine s ['\n'] = done s := fun s => rfl
  have hstart : ∀ s, catchScannerLine s (reportLine "## start oid".toList (bashSucc lastObjid)) =
      done { s with oidStart := startOid lastObjid } := fun s => by
    simp only [catchScannerLine, catchLineOutput_reportLine _ _ (colon_not_mem_bashSucc lastObjid)]
    rw [catchLineOutput_other (by decide) (by decide), catchLineOutput_other (by decide) (by decide),
      catchLineOutput_other (by decide) (by decide)]
    rfl
  have hend : ∀ s, catchScannerLine s (reportLine "## end oid".toList (endOidText files.fattr)) =
      done { s with oidEnd := endOid files.fattr } := fun s => by
    simp only [catchScannerLine, catchLineOutput_reportLine _ _ (colon_not_mem_endOidText _),
      strtoull_endOidText]
    rw [catchLineOutput_other (by decide) (by decide), catchLineOutput_other (by decide) (by decide),
      catchLineOutput_other (by decide) (by decide)]
    rfl
  have hscanned : ∀ s, catchScannerLine s
      (reportLine "## scanned".toList (decimal files.fattr.length)) =
      done { s with nScanned := UInt64.ofNat files.fattr.length } := fun s => by
    simp only [catchScannerLine, catchLineOutput_reportLine _ _ (colon_not_mem_decimal _),
      strtoull_decimal (show files.fattr.length < 2 ^ 64 by omega)]
    rw [catchLineOutput_other (by decide) (by decide), catchLineOutput_other (by decide) (by decide),
      catchLineOutput_other (by decide) (by decide)]
    rfl
  have hdeleted : ∀ s, catchScannerLine s
      (reportLine "## deleted".toList (decimal files.deleted.length)) =
      done { s with nDeleted := UInt64.ofNat files.deleted.length } := fun s => by
    simp only [catchScannerLine, catchLineOutput_reportLine _ _ (colon_not_mem_decimal _),
      strtoull_decimal (show files.deleted.length < 2 ^ 64 by omega)]
    rw [catchLineOutput_other (by decide) (by decide), catchLineOutput_other (by decide) (by decide),
      catchLineOutput_other (by decide) (by decide)]
    rfl
  simp only [catchScannerOutput, scanReport, List.foldlM_cons, List.foldlM_nil, hblank, hstart,
    hend, hscanned, hdeleted, done_bind, pure_eq]
  rfl

/-- The script, run to its end on the metadata `h`. -/
def runScript (site : Site) (h : Hpss) (lastObjid : Nat) (fromdate : Int) : Except Nat Child :=
  .ok { lines := scanReport lastObjid (scanFiles site lastObjid fromdate h) }

/-- A scan on an undisturbed master db, with a script that succeeds. -/
theorem launchScannerProcess_scan (site : Site) {h : Hpss} (hw : h.Wf) {t : List MdbRow}
    (ht : IdSorted MdbRow.id t) (now : UInt64) (status : WorkStatus) :
    launchScannerProcess site (answer (sqlLastStatus t)) now (runScript site h) status =
      done (0,
        let args := scanArgs site now (lastStatus t)
        scannedStatus args.1.toNat (scanFiles site args.1.toNat args.2 h) status) := by
  have hlen : (scanFiles site (scanArgs site now (lastStatus t)).1.toNat
      (scanArgs site now (lastStatus t)).2 h).fattr.length +
      (scanFiles site (scanArgs site now (lastStatus t)).1.toNat
        (scanArgs site now (lastStatus t)).2 h).deleted.length ≤ 2 ^ 63 :=
    length_fattr_add_length_deleted hw
  simp only [launchScannerProcess, mdbGetLastScannedStatus_answer ht, await_some, done_bind,
    runScript, pure_eq]
  rw [catchScannerOutput_scanReport _ (Nat.lt_of_le_of_lt hlen (by decide))]
  rfl

end Hpssix
