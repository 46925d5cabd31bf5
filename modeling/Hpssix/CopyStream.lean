import Hpssix.Base.Pieces
import Hpssix.Base.Trace
import Hpssix.Workdata

/-!
# Hpssix.CopyStream

`hpssix_db_copy` (`libhpssix/src/hpssix-db.c`) with the calls it makes on the
connection, for every way a call can end.

* `copy_faithful_iff` — the file is read in pieces of a line buffer, and each
  piece is tested for being an empty line; what is sent is the file's lines
  exactly if no piece is taken for something that its line is not;
* `copy_left_iff` — whether the `COPY` is given up on an error is decided by the
  records that were counted, so an error before the first one leaves it open.
-/

namespace Hpssix

open CText Trace

/-! ## the function -/

/-- `is_line_empty`. -/
def isLineEmpty : Text → Bool
  | '#' :: _ => true
  | line => line.all isSpace

/-- `hpssix_db_copy_t`.  A line processor reads and writes what
`line_processor_data` points to, and answers with its return value and `rbuf`. -/
structure CopyJob (σ : Type _) where
  atomic : Bool
  stmtInit : Option Text
  stmtCopy : Option Text
  stmtFini : Option Text
  inputCsv : Option Text
  nProcessed : Nat
  lineProcessor : Option (σ → Text → Int × Text × σ)
  lineProcessorData : σ

/-- What becomes of the end of a `COPY`: the server accepts or refuses it, or it cannot
be sent. -/
inductive EndReply where
  | ok
  | refused
  | unsent
deriving DecidableEq

/-- What the calls of one `hpssix_db_copy` meet: `fopen`'s `errno` or what can be read
of the file, the `errno` of a read that fails behind that, and which calls on the
connection succeed.  The result of `BEGIN` is not looked at. -/
structure CopyReplies where
  file : Except Nat Text
  readErrno : Option Nat := none
  stmtInit : Bool := true
  copyInit : Bool := true
  put : Nat → Bool := fun _ => true
  copyEnd : EndReply := .ok
  stmtFini : Bool := true
  endTransaction : Bool := true

/-- The calls on the connection. -/
inductive DbCall where
  | exec (command : Text)
  | copyInit (command : Text) (started : Bool)
  | put (str : Text)
  | copyEnd (abort : Bool) (sent : Bool)
deriving DecidableEq

/-- A part of the function: the `ret` with which it goes to `out_rollback`, if it
does, and the calls it makes. -/
abbrev Stage := Option Int × List DbCall

/-- One part after the other. -/
def Stage.next (a b : Stage) : Stage :=
  match a.1 with
  | some _ => a
  | none => (b.1, a.2 ++ b.2)

/-- `hpssix_db_psql_exec` of a statement that need not be there. -/
def execStage (ok : Bool) : Option Text → Stage
  | none => (none, [])
  | some command => (if ok then none else some errIo, [.exec command])

section Function
variable {σ : Type _} (job : CopyJob σ) (replies : CopyReplies)

/-- What is sent for a line: the return value of the line processor, the text, and the
processor's data afterwards. -/
def CopyJob.convert (data : σ) (linebuf : Text) : Int × Text × σ :=
  match job.lineProcessor with
  | none => (0, linebuf, data)
  | some lineFunc =>
      let (ret, rbuf, data) := lineFunc data linebuf
      (ret, if ret = 1 then rbuf else linebuf, data)

/-- The `while` loop, with `n` records put so far. -/
def copyLoop : List Text → Nat → σ → Stage × Nat
  | [], n, _ => ((none, []), n)
  | linebuf :: rest, n, data =>
      if isLineEmpty linebuf then copyLoop rest n data
      else
        let (ret, copyInput, data) := job.convert data linebuf
        if ret < 0 then ((some ret, []), n)
        else if !replies.put n then ((some errIo, [.put copyInput]), n)
        else
          let (stage, m) := copyLoop rest (n + 1) data
          ((stage.1, .put copyInput :: stage.2), m)

/-- `hpssix_db_copy_init`. -/
def copyInit (command : Text) : Stage :=
  (if replies.copyInit then none else some errIo, [.copyInit command replies.copyInit])

/-- Up to the start of the `COPY`. -/
def copyStart (stmtCopy : Text) : Stage :=
  (execStage replies.stmtInit job.stmtInit).next (copyInit replies stmtCopy)

/-- `hpssix_db_copy_end(self, 0)`. -/
def copyEnd : Stage :=
  match replies.copyEnd with
  | .ok => (none, [.copyEnd false true])
  | .refused => (some errIo, [.copyEnd false true])
  | .unsent => (some errIo, [.copyEnd false false])

/-- Behind the end of the `COPY`. -/
def copyFini : Stage :=
  (execStage replies.stmtFini job.stmtFini).next
    (execStage replies.endTransaction (if job.atomic then some "END;".toList else none))

/-- Behind the loop: a read error, the end of the `COPY`, and what follows it. -/
def copyTail : Stage :=
  Stage.next (replies.readErrno.map Int.ofNat, []) ((copyEnd replies).next (copyFini job replies))

/-- From the start of the `COPY` on: the strings that `fgets` reads, and then the rest. -/
def copyBody (stmtCopy file : Text) : Stage × Nat :=
  match copyStart job replies stmtCopy with
  | (some ret, calls) => ((some ret, calls), 0)
  | (none, calls) =>
      let (loop, n) := copyLoop job replies ((fgets (lineMax - 1) file).map cString) 0
        job.lineProcessorData
      (Stage.next (none, calls) (loop.next (copyTail job replies)), n)

/-- What a call leaves behind: its return value, the calls that it made on the
connection, and `n_processed`. -/
structure CopyRun where
  ret : Int
  calls : List DbCall
  nProcessed : Nat
deriving DecidableEq

/-- `hpssix_db_copy`. -/
def hpssixDbCopyCalls : CopyRun :=
  match job.inputCsv, job.stmtCopy with
  | some _, some stmtCopy =>
      match replies.file with
      | .error errno => ⟨errno, [], job.nProcessed⟩
      | .ok file =>
          let begin := if job.atomic then [DbCall.exec "BEGIN;".toList] else []
          match copyBody job replies stmtCopy file with
          | ((none, calls), n) => ⟨0, begin ++ calls, n⟩
          | ((some ret, calls), n) =>
              ⟨ret, begin ++ calls ++ (if n ≠ 0 then [.copyEnd true true] else []) ++
                (if job.atomic then [.exec "ABORT;".toList] else []), job.nProcessed⟩
  | _, _ => ⟨22, [], job.nProcessed⟩

end Function

/-- The job of `hpssix_builder_process_deleted`. -/
def deletedJob (scannerOutput : Text) : CopyJob Unit where
  atomic := false
  stmtInit := some
    "CREATE TEMPORARY TABLE __deleted AS\n  (SELECT oid FROM hpssix_object LIMIT 0);\n".toList
  stmtCopy := some "COPY __deleted (oid) FROM STDIN;\n".toList
  stmtFini := some
    "UPDATE hpssix_object SET valid = false FROM __deleted s\n WHERE hpssix_object.oid = s.oid\n;DROP TABLE __deleted;\n".toList
  inputCsv := some scannerOutput
  nProcessed := 0
  lineProcessor := none
  lineProcessorData := ()

/-- The job of `hpssix_builder_process_path`. -/
def pathJob (scannerOutput : Text) : CopyJob Unit where
  atomic := false
  stmtInit := some "CREATE TEMPORARY TABLE __file AS (SELECT * FROM hpssix_file LIMIT 0);\n".toList
  stmtCopy := some
    "COPY __file (oid, path) FROM STDIN WITH DELIMITER ',' CSV QUOTE '\"';\n".toList
  stmtFini := some
    "WITH updated AS (\n    UPDATE hpssix_file\n       SET path = s.path\n      FROM __file s\n     WHERE hpssix_file.oid = s.oid\n RETURNING s.oid\n) \nINSERT INTO hpssix_file (oid, path)\n     SELECT s.oid, s.path\n       FROM __file s LEFT OUTER JOIN updated t ON s.oid = t.oid\n      WHERE t.oid IS NULL;\n".toList
  inputCsv := some scannerOutput
  nProcessed := 0
  lineProcessor := none
  lineProcessorData := ()

/-! ## what is sent -/

/-- The string that a call gives to `hpssix_db_copy_put`. -/
def DbCall.sent : DbCall → Text
  | .put str => str
  | _ => []

/-- The strings that are given to `hpssix_db_copy_put`, one after the other. -/
def sentText (calls : List DbCall) : Text := calls.flatMap DbCall.sent

@[simp] theorem sentText_nil : sentText [] = [] := rfl

@[simp] theorem sentText_append (xs ys : List DbCall) :
    sentText (xs ++ ys) = sentText xs ++ sentText ys := List.flatMap_append

@[simp] theorem sentText_map_put (ls : List Text) : sentText (ls.map .put) = ls.flatten := by
  induction ls with
  | nil => rfl
  | cons l ls ih => rw [List.map_cons, List.flatten_cons, ← ih]; rfl

@[simp] theorem sentText_execStage (ok : Bool) (stmt : Option Text) :
    sentText (execStage ok stmt).2 = [] := by
  cases stmt <;> rfl

/-- The file can be read, and every call on the connection succeeds. -/
structure CopyReplies.Ok (replies : CopyReplies) (file : Text) : Prop where
  file : replies.file = .ok file
  read : replies.readErrno = none
  stmtInit : replies.stmtInit = true
  copyInit : replies.copyInit = true
  put : ∀ n, replies.put n = true
  copyEnd : replies.copyEnd = .ok
  stmtFini : replies.stmtFini = true
  endTransaction : replies.endTransaction = true

section Stream
variable {σ : Type _} {job : CopyJob σ} {replies : CopyReplies} {file : Text}

@[simp] theorem execStage_true (stmt : Option Text) : (execStage true stmt).1 = none := by
  cases stmt <;> rfl

/-- Without a line processor the strings that are no empty lines are sent as they are. -/
theorem copyLoop_stream (hproc : job.lineProcessor = none) (hput : ∀ n, replies.put n = true)
    (lines : List Text) (n : Nat) (data : σ) :
    copyLoop job replies lines n data =
      ((none, (lines.filter fun l => !isLineEmpty l).map .put),
        n + (lines.filter fun l => !isLineEmpty l).length) := by
  induction lines generalizing n with
  | nil => rfl
  | cons l lines ih =>
      cases hl : isLineEmpty l with
      | true => simp [copyLoop, hl, ih]
      | false =>
          simp [copyLoop, CopyJob.convert, hproc, hput, hl, ih]
          omega

/-- What is sent of a file are its pieces that are no empty lines. -/
theorem sentText_hpssixDbCopyCalls (hok : replies.Ok file) (hcsv : job.inputCsv.isSome)
    (hstmt : job.stmtCopy.isSome) (hproc : job.lineProcessor = none) :
    sentText (hpssixDbCopyCalls job replies).calls =
      (((fgets (lineMax - 1) file).map cString).filter fun l => !isLineEmpty l).flatten := by
  obtain ⟨csv, hcsv⟩ := Option.isSome_iff_exists.mp hcsv
  obtain ⟨stmt, hstmt⟩ := Option.isSome_iff_exists.mp hstmt
  have hstart : copyStart job replies stmt =
      (none, (execStage true job.stmtInit).2 ++ [.copyInit stmt true]) := by
    rw [copyStart, copyInit, hok.stmtInit, hok.copyInit, Stage.next, execStage_true]
    rfl
  have hfini : copyFini job replies = (none, (execStage true job.stmtFini).2 ++
      (execStage true (if job.atomic then some "END;".toList else none)).2) := by
    rw [copyFini, hok.stmtFini, hok.endTransaction, Stage.next, execStage_true]
    simp only [execStage_true]
  have hbegin : sentText (if job.atomic then [DbCall.exec "BEGIN;".toList] else []) = [] := by
    cases job.atomic <;> rfl
  simp only [hpssixDbCopyCalls, hcsv, hstmt, hok.file, copyBody, hstart, hfini, copyTail,
    copyEnd, hok.copyEnd, hok.read, copyLoop_stream hproc hok.put, Stage.next, Option.map_none]
  simp only [sentText_append, hbegin, sentText_execStage, sentText_map_put, List.nil_append]
  simp [sentText, DbCall.sent]

/-- A piece of a file without NUL is the string that it holds. -/
theorem cString_of_mem_fgets {size : Nat} (hnul : Char.ofNat 0 ∉ file) {p : Text}
    (hp : p ∈ fgets size file) : cString p = p := by
  refine cString_eq_self fun hmem => hnul ?_
  have hflatten : Char.ofNat 0 ∈ (fgets size file).flatten := List.mem_flatten_of_mem hp hmem
  rwa [fgets, flatten_fgetsFrom, List.nil_append] at hflatten

/-- **What `COPY` is sent**: the lines of the file that are no empty lines, exactly if each
piece of a line is an empty line where the line is. -/
theorem copy_faithful_iff (hnul : Char.ofNat 0 ∉ file) (hok : replies.Ok file)
    (hcsv : job.inputCsv.isSome) (hstmt : job.stmtCopy.isSome) (hproc : job.lineProcessor = none) :
    sentText (hpssixDbCopyCalls job replies).calls =
        ((fileLines file).filter fun l => !isLineEmpty l).flatten ↔
      ∀ l ∈ fileLines file, ∀ p ∈ fgets (lineMax - 1) l, isLineEmpty p = isLineEmpty l := by
  have hpieces : (fgets (lineMax - 1) file).map cString = fgets (lineMax - 1) file :=
    (List.map_congr_left fun p hp => cString_of_mem_fgets hnul hp).trans (List.map_id _)
  rw [sentText_hpssixDbCopyCalls hok hcsv hstmt hproc, hpieces, fgets,
    filter_pieces_iff (by decide)]
  simp only [Bool.not_eq_eq_eq_not, Bool.not_not]
  rfl

/-- The list of two deleted objects, with an empty line and a comment. -/
theorem copy_faithful_iff_deleted :
    sentText (hpssixDbCopyCalls (deletedJob "deleted".toList)
        { file := .ok "7\n\n# 8\n9\n".toList }).calls =
        ((fileLines "7\n\n# 8\n9\n".toList).filter fun l => !isLineEmpty l).flatten ↔
      ∀ l ∈ fileLines "7\n\n# 8\n9\n".toList, ∀ p ∈ fgets (lineMax - 1) l,
        isLineEmpty p = isLineEmpty l :=
  copy_faithful_iff (by decide) ⟨rfl, rfl, rfl, rfl, fun _ => rfl, rfl, rfl, rfl⟩ rfl rfl rfl

end Stream

/-- A record that fills the buffer: its newline is a piece of its own, taken for an empty
line, and the next record is appended to it. -/
theorem sentText_full_record {σ : Type _} {job : CopyJob σ} {replies : CopyReplies} {l r : Text}
    (hl : '\n' ∉ l) (hnul : Char.ofNat 0 ∉ l ++ r) (hlen : l.length = lineMax - 2)
    (hr : r ≠ [] ∧ '\n' ∉ r.dropLast ∧ r.length ≤ lineMax - 2) (hkept : isLineEmpty l = false)
    (hnext : isLineEmpty r = false) (hok : replies.Ok (l ++ '\n' :: r)) (hcsv : job.inputCsv.isSome)
    (hstmt : job.stmtCopy.isSome) (hproc : job.lineProcessor = none) :
    sentText (hpssixDbCopyCalls job replies).calls = l ++ r := by
  have hne : l ≠ [] := by
    rintro rfl
    cases hlen
  have hpieces : Pieces (lineMax - 2) [l, ['\n'], r] := by
    refine ⟨?_, List.pairwise_cons.mpr ⟨fun _ _ => .inr hlen, ?_⟩⟩
    · simp only [List.forall_mem_cons]
      exact ⟨⟨hne, fun h => hl (List.dropLast_subset l h), Nat.le_of_eq hlen⟩, by decide, hr,
        fun _ h => absurd h List.not_mem_nil⟩
    · exact List.pairwise_cons.mpr ⟨fun _ _ => .inl rfl, List.pairwise_singleton ..⟩
  have hread : fgets (lineMax - 1) (l ++ '\n' :: r) = [l, ['\n'], r] := by
    have hflatten : [l, ['\n'], r].flatten = l ++ '\n' :: r := by simp
    rw [← hflatten]
    exact hpieces.fgets_flatten
  rw [List.mem_append, not_or] at hnul
  have hnewline : isLineEmpty (cString ['\n']) = true := by decide
  rw [sentText_hpssixDbCopyCalls hok hcsv hstmt hproc, hread]
  simp [cString_eq_self hnul.1, cString_eq_self hnul.2, hkept, hnext, hnewline]

/-- A record of the path export with 2046 characters in front of its newline. -/
def fullRecord : Text := "10,\"/".toList ++ List.replicate (lineMax - 8) 'a' ++ [Char.ofNat 34]

/-- Behind it another record is merged into the same line. -/
theorem copy_merges_records :
    sentText (hpssixDbCopyCalls (pathJob "path".toList)
        { file := .ok (fullRecord ++ '\n' :: "11,\"/b\"\n".toList) }).calls =
      fullRecord ++ "11,\"/b\"\n".toList ∧
    ((fileLines (fullRecord ++ '\n' :: "11,\"/b\"\n".toList)).filter fun l =>
      !isLineEmpty l).flatten = fullRecord ++ '\n' :: "11,\"/b\"\n".toList := by
  have hother : ∀ c, c ∉ "10,\"/a".toList → c ∉ fullRecord := fun c hc hmem => by
    obtain h | h := List.mem_append.mp hmem
    · obtain h | h := List.mem_append.mp h
      · exact hc (List.mem_append_left ['a'] h)
      · exact hc (List.eq_of_mem_replicate h ▸ by decide)
    · exact hc (List.mem_singleton.mp h ▸ by decide)
  have hkept : ∀ rest : Text, isLineEmpty (fullRecord ++ rest) = false := fun rest => rfl
  have hlen : fullRecord.length = lineMax - 2 := by
    rw [fullRecord, List.length_append, List.length_append, List.length_replicate]
    rfl
  constructor
  · refine sentText_full_record (hother _ (by decide)) ?_ hlen (by decide) ?_ (by decide)
      ⟨rfl, rfl, rfl, rfl, fun _ => rfl, rfl, rfl, rfl⟩ rfl rfl rfl
    · exact fun h => (List.mem_append.mp h).elim (hother _ (by decide)) (by decide)
    · rw [← List.append_nil fullRecord]
      exact hkept []
  · rw [fileLines_line (hother _ (by decide)), List.filter_cons_of_pos (by rw [hkept]; rfl),
      List.flatten_cons, List.append_assoc]
    rfl

/-! ## the connection -/

/-- What the calls have come to: whether a `COPY` was started, and whether one is open. -/
structure CopyMode where
  started : Bool := false
  inCopy : Bool := false
deriving DecidableEq

def CopyMode.step (m : CopyMode) : DbCall → CopyMode
  | .copyInit _ true => ⟨true, true⟩
  | .copyEnd _ true => { m with inCopy := false }
  | _ => m

/-- A statement is for a connection without an open `COPY`; an end is for a `COPY` that was
started. -/
def CopyMode.Allows (m : CopyMode) : DbCall → Prop
  | .exec _ => m.inCopy = false
  | .copyInit .. => m.inCopy = false
  | .put _ => True
  | .copyEnd .. => m.started = true

instance (m : CopyMode) : (c : DbCall) → Decidable (m.Allows c)
  | .exec _ => inferInstanceAs (Decidable (m.inCopy = false))
  | .copyInit .. => inferInstanceAs (Decidable (m.inCopy = false))
  | .put _ => inferInstanceAs (Decidable True)
  | .copyEnd .. => inferInstanceAs (Decidable (m.started = true))

/-- Calls that are all allowed, and leave no `COPY` open. -/
def LeavesCopy (calls : List DbCall) : Prop :=
  AllSteps CopyMode.step CopyMode.Allows {} calls ∧ (run CopyMode.step {} calls).inCopy = false

section Mode
variable {σ : Type _} {job : CopyJob σ} {replies : CopyReplies} {file stmt : Text} {m : CopyMode}

/-- Statements change nothing. -/
theorem mode_execStage (ok : Bool) (command : Option Text) (hm : m.inCopy = false) :
    AllSteps CopyMode.step CopyMode.Allows m (execStage ok command).2 ∧
      run CopyMode.step m (execStage ok command).2 = m := by
  cases command with
  | none => exact ⟨trivial, rfl⟩
  | some c => exact ⟨⟨hm, trivial⟩, rfl⟩

/-- Records that are put change nothing. -/
theorem mode_copyLoop (lines : List Text) (n : Nat) (data : σ) :
    AllSteps CopyMode.step CopyMode.Allows m (copyLoop job replies lines n data).1.2 ∧
      run CopyMode.step m (copyLoop job replies lines n data).1.2 = m := by
  induction lines generalizing n data with
  | nil => exact ⟨trivial, rfl⟩
  | cons l lines ih =>
      rw [copyLoop]
      split
      · exact ih n data
      · dsimp only
        split
        · exact ⟨trivial, rfl⟩
        · split
          · exact ⟨⟨trivial, trivial⟩, rfl⟩
          · obtain ⟨hall, hrun⟩ := ih (n + 1) (job.convert data l).2.2
            exact ⟨⟨trivial, hall⟩, hrun⟩

/-- Two parts in a row. -/
theorem mode_next {a b : Stage} {m₁ m₂ : CopyMode}
    (ha : AllSteps CopyMode.step CopyMode.Allows m a.2 ∧ run CopyMode.step m a.2 = m₁)
    (hb : a.1 = none → AllSteps CopyMode.step CopyMode.Allows m₁ b.2 ∧
      run CopyMode.step m₁ b.2 = m₂) :
    AllSteps CopyMode.step CopyMode.Allows m (a.next b).2 ∧
      run CopyMode.step m (a.next b).2 = if a.1 = none then m₂ else m₁ := by
  obtain ⟨exit, calls⟩ := a
  cases exit with
  | some ret => exact ha
  | none =>
      obtain ⟨hall, hrun⟩ := hb rfl
      obtain ⟨hall₁, hrun₁⟩ := ha
      dsimp only at hall₁ hrun₁
      rw [Stage.next, if_pos rfl]
      exact ⟨allSteps_append.mpr ⟨hall₁, hrun₁ ▸ hall⟩, by rw [run_append, hrun₁, hrun]⟩

/-! ### where a `COPY` is open -/

/-- The `COPY` is started. -/
def startsCopy (job : CopyJob σ) (replies : CopyReplies) : Bool :=
  (job.stmtInit.isNone || replies.stmtInit) && replies.copyInit

/-- The copy starts exactly if its statements are carried out. -/
theorem copyStart_eq_none_iff : (copyStart job replies stmt).1 = none ↔ startsCopy job replies := by
  unfold copyStart copyInit startsCopy
  cases job.stmtInit <;> cases replies.stmtInit <;> cases replies.copyInit <;>
    simp [execStage, Stage.next]

/-- The calls of the start are allowed, and a copy is open if it starts. -/
theorem mode_copyStart (hm : m.inCopy = false) :
    AllSteps CopyMode.step CopyMode.Allows m (copyStart job replies stmt).2 ∧
      run CopyMode.step m (copyStart job replies stmt).2 =
        if startsCopy job replies then ⟨true, true⟩ else m := by
  have hinit := mode_execStage replies.stmtInit job.stmtInit hm
  have hcopy : AllSteps CopyMode.step CopyMode.Allows m (copyInit replies stmt).2 ∧
      run CopyMode.step m (copyInit replies stmt).2 =
        if replies.copyInit then ⟨true, true⟩ else m := by
    refine ⟨⟨hm, trivial⟩, ?_⟩
    unfold copyInit
    cases replies.copyInit <;> rfl
  obtain ⟨hall, hrun⟩ := mode_next hinit fun _ => hcopy
  refine ⟨hall, hrun.trans ?_⟩
  unfold startsCopy
  cases job.stmtInit <;> cases replies.stmtInit <;> cases replies.copyInit <;> simp [execStage]

/-- Behind the loop a `COPY` stays open after a read error, and if its end cannot be sent. -/
theorem mode_copyTail :
    AllSteps CopyMode.step CopyMode.Allows ⟨true, true⟩ (copyTail job replies).2 ∧
      run CopyMode.step ⟨true, true⟩ (copyTail job replies).2 =
        ⟨true, replies.readErrno.isSome || decide (replies.copyEnd = .unsent)⟩ := by
  unfold copyTail
  cases hread : replies.readErrno with
  | some errno => simp [Stage.next, AllSteps]
  | none =>
      have hclosed : (⟨true, false⟩ : CopyMode).inCopy = false := rfl
      have hfini := mode_next (mode_execStage replies.stmtFini job.stmtFini hclosed)
        fun _ => mode_execStage replies.endTransaction
          (if job.atomic then some "END;".toList else none) hclosed
      rw [ite_self] at hfini
      cases hend : replies.copyEnd with
      | ok =>
          have hcopy : AllSteps CopyMode.step CopyMode.Allows ⟨true, true⟩ (copyEnd replies).2 ∧
              run CopyMode.step ⟨true, true⟩ (copyEnd replies).2 = ⟨true, false⟩ := by
            simp [copyEnd, hend, AllSteps, CopyMode.Allows, CopyMode.step]
          have hboth := mode_next hcopy fun _ => hfini
          simpa [Stage.next, copyEnd, hend, copyFini] using hboth
      | refused => simp [Stage.next, copyEnd, hend, AllSteps, CopyMode.Allows, CopyMode.step]
      | unsent => simp [Stage.next, copyEnd, hend, AllSteps, CopyMode.Allows, CopyMode.step]

/-! ### the records that are counted -/

/-- The strings of the file that are no empty lines. -/
def copyRecords (file : Text) : List Text :=
  ((fgets (lineMax - 1) file).map cString).filter fun l => !isLineEmpty l

/-- Pieces that are left out do not matter to the loop. -/
theorem copyLoop_filter (lines : List Text) (n : Nat) (data : σ) :
    copyLoop job replies (lines.filter fun l => !isLineEmpty l) n data =
      copyLoop job replies lines n data := by
  induction lines generalizing n data with
  | nil => rfl
  | cons l lines ih =>
      cases hl : isLineEmpty l with
      | true =>
          rw [List.filter_cons_of_neg (by simp [hl]), ih, copyLoop, if_pos hl]
      | false =>
          rw [List.filter_cons_of_pos (by simp [hl]), copyLoop, copyLoop]
          simp only [ih]

/-- The loop counts upwards. -/
theorem le_copyLoop (lines : List Text) (n : Nat) (data : σ) :
    n ≤ (copyLoop job replies lines n data).2 := by
  induction lines generalizing n data with
  | nil => exact Nat.le_refl n
  | cons l lines ih =>
      rw [copyLoop]
      split
      · exact ih n data
      · dsimp only
        split
        · exact Nat.le_refl n
        · split
          · exact Nat.le_refl n
          · exact Nat.le_of_succ_le (ih (n + 1) _)

/-- The first record is not taken: it cannot be converted or put. -/
def refusesRecord (job : CopyJob σ) (replies : CopyReplies) (linebuf : Text) : Prop :=
  (job.convert job.lineProcessorData linebuf).1 < 0 ∨ replies.put 0 = false

/-- No record is counted if there is none, or the first is not taken; the loop is then left
for `out_rollback`. -/
theorem copyLoop_cons {l : Text} {lines : List Text} (hl : isLineEmpty l = false) :
    (refusesRecord job replies l →
      (copyLoop job replies (l :: lines) 0 job.lineProcessorData).2 = 0 ∧
        (copyLoop job replies (l :: lines) 0 job.lineProcessorData).1.1 ≠ none) ∧
      (¬ refusesRecord job replies l →
        (copyLoop job replies (l :: lines) 0 job.lineProcessorData).2 ≠ 0) := by
  rw [copyLoop, if_neg (by simp [hl])]
  unfold refusesRecord
  generalize job.convert job.lineProcessorData l = converted
  dsimp only
  by_cases hret : converted.1 < 0
  · simp [hret]
  · by_cases hput : replies.put 0 = false
    · simp [hret, hput]
    · have hle : 1 ≤ (copyLoop job replies lines 1 converted.2.2).2 := le_copyLoop ..
      refine ⟨fun h => absurd h (by simp [hret, hput]), fun _ => ?_⟩
      rw [if_neg hret, if_neg (by simp [hput])]
      exact Nat.ne_of_gt hle

/-! ### the whole function -/

/-- The function fails with an open `COPY` before a record was counted: the first record is not
taken, or there is none and the read fails or the end of the `COPY` cannot be sent. -/
def StopsUncounted (job : CopyJob σ) (replies : CopyReplies) : Prop :=
  job.inputCsv.isSome ∧ job.stmtCopy.isSome ∧ startsCopy job replies ∧
    ∃ file, replies.file = .ok file ∧
      match copyRecords file with
      | [] => replies.readErrno ≠ none ∨ replies.copyEnd = .unsent
      | linebuf :: _ => refusesRecord job replies linebuf

/-- The mode in which the body leaves the connection, and when that is an open `COPY`
without a record counted. -/
theorem mode_copyBody :
    AllSteps CopyMode.step CopyMode.Allows {} (copyBody job replies stmt file).1.2 ∧
      ((copyBody job replies stmt file).2 ≠ 0 →
        (run CopyMode.step {} (copyBody job replies stmt file).1.2).started = true) ∧
      ((run CopyMode.step {} (copyBody job replies stmt file).1.2).inCopy = true ∧
          (copyBody job replies stmt file).2 = 0 ↔
        startsCopy job replies ∧
          match copyRecords file with
          | [] => replies.readErrno ≠ none ∨ replies.copyEnd = .unsent
          | linebuf :: _ => refusesRecord job replies linebuf) := by
  have hclosed : (({} : CopyMode)).inCopy = false := rfl
  have hstart : AllSteps CopyMode.step CopyMode.Allows {} (copyStart job replies stmt).2 ∧
      run CopyMode.step {} (copyStart job replies stmt).2 =
        if startsCopy job replies then ⟨true, true⟩ else {} := mode_copyStart hclosed
  have hnone : (copyStart job replies stmt).1 = none ↔ startsCopy job replies :=
    copyStart_eq_none_iff
  rw [copyBody]
  generalize copyStart job replies stmt = start at hstart hnone
  obtain ⟨exit, calls⟩ := start
  dsimp only at hstart hnone
  cases exit with
  | some ret =>
      have hno : startsCopy job replies = false := by simpa using hnone
      rw [hno] at hstart
      refine ⟨hstart.1, fun h => absurd rfl h, ?_⟩
      simp [hno, hstart.2]
  | none =>
      have hyes : startsCopy job replies = true := hnone.mp rfl
      rw [hyes, if_pos rfl] at hstart
      have hopen : AllSteps CopyMode.step CopyMode.Allows {} ((none, calls) : Stage).2 ∧
        run CopyMode.step {} ((none, calls) : Stage).2 = ⟨true, true⟩ := hstart
      dsimp only
      generalize hlines : (fgets (lineMax - 1) file).map cString = lines
      have hrecords : copyRecords file = lines.filter fun l => !isLineEmpty l := by
        rw [copyRecords, hlines]
      rw [hrecords, ← copyLoop_filter]
      obtain ⟨hall, hrun⟩ := mode_next hopen fun _ => mode_next
        (mode_copyLoop (lines.filter fun l => !isLineEmpty l) 0 job.lineProcessorData)
        fun _ => mode_copyTail
      rw [if_pos rfl] at hrun
      refine ⟨hall, fun _ => ?_, ?_⟩
      · rw [hrun]
        split <;> rfl
      · rw [hrun]
        cases hfilter : lines.filter fun l => !isLineEmpty l with
        | nil => simp [copyLoop, hyes, Option.isSome_iff_ne_none]
        | cons l rest =>
            have hl : isLineEmpty l = false := by
              have hmem : l ∈ lines.filter fun l => !isLineEmpty l := by simp [hfilter]
              simpa using (List.mem_filter.mp hmem).2
            obtain ⟨hrefused, htaken⟩ := @copyLoop_cons σ job replies l rest hl
            by_cases h : refusesRecord job replies l
            · obtain ⟨hzero, hexit⟩ := hrefused h
              simp [hzero, hexit, h, hyes]
            · simp [htaken h, h]

/-- The calls behind `out_rollback`: an end if a record was counted, and `ABORT`. -/
theorem mode_rollback {n : Nat} (atomic : Bool) (hstarted : n ≠ 0 → m.started = true) :
    AllSteps CopyMode.step CopyMode.Allows m
        ((if n ≠ 0 then [.copyEnd true true] else []) ++
          (if atomic then [.exec "ABORT;".toList] else [])) ∧
      (run CopyMode.step m ((if n ≠ 0 then [.copyEnd true true] else []) ++
        (if atomic then [.exec "ABORT;".toList] else []))).inCopy = false ↔
      ¬ (m.inCopy = true ∧ n = 0) := by
  by_cases hn : n = 0
  · cases atomic <;> simp [hn, AllSteps, CopyMode.Allows, CopyMode.step]
  · cases atomic <;> simp [hn, hstarted hn, AllSteps, CopyMode.Allows, CopyMode.step]

/-- **Leaving `COPY` on an error**: a call that fails closes what it opened, ends only what it
started and leaves `n_processed`, exactly if it does not fail with an open `COPY` before
a record was counted. -/
theorem copy_left_iff (h : (hpssixDbCopyCalls job replies).ret ≠ 0) :
    (LeavesCopy (hpssixDbCopyCalls job replies).calls ∧
      (hpssixDbCopyCalls job replies).nProcessed = job.nProcessed) ↔
      ¬ StopsUncounted job replies := by
  have hnothing : LeavesCopy [] := ⟨trivial, rfl⟩
  unfold hpssixDbCopyCalls at h ⊢
  unfold StopsUncounted
  cases hcsv : job.inputCsv with
  | none => simp [hnothing]
  | some csv =>
  cases hstmt : job.stmtCopy with
  | none => simp [hnothing]
  | some stmt =>
  cases hfile : replies.file with
  | error errno => simp [hnothing]
  | ok file =>
      have hbody : AllSteps CopyMode.step CopyMode.Allows {} (copyBody job replies stmt file).1.2 ∧ _ :=
        mode_copyBody
      simp only [hcsv, hstmt, hfile] at h ⊢
      generalize copyBody job replies stmt file = body at h hbody ⊢
      obtain ⟨⟨exit, calls⟩, n⟩ := body
      obtain ⟨hall, hstarted, hopen⟩ := hbody
      cases exit with
      | none => exact absurd rfl h
      | some ret =>
          dsimp only at hall hstarted hopen ⊢
          have hbegin : AllSteps CopyMode.step CopyMode.Allows {}
                (if job.atomic then [DbCall.exec "BEGIN;".toList] else []) ∧
              run CopyMode.step {} (if job.atomic then [DbCall.exec "BEGIN;".toList] else []) = {} := by
            cases job.atomic <;> simp [AllSteps, CopyMode.Allows, CopyMode.step]
          simp only [LeavesCopy, List.append_assoc, allSteps_append, run_append, hbegin.1, hbegin.2,
            hall, true_and, and_true, Option.isSome_some, Except.ok.injEq, exists_eq_left']
          rw [← hopen, ← mode_rollback job.atomic hstarted, allSteps_append, run_append]

end Mode

/-- The second of two records cannot be put. -/
theorem copy_left_iff_second :
    (hpssixDbCopyCalls (deletedJob "deleted".toList)
        { file := .ok "7\n9\n".toList, put := fun n => n == 0 }).ret ≠ 0 ∧
      ((LeavesCopy (hpssixDbCopyCalls (deletedJob "deleted".toList)
            { file := .ok "7\n9\n".toList, put := fun n => n == 0 }).calls ∧
          (hpssixDbCopyCalls (deletedJob "deleted".toList)
            { file := .ok "7\n9\n".toList, put := fun n => n == 0 }).nProcessed = 0) ↔
        ¬ StopsUncounted (deletedJob "deleted".toList)
          { file := .ok "7\n9\n".toList, put := fun n => n == 0 }) :=
  ⟨by decide, copy_left_iff (by decide)⟩

/-- The first record cannot be put: the `COPY` is left open. -/
theorem copy_left_open :
    (hpssixDbCopyCalls (deletedJob "deleted".toList)
        { file := .ok "7\n9\n".toList, put := fun _ => false }).ret ≠ 0 ∧
      (run CopyMode.step {} (hpssixDbCopyCalls (deletedJob "deleted".toList)
        { file := .ok "7\n9\n".toList, put := fun _ => false }).calls).inCopy = true := by
  decide

/-- Where the last statement fails, the end of a `COPY` is sent once more. -/
example : ((hpssixDbCopyCalls (deletedJob "deleted".toList)
    { file := .ok "7\n".toList, stmtFini := false }).calls.filter fun c =>
      c matches .copyEnd ..) = [.copyEnd false true, .copyEnd true true] := by
  decide

end Hpssix
