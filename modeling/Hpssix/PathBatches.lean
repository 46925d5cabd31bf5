import Mathlib.Data.List.TakeWhile
import Hpssix.Index

/-!
# Hpssix.PathBatches

`hpssix_file` over a run of path batches.  The table has no unique key on the
object id: that an object has one row rests on the update-or-insert statement
alone, and that its `name` fits its `path` on the row trigger.

* `pathFini_isSome_iff` — which batches succeed, by what the server has read of them;
* `one_current_path` — one row per object after every batch, with the path of
  the last batch that lists it, if the exports get through whole;
* `blank_piece_cut_out` — a path with an empty line in it is stored without it.
-/

namespace Hpssix

open CText Rel Trace

/-! ## the trigger -/

/-- `name` is the part of `path` after its last slash. -/
def LastPart (path name : Text) : Prop :=
  '/' ∉ name ∧ ∃ dir, path = dir ++ name ∧ (dir = [] ∨ dir.getLast? = some '/')

/-- The trigger takes the part of the path behind its last slash. -/
theorem lastPart_of_fileGetName {path name : Text} (h : fileGetName path = some name) :
    LastPart path name := by
  have hname : name.reverse = path.reverse.takeWhile fun c => c ≠ '/' := by
    unfold fileGetName at h
    split at h
    · contradiction
    · next c cs hcs =>
        rw [← Option.some.inj h, hcs, List.reverse_reverse]
  refine ⟨fun hmem => ?_, (path.reverse.dropWhile fun c => c ≠ '/').reverse, ?_, ?_⟩
  · have hslash := List.mem_takeWhile_imp (hname ▸ List.mem_reverse.mpr hmem)
    simp at hslash
  · rw [← List.reverse_reverse name, hname, ← List.reverse_append, List.takeWhile_append_dropWhile,
      List.reverse_reverse]
  · rw [List.reverse_eq_nil_iff, List.getLast?_reverse]
    cases hd : path.reverse.dropWhile fun c => c ≠ '/' with
    | nil => exact .inl rfl
    | cons c cs =>
        have hc := List.head?_dropWhile_not (fun c => decide (c ≠ '/')) path.reverse
        rw [hd] at hc
        exact .inr (by simpa using hc)

/-- The trigger finds no name in an empty path and in one that ends in a slash. -/
theorem fileGetName_isSome_iff (path : Text) :
    (fileGetName path).isSome ↔ path ≠ [] ∧ path.getLast? ≠ some '/' := by
  rw [← List.reverse_reverse path, List.getLast?_reverse, ne_eq, List.reverse_eq_nil_iff]
  unfold fileGetName
  rw [List.reverse_reverse]
  cases path.reverse with
  | nil => simp
  | cons c cs =>
      by_cases hc : c = '/'
      · simp [hc]
      · simp [hc]

/-! ## one batch -/

section Batch
variable {path : List (Oid × Text)} {db db' : Db}

/-- The row of a line. -/
theorem fileRow_eq {line : Oid × Text} {row : FileRow} (h : fileRow line = some row) :
    row.oid = line.1 ∧ row.path = line.2 ∧ LastPart row.path row.name := by
  obtain ⟨name, hname, rfl⟩ := Option.map_eq_some_iff.mp h
  exact ⟨rfl, rfl, lastPart_of_fileGetName hname⟩

/-- The statement succeeds if the objects of the lines that it uses exist and their paths
have a last part. -/
theorem pathFini_isSome_iff {lines : List (Oid × Text)} : (pathFini lines db).isSome ↔
    ∀ line ∈ usedLines lines db.file,
      db.HasObject line.1 ∧ line.2 ≠ [] ∧ line.2.getLast? ≠ some '/' := by
  unfold pathFini
  generalize usedLines lines db.file = used
  have hname : ∀ line : Oid × Text, (fileRow line).isSome ↔
      line.2 ≠ [] ∧ line.2.getLast? ≠ some '/' := fun line => by
    rw [fileRow, Option.isSome_map, fileGetName_isSome_iff]
  have hall : (used.mapM fileRow).isSome ↔ _ := isSome_mapM_iff
  simp only [hname] at hall
  cases hrows : used.mapM fileRow with
  | none =>
      have hnot := hall.not.mp (by simp [hrows])
      exact iff_of_false (by simp) fun h => hnot fun a ha => (h a ha).2
  | some rows =>
      have hnames := hall.mp (by simp [hrows])
      have hoids : rows.map FileRow.oid = used.map Prod.fst :=
        map_of_mapM hrows fun line row hrow => (fileRow_eq hrow).1
      have hobj : (∀ f ∈ rows, db.HasObject f.oid) ↔ ∀ line ∈ used, db.HasObject line.1 := by
        have hmap := congrArg (fun l => ∀ o ∈ l, db.HasObject o) hoids
        simpa only [List.forall_mem_map, eq_iff_iff] using hmap
      by_cases hf : ∀ f ∈ rows, db.HasObject f.oid
      · exact iff_of_true (by simp [if_pos hf]) fun line hl => ⟨hobj.mp hf line hl, hnames line hl⟩
      · exact iff_of_false (by simp [hf]) fun h => hf (hobj.mpr fun line hl => (h line hl).1)

/-- Of lines about distinct objects all are used. -/
theorem usedLines_of_nodup {lines : List (Oid × Text)} (hn : (lines.map Prod.fst).Nodup)
    (file : List FileRow) : usedLines lines file = lines :=
  List.filter_eq_self.mpr fun l hl => by simp [find?_eq_some_of_nodup hn hl]

/-- What a batch that gets through makes of the table. -/
theorem processPath_of_whole (hwhole : PathsWhole path) : processPath path db = pathFini path db := by
  rw [processPath, copyPath_of_whole hwhole]
  rfl

/-- At most one row per object, and every row has its path's name. -/
structure FilesOk (file : List FileRow) : Prop where
  unique : (file.map FileRow.oid).Nodup
  name : ∀ r ∈ file, LastPart r.path r.name

/-- What a batch is to leave: a listed object has one row, with the listed path,
and the others have the rows they had. -/
structure PathsStored (path : List (Oid × Text)) (before after : List FileRow) : Prop where
  listed : ∀ line ∈ path, ∃ name, fileRows line.1 after = [⟨line.1, line.2, name⟩]
  other : ∀ o, o ∉ path.map Prod.fst → fileRows o after = fileRows o before

/-- The statement keeps one row per object, and stores what the batch says. -/
theorem filesOk_pathFini (hok : FilesOk db.file) (hn : (path.map Prod.fst).Nodup)
    (h : pathFini path db = some db') :
    FilesOk db'.file ∧ PathsStored path db.file db'.file := by
  obtain ⟨rows, hrows, rfl⟩ := pathFini_eq h
  rw [usedLines_of_nodup hn] at hrows
  have hset : ∀ r s : FileRow, ({ r with path := s.path, name := s.name } : FileRow).oid = r.oid :=
    fun _ _ => rfl
  have hins : ∀ s : FileRow, FileRow.oid ((fun x => x) s) = s.oid := fun _ => rfl
  have hoids : rows.map FileRow.oid = path.map Prod.fst :=
    map_of_mapM hrows fun line row hrow => (fileRow_eq hrow).1
  have hn' : (rows.map FileRow.oid).Nodup := hoids ▸ hn
  have hlisted : ∀ row ∈ rows, fileRows row.oid
      (upsert FileRow.oid FileRow.oid (fun r s => { r with path := s.path, name := s.name })
        (fun s => s) rows db.file) = [row] := fun row hrow => by
    obtain ⟨r, hr, hval⟩ := rowsAt_upsert_of_nodup hset hins hn' hrow hok.unique
    refine hr.trans ?_
    obtain rfl | ⟨r₀, _, hoid, rfl⟩ := hval
    · rfl
    · rw [hoid]
  have hother : ∀ o, o ∉ path.map Prod.fst → fileRows o
      (upsert FileRow.oid FileRow.oid (fun r s => { r with path := s.path, name := s.name })
        (fun s => s) rows db.file) = fileRows o db.file := fun o ho =>
    rowsAt_upsert_of_notMem hset hins hn' (hoids ▸ ho) _
  refine ⟨⟨nodup_upsert hset hins hn' hok.unique, fun r hr => ?_⟩, fun line hl => ?_, hother⟩
  · by_cases ho : r.oid ∈ path.map Prod.fst
    · rw [← hoids] at ho
      obtain ⟨row, hrow, hro⟩ := List.mem_map.mp ho
      have hmem : r ∈ fileRows row.oid _ := (mem_rowsAt _).mpr ⟨hr, hro.symm⟩
      rw [hlisted row hrow, List.mem_singleton] at hmem
      obtain ⟨line, _, hline⟩ := ((mem_of_mapM hrows).1 row).mp hrow
      rw [hmem]
      exact (fileRow_eq hline).2.2
    · have hmem : r ∈ fileRows r.oid _ := (mem_rowsAt _).mpr ⟨hr, rfl⟩
      rw [hother _ ho] at hmem
      exact hok.name r ((mem_rowsAt _).mp hmem).1
  · obtain ⟨row, hline⟩ := (mem_of_mapM hrows).2 line hl
    have hrow := ((mem_of_mapM hrows).1 row).mpr ⟨line, hl, hline⟩
    obtain ⟨hoid, hpath, _⟩ := fileRow_eq hline
    exact ⟨row.name, hoid ▸ hpath ▸ hlisted row hrow⟩

/-- **A batch of the builder**, in `hpssix_file`. -/
theorem filesOk_builderBatch {tr : Transport} {files : ScanFiles}
    (h : builderBatch tr files db = some db') (hd : files.Distinct) (hk : db.KeysOk)
    (hwhole : PathsWhole files.path) (hok : FilesOk db.file) :
    FilesOk db'.file ∧ PathsStored files.path db.file db'.file := by
  obtain ⟨d₁, d₂, d₃, h₁, h₂, h₃, rfl⟩ := builderBatch_eq h
  have hframe : d₁.file = db.file ∧ d₁.KeysOk := by
    obtain ⟨cols, -, rfl⟩ := processFattr_eq h₁
    exact ⟨rfl, hk.sorted, hk.below⟩
  obtain ⟨hfile₁, hk₁⟩ := hframe
  rw [← hfile₁] at hok ⊢
  rw [processPath_of_whole hwhole] at h₂
  obtain ⟨hok₂, hstored⟩ := filesOk_pathFini hok hd.path h₂
  have hk₂ : d₂.KeysOk := by
    obtain ⟨rows, -, rfl⟩ := pathFini_eq h₂
    exact ⟨hk₁.sorted, hk₁.below⟩
  obtain ⟨-, hfile, -⟩ := processXattrs_spec h₃ hk₂ hd.xattr
  rw [processDeleted, hfile]
  exact ⟨hok₂, hstored⟩

end Batch

/-! ## a run of batches -/

/-- A batch of paths, or a change of the other tables. -/
inductive FileEvent where
  | path (lines : List (Oid × Text))
  | other (db : Db)

/-- The export of a batch gets through. -/
def FileEvent.Whole : FileEvent → Prop
  | .path lines => PathsWhole lines
  | .other _ => True

/-- A batch that fails changes nothing. -/
def Db.fileStep (db : Db) : FileEvent → Db
  | .path lines => (processPath lines db).getD db
  | .other db' => { db' with file := db.file }

/-- The batches of the run: successful, with each object at most once. -/
def PathBatch (db : Db) : FileEvent → Prop
  | .path lines => (lines.map Prod.fst).Nodup ∧ (processPath lines db).isSome
  | .other _ => True

/-- What an event is to leave. -/
def FileEventOk (db : Db) (e : FileEvent) : Prop :=
  FilesOk (db.fileStep e).file ∧
    match e with
    | .path lines => PathsStored lines db.file (db.fileStep e).file
    | .other _ => (db.fileStep e).file = db.file

/-- One batch that gets through keeps the invariant, and stores its paths. -/
theorem fileEventOk {db : Db} {e : FileEvent} (hok : FilesOk db.file) (he : PathBatch db e)
    (hwhole : e.Whole) : FileEventOk db e := by
  cases e with
  | other d => exact ⟨hok, rfl⟩
  | path lines =>
      obtain ⟨hn, hsome⟩ := he
      obtain ⟨d, hd⟩ := Option.isSome_iff_exists.mp hsome
      have hstep : db.fileStep (.path lines) = d := by simp [Db.fileStep, hd]
      rw [FileEventOk, hstep]
      rw [processPath_of_whole hwhole] at hd
      exact filesOk_pathFini hok hn hd

/-- **One current path per object**: from an empty `hpssix_file`, after every
batch of a run whose exports get through. -/
theorem one_current_path {db : Db} (h0 : db.file = []) {es : List FileEvent}
    (hes : AllSteps Db.fileStep PathBatch db es) (hwhole : ∀ e ∈ es, e.Whole) :
    AllSteps Db.fileStep FileEventOk db es := by
  have hall : AllSteps Db.fileStep (fun d e => PathBatch d e ∧ e.Whole) db es :=
    hes.and (allSteps_iff.mpr fun pre e post hsplit => hwhole e (by simp [hsplit]))
  have hinit : FilesOk db.file := by
    rw [h0]
    exact ⟨List.nodup_nil, fun r hr => absurd hr List.not_mem_nil⟩
  have hstep : ∀ (d : Db) e, FilesOk d.file → PathBatch d e ∧ e.Whole → FilesOk (d.fileStep e).file :=
    fun d e hok he => (fileEventOk hok he.1 he.2).1
  exact hall.of_invariant hinit hstep fun d e hok he => fileEventOk hok he.1 he.2

/-- The object is entered, then its path, then a new one. -/
def movedFileRun : List FileEvent :=
  [.other (tenDb true), .path [(.of 10, "/a/b".toList)], .path [(.of 10, "/c/d".toList)]]

/-- The file is moved between two batches. -/
theorem one_current_path_movedFileRun :
    AllSteps Db.fileStep PathBatch {} movedFileRun ∧ (∀ e ∈ movedFileRun, e.Whole) ∧
      AllSteps Db.fileStep FileEventOk {} movedFileRun := by
  have hes : AllSteps Db.fileStep PathBatch {} movedFileRun :=
    ⟨trivial, ⟨by decide, by decide +kernel⟩, ⟨by decide, by decide +kernel⟩, trivial⟩
  have hwhole : ∀ e ∈ movedFileRun, e.Whole := by
    simp only [movedFileRun, List.forall_mem_cons, FileEvent.Whole]
    exact ⟨trivial, by decide +kernel, by decide +kernel, fun _ h => absurd h List.not_mem_nil⟩
  exact ⟨hes, hwhole, one_current_path rfl hes hwhole⟩

/-- The name of a file has an empty line in it. -/
def blankLineRun : List FileEvent :=
  [.other (tenDb true), .path [(.of 10, "/d/x\n\ny".toList)]]

/-- The empty line is cut out of the path that is stored. -/
theorem blank_piece_cut_out : ¬ ∀ (db : Db) (es : List FileEvent), db.file = [] →
    AllSteps Db.fileStep PathBatch db es → AllSteps Db.fileStep FileEventOk db es := by
  intro h
  have hes : AllSteps Db.fileStep PathBatch {} blankLineRun :=
    ⟨trivial, ⟨by decide, by decide +kernel⟩, trivial⟩
  obtain ⟨-, ⟨-, hstored⟩, -⟩ := h {} blankLineRun rfl hes
  obtain ⟨name, hrows⟩ := hstored.listed _ List.mem_cons_self
  have hread : (fileRows (.of 10) ((({} : Db).fileStep (.other (tenDb true))).fileStep
      (.path [(.of 10, "/d/x\n\ny".toList)])).file).map FileRow.path = ["/d/x\ny".toList] := by
    decide +kernel
  rw [hrows] at hread
  have hpath : "/d/x\n\ny".toList = "/d/x\ny".toList := (List.cons.inj hread).1
  exact absurd hpath (by decide)

end Hpssix
