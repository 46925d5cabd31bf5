import Hpssix.Base.Txn
import Hpssix.Index
import Hpssix.Workdata

/-!
# Hpssix.BuilderRun

One run of the process `hpssix-builder` in task mode
(`tools/builder/src/hpssix-builder.c`), with every outcome of its calls.

A C function that makes one call after the other and leaves at the first that
fails is the list of its calls.  Whether a call is refused is a field of the
environment; what a statement does is the function of `Hpssix.Builder`.

The attribute export is read by `builder_collect_xattrs`, which does not ask
whether a pass over the file has ended in a read error: the records behind it are
left out, and where its two passes differ, or a record cannot be parsed, the
process dies.

* `completes_builderSteps` — calls that all succeed are the batch of
  `builderBatch` on what was read;
* `builder_honest_iff` — when the exit status tells the truth about the commit.
-/

namespace Hpssix

open CText Rel Txn

/-! ## the session -/

/-- What the builder works on: the tables, its temporary tables, and the key ids
that it has collected. -/
structure Session where
  db : Db
  object : Option (List ObjectCols) := none
  file : Option (List (Oid × Text)) := none
  deleted : Option (List Oid) := none
  tags : List (Oid × Nat × Text) := []
deriving DecidableEq

/-! ## hpssix_db_copy -/

/-- Which calls of one `hpssix_db_copy` are refused.  `line` is what comes of
reading, converting and queueing a line. -/
structure CopyEnv where
  fopen : Bool := true
  stmtInit : Bool := true
  copyInit : Bool := true
  line : Nat → Bool := fun _ => true
  ferror : Bool := true
  copyEnd : Bool := true
  stmtFini : Bool := true

/-- `hpssix_db_copy_t`: the number of lines of the input that are no empty ones, and
what the statements do. -/
structure DbCopy where
  lines : Nat
  stmtInit : Session → Option Session
  stmtCopy : Session → Option Session
  stmtFini : Session → Option Session

/-- `hpssix_db_copy`.  A `COPY` takes effect at its end, so one that is given up
has none. -/
def hpssixDbCopy (env : CopyEnv) (copy : DbCopy) : List (Step Session) :=
  [.call fun _ => env.fopen, .sql env.stmtInit copy.stmtInit, .sql env.copyInit some] ++
    (List.range copy.lines).map (fun i => .call fun _ => env.line i) ++
    [.call fun _ => env.ferror, .sql env.copyEnd copy.stmtCopy, .sql env.stmtFini copy.stmtFini]

/-- The copy of the fattr export. -/
def fattrCopy (fattr : List FattrRecord) : DbCopy where
  lines := fattr.length
  stmtInit s := if s.object.isSome then none else some { s with object := some [] }
  stmtCopy s := do
    let object ← s.object
    let cols ← fattr.mapM fattrCols
    pure { s with object := some (object ++ cols) }
  stmtFini s := do
    let object ← s.object
    let db ← fattrFini object s.db
    pure { s with db }

/-- The copy of the path export, whose lines may be pieces of a record. -/
def pathCopy (path : List (Oid × Text)) : DbCopy where
  lines := (copyRecords (exportPath path)).length
  stmtInit s := if s.file.isSome then none else some { s with file := some [] }
  stmtCopy s := do
    let file ← s.file
    let lines ← copyPath path
    pure { s with file := some (file ++ lines) }
  stmtFini s := do
    let file ← s.file
    let db ← pathFini file s.db
    pure { s with db }

/-- The copy of the deleted export; the temporary table is dropped at once. -/
def deletedCopy (deleted : List Oid) : DbCopy where
  lines := deleted.length
  stmtInit s := if s.deleted.isSome then none else some { s with deleted := some [] }
  stmtCopy s := do
    let old ← s.deleted
    pure { s with deleted := some (old ++ deleted) }
  stmtFini s := do
    let deleted ← s.deleted
    pure { s with db := processDeleted deleted s.db, deleted := none }

/-! ## attributes -/

/-- What `hpssix_builder_process_xattrs` meets.  In `builder_collect_xattrs` the file
is opened, and there is memory for the line and for the array; the counting pass
and the reading pass each come to the end of the file, or a read error ends them
after that many records; and each record is parsed or not.  Then come the calls
that are refused.  That a value can be escaped and fits its line is taken for
granted. -/
structure XattrEnv where
  fopen : Bool := true
  linebuf : Bool := true
  array : Bool := true
  countError : Option Nat := none
  readError : Option Nat := none
  parse : Nat → Bool := fun _ => true
  delete : Oid → Bool := fun _ => true
  escape : Oid → Text → Bool := fun _ _ => true
  key : Oid → Text → Bool := fun _ _ => true
  copyInit : Bool := true
  put : Oid → Text → Bool := fun _ _ => true
  copyEnd : Bool := true

/-- The records in front of a read error. -/
def untilError (error : Option Nat) (xattr : List (Oid × Attrs)) : List (Oid × Attrs) :=
  match error with
  | none => xattr
  | some n => xattr.take n

/-- The records that the reading pass comes to. -/
def XattrEnv.collected (env : XattrEnv) (xattr : List (Oid × Attrs)) : List (Oid × Attrs) :=
  untilError env.readError xattr

/-- The length of the array, which the counting pass has found. -/
def XattrEnv.fileCount (env : XattrEnv) (xattr : List (Oid × Attrs)) : Nat :=
  (untilError env.countError xattr).length

/-- The reading pass stays within its array and parses every record.  The loop that is
to release the array after a record that cannot be parsed has no end and leaves
the array at its front. -/
def XattrEnv.fills (env : XattrEnv) (xattr : List (Oid × Attrs)) : Bool :=
  decide ((env.collected xattr).length ≤ env.fileCount xattr) &&
    (List.range (env.collected xattr).length).all env.parse

/-- The query of `hpssix_db_populate_xattr_keys` for one tag. -/
def populateXattrKey (t : Oid × Text × Text) (s : Session) : Session :=
  let (kid, db) := attrKeyPop t.2.1 s.db
  { s with db, tags := s.tags ++ [(t.1, kid, t.2.2)] }

/-- The deletions of `hpssix_db_delete_xattrs`, which go through the whole array: behind
the records that were read its pointers are NULL. -/
def dbDeleteXattrs (env : XattrEnv) (fileCount : Nat) (xattrs : List (Oid × Attrs)) :
    List (Step Session) :=
  xattrs.map (fun x => .sql (env.delete x.1) fun s => some { s with db := deleteXattrs [x] s.db }) ++
    [.access fun _ => decide (fileCount ≤ xattrs.length)]

/-- `hpssix_builder_process_xattrs`, call by call. -/
def builderProcessXattrs (tr : Transport) (env : XattrEnv) (xattr : List (Oid × Attrs)) :
    List (Step Session) :=
  let xattrs := env.collected xattr
  [.call fun _ => env.fopen && env.linebuf && env.array, .access fun _ => env.fills xattr] ++
    dbDeleteXattrs env (env.fileCount xattr) xattrs ++
    (xattrTags xattrs).flatMap (fun t =>
      [.call fun _ => env.escape t.1 t.2.1,
        .sql (env.key t.1 t.2.1) fun s => some (populateXattrKey t s)]) ++
    [.sql env.copyInit some] ++
    (xattrTags xattrs).map (fun t => .call fun _ => env.put t.1 t.2.1) ++
    [.sql env.copyEnd fun s => do
      let db ← copyAttrVal tr s.tags s.db
      pure { s with db }]

/-! ## the workdata -/

/-- Which calls of `hpssix_builder_create_workdata` are refused. -/
structure WorkdataEnv where
  create : Bool := true
  query : Bool := true
  append : Oid → Bool := fun _ => true

/-- What the builder has read about which files are extracted. -/
structure MetaFilter where
  exts : List Text
  maxfilesize : Nat

/-- `builder_filter_meta_extract`: a regular file, not too large, whose extension
begins one of the filter's. -/
def builderFilterMetaExtract (filter : MetaFilter) (path : Text) (stMode stSize : Nat) : Bool :=
  if stMode &&& 0o170000 ≠ 0o100000 then false
  else if stSize > filter.maxfilesize then false
  else
    match strrchr '/' path with
    | none => false
    | some filename =>
      match strrchr '.' (filename.drop 1) with
      | none => false
      | some extpos =>
        let ext := (extpos.drop 1).map Char.toLower
        filter.exts.any fun e => ext.isPrefixOf e

/-- `workdata_sql`, and the rows of it that the filter lets through. -/
def regularFiles (filter : MetaFilter) (s : Session) : List (Oid × Text) :=
  ((s.object.getD []).filter fun o => 0 < o.stSize).flatMap fun o =>
    ((s.file.getD []).filter fun f => f.1 = o.oid ∧
      builderFilterMetaExtract filter f.2 o.stMode o.stSize)

/-- `hpssix_builder_create_workdata`.  The results of the sqlite transaction
statements are not looked at. -/
def builderCreateWorkdata (env : WorkdataEnv) (filter : MetaFilter) : List (Step Session) :=
  [.call fun _ => env.create, .sql env.query some,
    .call fun s => (regularFiles filter s).all fun f => env.append f.1]

/-! ## the process -/

/-- What a run meets: the filter, if it can be loaded, which calls are refused,
and `errno` when `main` returns it. -/
structure BuilderEnv where
  filter : Option MetaFilter := some ⟨[], 0⟩
  connect : Bool := true
  beginOk : Bool := true
  fattr : CopyEnv := {}
  path : CopyEnv := {}
  xattr : XattrEnv := {}
  deleted : CopyEnv := {}
  workdata : WorkdataEnv := {}
  endOk : Bool := true
  abortOk : Bool := true
  errno : Nat := 0

/-- The five stages of `do_builder`. -/
def builderSteps (tr : Transport) (env : BuilderEnv) (filter : MetaFilter) (files : ScanFiles) :
    List (Step Session) :=
  hpssixDbCopy env.fattr (fattrCopy files.fattr) ++ hpssixDbCopy env.path (pathCopy files.path) ++
    builderProcessXattrs tr env.xattr files.xattr ++
    hpssixDbCopy env.deleted (deletedCopy files.deleted) ++
    builderCreateWorkdata env.workdata filter

/-- The exports as a run has read them. -/
def BuilderEnv.read (env : BuilderEnv) (files : ScanFiles) : ScanFiles :=
  { files with xattr := env.xattr.collected files.xattr }

/-- What is left of a run: the exit status, the printed lines, what `END` came to
if it was reached, the exports as it has read them by then, and the tables. -/
structure BuilderRun where
  exit : Nat
  out : List Text
  endRc : Option Conn.EndRc
  processed : Option ScanFiles
  db : Db

/-- The exit status of a process that an invalid access has killed, as a shell reports
it. -/
def exitKilled : Nat := 139

/-- The lines that `do_builder` prints. -/
def builderReport (filter : MetaFilter) (files : ScanFiles) (s : Session) : List Text :=
  [ reportLine "## files indexed".toList (decimal files.fattr.length),
    reportLine "## regular files".toList (decimal (regularFiles filter s).length) ]

/-- `do_builder`, and the exit status that `main` makes of it. -/
def doBuilder (tr : Transport) (env : BuilderEnv) (filter : MetaFilter) (files : ScanFiles) (db : Db) :
    BuilderRun :=
  if !env.connect then ⟨errIo, [], none, none, db⟩
  else
    let c : Conn Session := { committed := { db } }
    let c := (c.begin env.beginOk).2
    match runSteps (builderSteps tr env filter files) c with
    | (.done, c) =>
      let out := builderReport filter files c.view
      let (rc, c) := c.commit env.endOk
      ⟨0, out, some rc, some (env.read files), c.close.db⟩
    | (.failed, c) =>
      let c := (c.rollback env.abortOk).2
      ⟨env.errno % 256, [], none, none, c.close.db⟩
    | (.killed, c) => ⟨exitKilled, [], none, none, c.close.db⟩

/-- `main`: without the filter it leaves with the 0 that `ret` still holds. -/
def builderMain (tr : Transport) (env : BuilderEnv) (files : ScanFiles) (db : Db) : BuilderRun :=
  match env.filter with
  | none => ⟨0, [], none, none, db⟩
  | some filter => doBuilder tr env filter files db

/-! ## the calls that all succeed -/

/-- No call of the copy is refused. -/
def CopyEnv.Ok (env : CopyEnv) (lines : Nat) : Prop :=
  env.fopen ∧ env.stmtInit ∧ env.copyInit ∧ (∀ i < lines, env.line i) ∧ env.ferror ∧
    env.copyEnd ∧ env.stmtFini

/-- No call of the attribute stage is refused, and both passes have found the same
records and parsed them. -/
structure XattrEnv.Ok (env : XattrEnv) (xattr : List (Oid × Attrs)) : Prop where
  collect : (env.fopen && env.linebuf && env.array) = true
  fills : env.fills xattr = true
  delete : ∀ x ∈ env.collected xattr, env.delete x.1
  count : env.fileCount xattr ≤ (env.collected xattr).length
  keys : ∀ t ∈ xattrTags (env.collected xattr), env.escape t.1 t.2.1 ∧ env.key t.1 t.2.1
  copyInit : env.copyInit = true
  put : ∀ t ∈ xattrTags (env.collected xattr), env.put t.1 t.2.1
  copyEnd : env.copyEnd = true

/-- The stage has nothing in its way, and no read error. -/
theorem xattrEnv_ok (xattr : List (Oid × Attrs)) : XattrEnv.Ok {} xattr where
  collect := rfl
  fills := by simp [XattrEnv.fills, XattrEnv.collected, XattrEnv.fileCount, untilError]
  delete := fun _ _ => rfl
  count := Nat.le_refl _
  keys := fun _ _ => ⟨rfl, rfl⟩
  copyInit := rfl
  put := fun _ _ => rfl
  copyEnd := rfl

section Completes
variable {tr : Transport} {s s' : Session}

/-- A copy whose calls all succeed is its three statements. -/
theorem completes_hpssixDbCopy {env : CopyEnv} {copy : DbCopy} :
    completes (hpssixDbCopy env copy) s = some s' ↔ env.Ok copy.lines ∧
      ∃ s₁ s₂, copy.stmtInit s = some s₁ ∧ copy.stmtCopy s₁ = some s₂ ∧
        copy.stmtFini s₂ = some s' := by
  have hlines : ∀ t t' : Session,
      completes ((List.range copy.lines).map fun i => .call fun _ => env.line i) t = some t' ↔
        (∀ i < copy.lines, env.line i) ∧ t = t' := fun t t' => by
    rw [completes_map (p := env.line) (g := fun _ t => t) fun i t => rfl]
    simp
  simp only [hpssixDbCopy, completes_append_eq_some, hlines, completes_call, completes_sql,
    completes_nil, CopyEnv.Ok]
  grind

/-- The copy of the attributes completes exactly if its calls do and every record fits. -/
theorem completes_fattrCopy {env : CopyEnv} {fattr : List FattrRecord} (h : s.object = none) :
    completes (hpssixDbCopy env (fattrCopy fattr)) s = some s' ↔ env.Ok fattr.length ∧
      ∃ cols db, fattr.mapM fattrCols = some cols ∧ fattrFini cols s.db = some db ∧
        { s with db, object := some cols } = s' := by
  rw [completes_hpssixDbCopy]
  simp [fattrCopy, h, Option.bind_eq_some_iff]

/-- The copy of the paths completes exactly if its calls do and the server reads it. -/
theorem completes_pathCopy {env : CopyEnv} {path : List (Oid × Text)} (h : s.file = none) :
    completes (hpssixDbCopy env (pathCopy path)) s = some s' ↔
      env.Ok (copyRecords (exportPath path)).length ∧ ∃ lines db, copyPath path = some lines ∧
        pathFini lines s.db = some db ∧ { s with db, file := some lines } = s' := by
  rw [completes_hpssixDbCopy]
  simp [pathCopy, h, Option.bind_eq_some_iff]

/-- The copy of the deleted objects completes exactly if its calls do. -/
theorem completes_deletedCopy {env : CopyEnv} {deleted : List Oid} (h : s.deleted = none) :
    completes (hpssixDbCopy env (deletedCopy deleted)) s = some s' ↔ env.Ok deleted.length ∧
      { s with db := processDeleted deleted s.db } = s' := by
  rw [completes_hpssixDbCopy]
  simp [deletedCopy, h]

/-- The deletions, object by object. -/
theorem foldl_deleteXattrs (xattr : List (Oid × Attrs)) (s : Session) :
    xattr.foldl (fun s x => { s with db := deleteXattrs [x] s.db }) s =
      { s with db := deleteXattrs xattr s.db } := by
  induction xattr generalizing s with
  | nil => simp [deleteXattrs]
  | cons x xattr ih =>
      rw [List.foldl_cons, ih]
      simp only [deleteXattrs, List.filter_filter, List.map_cons, List.map_nil, List.mem_cons,
        List.not_mem_nil, or_false]
      congr 2
      refine List.filter_congr fun v _ => ?_
      simp [Bool.and_comm]

/-- The keys, tag by tag. -/
theorem foldl_populateXattrKey (ts : List (Oid × Text × Text)) (s : Session) :
    ts.foldl (fun s t => populateXattrKey t s) s =
      let p := collect (fun (t : Oid × Text × Text) (db : Db) =>
        let (kid, db) := attrKeyPop t.2.1 db; ((t.1, kid, t.2.2), db)) ts s.db
      { s with db := p.2, tags := s.tags ++ p.1 } := by
  induction ts generalizing s with
  | nil => simp [collect]
  | cons t ts ih =>
      rw [List.foldl_cons, ih, collect_cons]
      simp [populateXattrKey]

/-- An attribute stage whose calls all succeed is `processXattrs` on what was read. -/
theorem completes_builderProcessXattrs {env : XattrEnv} {xattr : List (Oid × Attrs)}
    (htags : s.tags = []) :
    completes (builderProcessXattrs tr env xattr) s = some s' ↔ env.Ok xattr ∧
      ∃ db, processXattrs tr (env.collected xattr) s.db = some db ∧
        { s with
          db
          tags := (populateXattrKeys (env.collected xattr)
            (deleteXattrs (env.collected xattr) s.db)).1 } = s' := by
  unfold builderProcessXattrs
  have hok : env.Ok xattr ↔ (env.fopen && env.linebuf && env.array) = true ∧ env.fills xattr = true ∧
      (∀ x ∈ env.collected xattr, env.delete x.1) ∧
      env.fileCount xattr ≤ (env.collected xattr).length ∧
      (∀ t ∈ xattrTags (env.collected xattr), env.escape t.1 t.2.1 ∧ env.key t.1 t.2.1) ∧
      env.copyInit = true ∧ (∀ t ∈ xattrTags (env.collected xattr), env.put t.1 t.2.1) ∧
      env.copyEnd = true :=
    ⟨fun ⟨h₁, h₂, h₃, h₄, h₅, h₆, h₇, h₈⟩ => ⟨h₁, h₂, h₃, h₄, h₅, h₆, h₇, h₈⟩,
      fun ⟨h₁, h₂, h₃, h₄, h₅, h₆, h₇, h₈⟩ => ⟨h₁, h₂, h₃, h₄, h₅, h₆, h₇, h₈⟩⟩
  rw [hok]
  generalize env.collected xattr = xattrs
  have hdelete : ∀ t t' : Session, completes (xattrs.map fun x =>
        .sql (env.delete x.1) fun s => some { s with db := deleteXattrs [x] s.db }) t = some t' ↔
      (∀ x ∈ xattrs, env.delete x.1) ∧ { t with db := deleteXattrs xattrs t.db } = t' := fun t t' => by
    rw [← foldl_deleteXattrs]
    refine completes_map (p := fun x => env.delete x.1)
      (g := fun x (s : Session) => { s with db := deleteXattrs [x] s.db }) (fun x t => ?_) xattrs
    rfl
  have hkey : ∀ t t' : Session, completes ((xattrTags xattrs).flatMap fun t =>
        [.call fun _ => env.escape t.1 t.2.1,
          .sql (env.key t.1 t.2.1) fun s => some (populateXattrKey t s)]) t = some t' ↔
      (∀ t ∈ xattrTags xattrs, env.escape t.1 t.2.1 ∧ env.key t.1 t.2.1) ∧
        (xattrTags xattrs).foldl (fun s t => populateXattrKey t s) t = t' := fun t t' => by
    rw [completes_flatMap (p := fun t => env.escape t.1 t.2.1 && env.key t.1 t.2.1)
      (g := populateXattrKey) fun x t t' => by simp [and_assoc]]
    simp
  have hput : ∀ t t' : Session,
      completes ((xattrTags xattrs).map fun t => .call fun _ => env.put t.1 t.2.1) t = some t' ↔
        (∀ t ∈ xattrTags xattrs, env.put t.1 t.2.1) ∧ t = t' := fun t t' => by
    rw [completes_map (p := fun t => env.put t.1 t.2.1) (g := fun _ t => t) fun x t => rfl]
    simp
  have hcopy : ∀ t t' : Session, (do
        let db ← copyAttrVal tr t.tags t.db
        pure { t with db }) = some t' ↔
      ∃ db, copyAttrVal tr t.tags t.db = some db ∧ { t with db } = t' := fun t t' => by
    simp [Option.bind_eq_some_iff]
  simp only [dbDeleteXattrs, completes_append_eq_some, hdelete, hkey, hput, completes_call,
    completes_access, completes_sql, completes_nil, foldl_populateXattrKey, hcopy,
    decide_eq_true_eq, Option.some.injEq, exists_eq_left', exists_and_left, exists_eq_right,
    and_assoc]
  unfold processXattrs populateXattrKeys
  simp only [htags, List.nil_append]

/-- What the session holds when all stages are done. -/
def finalSession (files : ScanFiles) (object : List ObjectCols) (file : List (Oid × Text))
    (before after : Db) : Session where
  db := after
  object := some object
  file := some file
  tags := (populateXattrKeys files.xattr (deleteXattrs files.xattr before)).1

/-- **A run whose calls all succeed** is a batch of what it has read. -/
theorem completes_builderSteps {env : BuilderEnv} {filter : MetaFilter} {files : ScanFiles}
    {db : Db} : completes (builderSteps tr env filter files) { db } = some s ↔
      env.fattr.Ok files.fattr.length ∧ env.path.Ok (copyRecords (exportPath files.path)).length ∧
        env.xattr.Ok files.xattr ∧ env.deleted.Ok files.deleted.length ∧ env.workdata.create ∧
        env.workdata.query ∧ (∀ f ∈ regularFiles filter s, env.workdata.append f.1) ∧
        ∃ cols lines d₁ d₂ d₃, files.fattr.mapM fattrCols = some cols ∧
          fattrFini cols db = some d₁ ∧ copyPath files.path = some lines ∧
          pathFini lines d₁ = some d₂ ∧ processXattrs tr (env.read files).xattr d₂ = some d₃ ∧
          s = finalSession (env.read files) cols lines d₂ (processDeleted files.deleted d₃) := by
  simp only [builderSteps, completes_append_eq_some, builderCreateWorkdata, completes_call,
    completes_sql, completes_nil, List.all_eq_true]
  constructor
  · rintro ⟨s₄, ⟨s₃, ⟨s₂, ⟨s₁, h₁, h₂⟩, h₃⟩, h₄⟩, hcreate, hquery, _, ⟨rfl⟩, happend, ⟨rfl⟩⟩
    obtain ⟨hfattr, cols, d₁, hcols, hd₁, rfl⟩ := (completes_fattrCopy rfl).mp h₁
    obtain ⟨hpath, lines, d₂, hlines, hd₂, rfl⟩ := (completes_pathCopy rfl).mp h₂
    obtain ⟨hxattr, d₃, hd₃, rfl⟩ := (completes_builderProcessXattrs rfl).mp h₃
    obtain ⟨hdeleted, rfl⟩ := (completes_deletedCopy rfl).mp h₄
    exact ⟨hfattr, hpath, hxattr, hdeleted, hcreate, hquery, happend, cols, lines, d₁, d₂, d₃,
      hcols, hd₁, hlines, hd₂, hd₃, rfl⟩
  · rintro ⟨hfattr, hpath, hxattr, hdeleted, hcreate, hquery, happend, cols, lines, d₁, d₂, d₃,
      hcols, hd₁, hlines, hd₂, hd₃, rfl⟩
    have h₁ : completes (hpssixDbCopy env.fattr (fattrCopy files.fattr)) { db } =
        some { db := d₁, object := some cols } :=
      (completes_fattrCopy rfl).mpr ⟨hfattr, cols, d₁, hcols, hd₁, rfl⟩
    have h₂ : completes (hpssixDbCopy env.path (pathCopy files.path))
        { db := d₁, object := some cols } =
          some { db := d₂, object := some cols, file := some lines } :=
      (completes_pathCopy rfl).mpr ⟨hpath, lines, d₂, hlines, hd₂, rfl⟩
    have h₃ : completes (builderProcessXattrs tr env.xattr files.xattr)
        { db := d₂, object := some cols, file := some lines } =
          some (finalSession (env.read files) cols lines d₂ d₃) :=
      (completes_builderProcessXattrs rfl).mpr ⟨hxattr, d₃, hd₃, rfl⟩
    have h₄ : completes (hpssixDbCopy env.deleted (deletedCopy files.deleted))
        (finalSession (env.read files) cols lines d₂ d₃) =
          some (finalSession (env.read files) cols lines d₂ (processDeleted files.deleted d₃)) :=
      (completes_deletedCopy rfl).mpr ⟨hdeleted, rfl⟩
    exact ⟨_, ⟨_, ⟨_, ⟨_, h₁, h₂⟩, h₃⟩, h₄⟩, hcreate, hquery, _, rfl, happend, rfl⟩

/-- Calls that all complete are the batch. -/
theorem builderBatch_of_completes {env : BuilderEnv} {filter : MetaFilter} {files : ScanFiles}
    {db : Db} (h : completes (builderSteps tr env filter files) { db } = some s) :
    builderBatch tr (env.read files) db = some s.db := by
  obtain ⟨_, _, _, _, _, _, _, cols, lines, d₁, d₂, d₃, hcols, hd₁, hlines, hd₂, hd₃, rfl⟩ :=
    completes_builderSteps.mp h
  have hfattr : (env.read files).fattr = files.fattr := rfl
  have hpath : (env.read files).path = files.path := rfl
  have hdeleted : (env.read files).deleted = files.deleted := rfl
  simp [builderBatch, processFattr, processPath, hfattr, hpath, hdeleted, hcols, hd₁, hlines, hd₂,
    hd₃, finalSession]

/-- An undisturbed run succeeds on every batch that violates no constraint. -/
theorem completes_undisturbed {filter : MetaFilter} {files : ScanFiles} {db db' : Db}
    (h : builderBatch tr files db = some db') :
    ∃ s, completes (builderSteps tr {} filter files) { db } = some s ∧ s.db = db' := by
  obtain ⟨d₁, d₂, d₃, h₁, h₂, h₃, rfl⟩ := builderBatch_eq h
  obtain ⟨cols, hcols, hd₁⟩ := Option.bind_eq_some_iff.mp h₁
  obtain ⟨lines, hlines, hd₂⟩ := Option.bind_eq_some_iff.mp h₂
  have hok : ∀ n, CopyEnv.Ok {} n := fun n => by simp [CopyEnv.Ok]
  exact ⟨finalSession files cols lines d₂ (processDeleted files.deleted d₃),
    completes_builderSteps.mpr ⟨hok _, hok _, xattrEnv_ok _, hok _, rfl, rfl,
      fun _ _ => rfl, cols, lines, d₁, d₂, d₃, hcols, hd₁, hlines, hd₂, h₃, rfl⟩, rfl⟩

end Completes

/-! ## honesty -/

/-- The run is honest: it exits with 0 and reports the indexed files, and the
transaction with all changes of the batch was committed, those of every record of
the exports; or the tables are as before and the exit status is not 0. -/
def Honest (tr : Transport) (files : ScanFiles) (before : Db) (r : BuilderRun) : Prop :=
  (r.exit = 0 ∧ (∃ n, reportLine "## files indexed".toList (decimal n) ∈ r.out) ∧
      r.endRc = some .committed ∧ r.processed = some files ∧
      builderBatch tr files before = some r.db) ∨
    (r.db = before ∧ r.exit ≠ 0)

/-- The filter loads; and if the database can be reached: when all calls succeed,
so do `BEGIN` and `END`, and no read error has cut off the attribute export; when
one fails, `errno` does not end as 0; and when one fails or the process is killed,
the calls before were inside a block or left the tables alone. -/
def HonestWhen (tr : Transport) (env : BuilderEnv) (files : ScanFiles) (before : Db) : Prop :=
  match env.filter with
  | none => False
  | some filter => env.connect = true →
    let steps := builderSteps tr env filter files
    let kept := env.beginOk = true ∨ (carriedOut steps { db := before }).db = before
    match ending steps { db := before } with
    | .done =>
      env.beginOk = true ∧ env.endOk = true ∧ env.xattr.collected files.xattr = files.xattr
    | .failed => env.errno % 256 ≠ 0 ∧ kept
    | .killed => kept

section Honest
variable {tr : Transport} {env : BuilderEnv} {filter : MetaFilter} {files : ScanFiles} {before : Db}

/-- The exports were read as they are, exactly if no attribute record is cut off. -/
theorem read_eq_self_iff : env.read files = files ↔ env.xattr.collected files.xattr = files.xattr :=
  ⟨fun h => congrArg ScanFiles.xattr h, fun h => by simp [BuilderEnv.read, h]⟩

/-- With `BEGIN` carried out, the tables change with `END` only. -/
theorem honest_of_begin (hconn : env.connect = true) (hbegin : env.beginOk = true) :
    Honest tr files before (doBuilder tr env filter files before) ↔
      match ending (builderSteps tr env filter files) { db := before } with
      | .done => env.endOk = true ∧ env.xattr.collected files.xattr = files.xattr
      | .failed => env.errno % 256 ≠ 0
      | .killed => True := by
  obtain ⟨hending, hkept, hresult⟩ :=
    runSteps_block (builderSteps tr env filter files) { db := before } { db := before }
  have hdone : ending (builderSteps tr env filter files) { db := before } = .done ↔
      (completes (builderSteps tr env filter files) { db := before }).isSome := ending_eq_done_iff
  cases he : ending (builderSteps tr env filter files) { db := before } with
  | done =>
      obtain ⟨s, hs⟩ := Option.isSome_iff_exists.mp (hdone.mp he)
      have hrun := hresult s hs
      have hbatch := builderBatch_of_completes hs
      cases hend : env.endOk with
      | true =>
          have hres : doBuilder tr env filter files before =
              ⟨0, builderReport filter files s, some .committed, some (env.read files), s.db⟩ := by
            simp [doBuilder, hconn, hbegin, hend, Conn.begin, hrun, Conn.commit, Conn.close,
              Conn.view]
          rw [hres, ← read_eq_self_iff]
          constructor
          · rintro (⟨-, -, -, hread, -⟩ | ⟨-, hexit⟩)
            · exact ⟨rfl, Option.some.inj hread⟩
            · exact absurd rfl hexit
          · rintro ⟨-, hread⟩
            refine .inl ⟨rfl, ⟨_, List.mem_cons_self⟩, rfl, congrArg some hread, ?_⟩
            rwa [hread] at hbatch
      | false =>
          simp [doBuilder, hconn, hbegin, hend, Conn.begin, hrun, Conn.commit, Conn.close, Honest]
  | failed =>
      generalize hres : runSteps (builderSteps tr env filter files)
        ⟨{ db := before }, some (some { db := before })⟩ = res at hending hkept
      obtain ⟨e, c⟩ := res
      obtain rfl : e = .failed := hending.trans he
      have hclose : ((c.rollback env.abortOk).2.close).db = before := by
        unfold Conn.rollback Conn.close
        split <;> exact congrArg Session.db hkept
      simp [doBuilder, hconn, hbegin, Conn.begin, hres, hclose, Honest]
  | killed =>
      generalize hres : runSteps (builderSteps tr env filter files)
        ⟨{ db := before }, some (some { db := before })⟩ = res at hending hkept
      obtain ⟨e, c⟩ := res
      obtain rfl : e = .killed := hending.trans he
      have hclose : c.close.db = before := congrArg Session.db hkept
      simp [doBuilder, hconn, hbegin, Conn.begin, hres, hclose, Honest, exitKilled]

/-- Without `BEGIN` every statement is committed by itself. -/
theorem honest_of_noBegin (hconn : env.connect = true) (hbegin : env.beginOk = false) :
    Honest tr files before (doBuilder tr env filter files before) ↔
      match ending (builderSteps tr env filter files) { db := before } with
      | .done => False
      | .failed => env.errno % 256 ≠ 0 ∧
        (carriedOut (builderSteps tr env filter files) { db := before }).db = before
      | .killed => (carriedOut (builderSteps tr env filter files) { db := before }).db = before := by
  have hauto := runSteps_autocommit (builderSteps tr env filter files) { db := before }
  cases he : ending (builderSteps tr env filter files) { db := before } with
  | done =>
      rw [he] at hauto
      cases hend : env.endOk <;>
        simp [doBuilder, hconn, hbegin, hend, Conn.begin, hauto, Conn.commit, Honest]
  | failed =>
      rw [he] at hauto
      have hclose : ∀ ok (s : Session), ((Conn.rollback ok ⟨s, none⟩).2.close) = s := fun ok s => by
        cases ok <;> rfl
      simp [doBuilder, hconn, hbegin, Conn.begin, hauto, hclose, Honest, and_comm]
  | killed =>
      rw [he] at hauto
      simp [doBuilder, hconn, hbegin, Conn.begin, hauto, Conn.close, Honest, exitKilled]

/-- A run commits if the filter loads, the database can be reached, and `BEGIN`, the
calls and `END` all succeed; then the tables hold what the calls made of them. -/
theorem committed_builderMain_iff :
    (builderMain tr env files before).endRc = some .committed ↔
      ∃ filter, env.filter = some filter ∧ env.connect = true ∧ env.beginOk = true ∧
        env.endOk = true ∧ ∃ s, completes (builderSteps tr env filter files) { db := before } = some s ∧
          (builderMain tr env files before).db = s.db := by
  unfold builderMain
  cases env.filter with
  | none => simp
  | some filter =>
      obtain ⟨hending, -, hresult⟩ :=
        runSteps_block (builderSteps tr env filter files) { db := before } { db := before }
      have hauto := runSteps_autocommit (builderSteps tr env filter files) { db := before }
      have hdone : ending (builderSteps tr env filter files) { db := before } = .done ↔
          (completes (builderSteps tr env filter files) { db := before }).isSome := ending_eq_done_iff
      cases hconn : env.connect with
      | false => simp [doBuilder, hconn]
      | true =>
          cases hbegin : env.beginOk with
          | false =>
              cases he : ending (builderSteps tr env filter files) { db := before } <;>
                cases hend : env.endOk <;>
                  simp [doBuilder, hconn, hbegin, hend, Conn.begin, hauto, he, Conn.commit]
          | true =>
              cases hc : completes (builderSteps tr env filter files) { db := before } with
              | none =>
                  generalize hres : runSteps (builderSteps tr env filter files)
                    ⟨{ db := before }, some (some { db := before })⟩ = res at hending
                  obtain ⟨e, c⟩ := res
                  have hne : e ≠ .done := fun h => by
                    have := hdone.mp (hending.symm.trans h)
                    simp [hc] at this
                  cases e with
                  | done => exact absurd rfl hne
                  | _ => simp [doBuilder, hconn, hbegin, Conn.begin, hres, hc]
              | some s =>
                  cases hend : env.endOk <;>
                    simp [doBuilder, hconn, hbegin, hend, hc, Conn.begin, hresult s hc, Conn.commit,
                      Conn.close]

/-- A committed run has read the exports, and says which. -/
theorem processed_of_committed (h : (builderMain tr env files before).endRc = some .committed) :
    (builderMain tr env files before).processed = some (env.read files) := by
  obtain ⟨filter, hfilter, hconn, hbegin, hend, t, ht, -⟩ := committed_builderMain_iff.mp h
  have hrun := (runSteps_block (builderSteps tr env filter files) { db := before }
    { db := before }).2.2 t ht
  simp [builderMain, hfilter, doBuilder, hconn, hbegin, Conn.begin, hrun]

end Honest

end Hpssix
