import Hpssix.Db2Scan
import Hpssix.PathExport

/-!
# Hpssix.Builder

The builder's statements (`tools/builder/src/hpssix-builder-file.c`,
`hpssix-builder-xattrs.c`, `hpssix-builder-utils.c`): what a batch of scanner
exports does to the index when every call succeeds.  `none` means that a statement
fails: a number that its column cannot hold, a line that the server cannot read, or
a constraint.

* `batch_semantics_iff` — when the object table ends as the batch says: the
  update of a listed object leaves `valid` as it was.
-/

namespace Hpssix

open CText Rel

/-! ## the fattr records -/

/-- `get_st_mode`: the file type from the type code, the permission bits from
the three permission bytes. -/
def getStMode (type uperm gperm operm : UInt32) : UInt32 :=
  let fmt : UInt32 :=
    if type = 0x81 then 0o100000 else if type = 0x82 then 0o120000
    else if type = 0x84 then 0o040000 else 0
  let bit (perm mask mode : UInt32) : UInt32 := if perm &&& mask ≠ 0 then mode else 0
  fmt ||| bit uperm 0x20 0o400 ||| bit uperm 0x40 0o200 ||| bit uperm 0x80 0o100
    ||| bit gperm 0x20 0o040 ||| bit gperm 0x40 0o020 ||| bit gperm 0x80 0o010
    ||| bit operm 0x20 0o004 ||| bit operm 0x40 0o002 ||| bit operm 0x80 0o001

/-- The file type that `get_st_mode` begins with. -/
def stFmt (type : UInt32) : UInt32 :=
  if type = 0x81 then 0o100000 else if type = 0x82 then 0o120000
  else if type = 0x84 then 0o040000 else 0

/-- The rest of the mode is nine permission bits. -/
theorem getStMode_eq (type uperm gperm operm : UInt32) :
    ∃ perm : Nat, perm < 2 ^ 9 ∧
      (getStMode type uperm gperm operm).toNat = (stFmt type).toNat ||| perm := by
  have hbit : ∀ (perm mask mode : UInt32), mode.toNat < 2 ^ 9 →
      (if perm &&& mask ≠ 0 then mode else 0).toNat < 2 ^ 9 := fun perm mask mode hm => by
    split
    · exact hm
    · decide
  unfold getStMode stFmt
  simp only [UInt32.toNat_or, Nat.or_assoc]
  refine ⟨_, ?_, rfl⟩
  iterate 8 refine Nat.or_lt_two_pow (hbit _ _ _ (by decide)) ?_
  exact hbit _ _ _ (by decide)

/-- The fields of `struct stat` that the builder fills. -/
structure Stat where
  stIno : UInt64
  stDev : UInt64
  stMode : UInt32
  stNlink : UInt64
  stUid : UInt32
  stGid : UInt32
  stRdev : UInt64
  stSize : UInt64
  stBlksize : UInt64
  stBlocks : UInt64
  stAtime : UInt64
  stMtime : UInt64
  stCtime : UInt64
deriving DecidableEq

/-- `CEILING(x, y)`. -/
def ceiling (x y : UInt64) : UInt64 := (x + y - 1) / y

/-- `hpssix_builder_parse_fattr`, on a record whose twelve fields are read. -/
def builderParseFattr (r : FattrRecord) : Stat where
  stDev := 44
  stIno := UInt64.ofNat r.objid.val
  stMode := getStMode r.type r.uperm r.gperm r.operm
  stNlink := r.nlink
  stUid := r.uid
  stGid := r.gid
  stRdev := 0
  stSize := r.size
  stBlksize := 512
  stBlocks := ceiling r.size 512
  stAtime := r.atime
  stMtime := r.mtime
  stCtime := r.ctime

/-- One line of `COPY __object`: the thirteen printed numbers, read into the
types of the columns. -/
def copyObject (sb : Stat) : Option ObjectCols := do
  let oid ← int8 sb.stIno.toNat
  let stDev ← int4 sb.stDev.toNat
  let stMode ← int4 sb.stMode.toNat
  let stNlink ← int4 sb.stNlink.toNat
  let stUid ← int4 sb.stUid.toNat
  let stGid ← int4 sb.stGid.toNat
  let stRdev ← int4 sb.stRdev.toNat
  let stSize ← int4 sb.stSize.toNat
  let stBlksize ← int4 sb.stBlksize.toNat
  let stBlocks ← int4 sb.stBlocks.toNat
  let stAtime ← int4 sb.stAtime.toNat
  let stMtime ← int4 sb.stMtime.toNat
  let stCtime ← int4 sb.stCtime.toNat
  pure ⟨oid, stDev, stMode, stNlink, stUid, stGid, stRdev, stSize, stBlksize, stBlocks, stAtime,
    stMtime, stCtime⟩

/-- The columns that a record arrives with. -/
def fattrCols (r : FattrRecord) : Option ObjectCols := copyObject (builderParseFattr r)

/-- The `SET` list of `builder_fattr_fini_stmt`. -/
def fattrUpdate (r : ObjectRow) (s : ObjectCols) : ObjectRow :=
  { r with
    stDev := s.stDev
    stMode := s.stMode
    stNlink := s.stNlink
    stUid := s.stUid
    stGid := s.stGid
    stRdev := s.stRdev
    stSize := s.stSize
    stBlksize := s.stBlksize
    stBlocks := s.stBlocks
    stAtime := s.stAtime
    stMtime := s.stMtime
    stCtime := s.stCtime }

/-- The `INSERT` of `builder_fattr_fini_stmt`; `valid` takes its default. -/
def fattrInsert (s : ObjectCols) : ObjectRow where
  oid := s.oid
  valid := true
  stDev := s.stDev
  stMode := s.stMode
  stNlink := s.stNlink
  stUid := s.stUid
  stGid := s.stGid
  stRdev := s.stRdev
  stSize := s.stSize
  stBlksize := s.stBlksize
  stBlocks := s.stBlocks
  stAtime := s.stAtime
  stMtime := s.stMtime
  stCtime := s.stCtime

/-- `builder_fattr_fini_stmt`, on the content of `__object`. -/
def fattrFini (object : List ObjectCols) (db : Db) : Option Db :=
  let after := upsert (fun r : ObjectRow => r.oid) ObjectCols.oid fattrUpdate fattrInsert object
    db.object
  if (after.map (·.oid)).Nodup then some { db with object := after } else none

/-- `hpssix_builder_process_fattr`. -/
def processFattr (fattr : List FattrRecord) (db : Db) : Option Db := do
  let object ← fattr.mapM fattrCols
  fattrFini object db

/-! ## paths -/

/-- The row of `hpssix_file` that the trigger makes of a row of `__file`. -/
def fileRow (line : Oid × Text) : Option FileRow :=
  (fileGetName line.2).map fun name => { oid := line.1, path := line.2, name }

/-- The rows of `__file` that come to be used: all of them for an object without a row in
`hpssix_file`, which the `INSERT` enters, and one for an object with a row.  Which one
the `UPDATE` takes is up to the server; here it is the first. -/
def usedLines (lines : List (Oid × Text)) (file : List FileRow) : List (Oid × Text) :=
  lines.filter fun l => l.1 ∉ file.map FileRow.oid ∨ lines.find? (fun x => x.1 = l.1) = some l

/-- `builder_path_fini_stmt`, on the content of `__file`. -/
def pathFini (lines : List (Oid × Text)) (db : Db) : Option Db := do
  let file ← (usedLines lines db.file).mapM fileRow
  if ∀ f ∈ file, db.HasObject f.oid then
    pure { db with
      file := upsert FileRow.oid FileRow.oid
        (fun r s => { r with path := s.path, name := s.name }) (fun s => s) file db.file }
  else none

/-- `hpssix_builder_process_path`, on the file that the scan writes for these paths. -/
def processPath (path : List (Oid × Text)) (db : Db) : Option Db := do
  let lines ← copyPath path
  pathFini lines db

/-! ## attributes -/

/-- How a tag value gets from HPSS into a row: the string that is stored (`none`
if there is no string to store), and the number that it is cast to. -/
structure Transport where
  sval : Text → Option Text
  rval : Text → Option Float8

/-- Values are stored as they are, none as a number. -/
def plainTransport : Transport := ⟨some, fun _ => none⟩

/-- The tags of a batch, one after the other: object, key and value. -/
def xattrTags (xattr : List (Oid × Attrs)) : List (Oid × Text × Text) :=
  xattr.flatMap fun x => x.2.map fun a => (x.1, a)

/-- `hpssix_db_populate_xattr_keys`: the tags with their key ids. -/
def populateXattrKeys (xattr : List (Oid × Attrs)) (db : Db) : List (Oid × Nat × Text) × Db :=
  collect (fun t db => let (kid, db) := attrKeyPop t.2.1 db; ((t.1, kid, t.2.2), db))
    (xattrTags xattr) db

/-- `hpssix_db_delete_xattrs`: the rows of every object of the batch go. -/
def deleteXattrs (xattr : List (Oid × Attrs)) (db : Db) : Db :=
  { db with attrVal := db.attrVal.filter fun v => v.oid ∉ xattr.map Prod.fst }

/-- One line of `COPY hpssix_attr_val`, with the trigger. -/
def attrValRow (tr : Transport) (tag : Oid × Nat × Text) : Option AttrValRow :=
  (tr.sval tag.2.2).map fun sval =>
    { oid := tag.1, kid := tag.2.1, rval := tr.rval sval, sval := some sval }

/-- `COPY hpssix_attr_val`. -/
def copyAttrVal (tr : Transport) (tags : List (Oid × Nat × Text)) (db : Db) : Option Db := do
  let rows ← tags.mapM (attrValRow tr)
  let after := db.attrVal ++ rows
  if (after.map fun v => (v.oid, v.kid)).Nodup ∧ ∀ v ∈ rows, db.HasObject v.oid then
    pure { db with attrVal := after }
  else none

/-- `hpssix_builder_process_xattrs`. -/
def processXattrs (tr : Transport) (xattr : List (Oid × Attrs)) (db : Db) : Option Db :=
  let (tags, db) := populateXattrKeys xattr (deleteXattrs xattr db)
  copyAttrVal tr tags db

/-! ## deletions -/

/-- `hpssix_builder_process_deleted`. -/
def processDeleted (deleted : List Oid) (db : Db) : Db :=
  { db with object := db.object.map fun r => if r.oid ∈ deleted then { r with valid := false } else r }

/-- The four stages of `do_builder`. -/
def builderBatch (tr : Transport) (files : ScanFiles) (db : Db) : Option Db := do
  let db ← processFattr files.fattr db
  let db ← processPath files.path db
  let db ← processXattrs tr files.xattr db
  pure (processDeleted files.deleted db)

/-! ## what a batch does to the object table -/

/-- The rows of an object in `hpssix_object`. -/
abbrev objectRows (o : Oid) (t : List ObjectRow) : List ObjectRow :=
  rowsAt (fun r : ObjectRow => r.oid) o t

/-- The object table after a batch is what the batch says: a listed object that
is not deleted has one valid row with the listed attributes, a deleted object
has no valid row, and other objects keep their rows. -/
structure BatchOk (fattr : List FattrRecord) (deleted : List Oid) (before after : List ObjectRow) :
    Prop where
  listed : ∀ s ∈ fattr, s.objid ∉ deleted → ∃ r, objectRows s.objid after = [r] ∧
    r.valid = true ∧ fattrCols s = some r.toObjectCols
  gone : ∀ o ∈ deleted, ∀ r ∈ objectRows o after, r.valid = false
  other : ∀ o, o ∉ fattr.map FattrRecord.objid → o ∉ deleted →
    objectRows o after = objectRows o before

theorem oid_of_copyObject {sb : Stat} {c : ObjectCols} (h : copyObject sb = some c) :
    int8 sb.stIno.toNat = some c.oid := by
  obtain ⟨oid, hoid, h⟩ := Option.bind_eq_some_iff.mp h
  iterate 12 obtain ⟨_, -, h⟩ := Option.bind_eq_some_iff.mp h
  cases h
  exact hoid

/-- A stored record has the object id it was listed with. -/
theorem oid_of_fattrCols (r : FattrRecord) (c : ObjectCols) (h : fattrCols r = some c) :
    c.oid = r.objid := by
  have hoid := oid_of_copyObject h
  simp only [builderParseFattr] at hoid
  rw [UInt64.toNat_ofNat_of_lt' (r.objid.isLt.trans (by decide)), int8_val] at hoid
  exact (Option.some.inj hoid).symm

section Batch
variable {fattr : List FattrRecord} {deleted : List Oid} {db db' : Db} {o : Oid}

/-- A successful first stage is the update-or-insert statement on the converted
records. -/
theorem processFattr_eq (h : processFattr fattr db = some db') :
    ∃ cols, fattr.mapM fattrCols = some cols ∧
      db' = { db with
        object := upsert (fun r : ObjectRow => r.oid) ObjectCols.oid fattrUpdate fattrInsert cols
          db.object } := by
  simp only [processFattr, fattrFini, Option.bind_eq_bind, Option.bind_eq_some_iff] at h
  obtain ⟨cols, hcols, h⟩ := h
  split at h
  · exact ⟨cols, hcols, (Option.some.inj h).symm⟩
  · contradiction

/-- The last stage acts on the rows of each object. -/
theorem objectRows_processDeleted (deleted : List Oid) (db : Db) (o : Oid) :
    objectRows o (processDeleted deleted db).object =
      (objectRows o db.object).map fun r =>
        if o ∈ deleted then { r with valid := false } else r := by
  rw [objectRows, processDeleted, rowsAt_map _ fun r => by split <;> rfl]
  refine List.map_congr_left fun r hr => ?_
  rw [((mem_rowsAt _).mp hr).2]

theorem toObjectCols_fattrUpdate {r : ObjectRow} {c : ObjectCols} (h : r.oid = c.oid) :
    (fattrUpdate r c).toObjectCols = c := by
  cases c
  simp only at h
  simp [fattrUpdate, h]

variable (hkey : (db.object.map (·.oid)).Nodup) (hdist : (fattr.map FattrRecord.objid).Nodup)
include hdist

/-- The first stage leaves objects alone that the batch does not list. -/
theorem objectRows_processFattr_of_notMem (h : processFattr fattr db = some db')
    (ho : o ∉ fattr.map FattrRecord.objid) :
    objectRows o db'.object = objectRows o db.object := by
  obtain ⟨cols, hcols, rfl⟩ := processFattr_eq h
  have hkeys := map_of_mapM hcols oid_of_fattrCols
  refine rowsAt_upsert_of_notMem ?_ ?_ (hkeys ▸ hdist) (hkeys ▸ ho) _
  · exact fun _ _ => rfl
  · exact fun _ => rfl

/-- The first stage inserts a listed object or updates its rows. -/
theorem objectRows_processFattr_of_mem (h : processFattr fattr db = some db') {s : FattrRecord}
    (hs : s ∈ fattr) : ∃ c, fattrCols s = some c ∧ c.oid = s.objid ∧
      objectRows s.objid db'.object =
        if objectRows s.objid db.object = [] then [fattrInsert c]
        else (objectRows s.objid db.object).map fun r => fattrUpdate r c := by
  obtain ⟨cols, hcols, rfl⟩ := processFattr_eq h
  have hkeys := map_of_mapM hcols oid_of_fattrCols
  obtain ⟨c, hc⟩ := (mem_of_mapM hcols).2 s hs
  have hoid := oid_of_fattrCols s c hc
  have hmem : c ∈ cols := ((mem_of_mapM hcols).1 c).mpr ⟨s, hs, hc⟩
  refine ⟨c, hc, hoid, ?_⟩
  rw [← hoid]
  refine rowsAt_upsert_of_mem ?_ ?_ (hkeys ▸ hdist) hmem _
  · exact fun _ _ => rfl
  · exact fun _ => rfl

include hkey

/-- **Batch semantics**: after the fattr and the deleted exports are processed,
the object table is what the batch says, exactly if no listed object that is not
deleted had an invalid row. -/
theorem batch_semantics_iff (h : processFattr fattr db = some db') :
    BatchOk fattr deleted db.object (processDeleted deleted db').object ↔
      ∀ s ∈ fattr, s.objid ∉ deleted → ∀ r ∈ db.object, r.oid = s.objid → r.valid = true := by
  constructor
  · intro hok s hs hnd r hr hrs
    obtain ⟨c, hc, hoid, hrows⟩ := objectRows_processFattr_of_mem hdist h hs
    have hprior : objectRows s.objid db.object = [r] := hrs ▸ rowsAt_of_nodup _ hkey hr
    obtain ⟨x, hx, hvalid, _⟩ := hok.listed s hs hnd
    rw [objectRows_processDeleted, hrows, hprior] at hx
    simp only [List.cons_ne_nil, if_false, List.map_cons, List.map_nil, if_neg hnd,
      List.cons.injEq, and_true] at hx
    rw [← hx] at hvalid
    exact hvalid
  · intro hvalid
    refine ⟨fun s hs hnd => ?_, fun o ho r hr => ?_, fun o ho hnd => ?_⟩
    · obtain ⟨c, hc, hoid, hrows⟩ := objectRows_processFattr_of_mem hdist h hs
      rw [objectRows_processDeleted, hrows]
      simp only [if_neg hnd, List.map_id']
      cases hprior : objectRows s.objid db.object with
      | nil => exact ⟨fattrInsert c, by simp, rfl, hc⟩
      | cons r rest =>
          have hr : r ∈ objectRows s.objid db.object := hprior ▸ List.mem_cons_self
          obtain ⟨hmem, hrs⟩ := (mem_rowsAt _).mp hr
          have hone : objectRows s.objid db.object = [r] := hrs ▸ rowsAt_of_nodup _ hkey hmem
          rw [hprior, List.cons.injEq] at hone
          refine ⟨fattrUpdate r c, by simp [hone.2], hvalid s hs hnd r hmem hrs, ?_⟩
          rw [toObjectCols_fattrUpdate (hrs.trans hoid.symm)]
          exact hc
    · rw [objectRows_processDeleted] at hr
      obtain ⟨x, _, rfl⟩ := List.mem_map.mp hr
      simp [ho]
    · rw [objectRows_processDeleted, objectRows_processFattr_of_notMem hdist h ho]
      simp [hnd]

end Batch

/-- An empty file with object id 10, as the scan exports it. -/
def fileTen : FattrRecord where
  objid := .of 10
  type := 0x81
  uperm := 0x60
  gperm := 0x20
  operm := 0
  nlink := 1
  uid := 7
  gid := 7
  size := 0
  atime := 100
  mtime := 100
  ctime := 100

/-- What is stored for it. -/
def fileTenCols : ObjectCols where
  oid := .of 10
  stDev := 44
  stMode := 0o100640
  stNlink := 1
  stUid := 7
  stGid := 7
  stRdev := 0
  stSize := 0
  stBlksize := 512
  stBlocks := 0
  stAtime := 100
  stMtime := 100
  stCtime := 100

/-- The table with the object's row, marked as given. -/
def tenDb (valid : Bool) : Db := { object := [{ toObjectCols := fileTenCols, valid }] }

/-- A row that was marked as deleted stays invalid when its object is listed
again. -/
theorem relisted_object_stays_invalid : ¬ ∀ (fattr : List FattrRecord) (deleted : List Oid)
    (db db' : Db), (db.object.map (·.oid)).Nodup → (fattr.map FattrRecord.objid).Nodup →
      processFattr fattr db = some db' →
        BatchOk fattr deleted db.object (processDeleted deleted db').object := by
  intro h
  have hok := h [fileTen] [] (tenDb false) (tenDb false) (by decide) (by decide) (by decide)
  obtain ⟨r, hrows, hvalid, _⟩ := hok.listed fileTen (by decide) (by decide)
  have hinvalid : ∀ x ∈ objectRows fileTen.objid (processDeleted [] (tenDb false)).object,
      x.valid = false := by decide
  rw [hinvalid r (hrows ▸ List.mem_cons_self)] at hvalid
  contradiction

theorem batch_semantics_fileTen :
    ((tenDb true).object.map (·.oid)).Nodup ∧ ([fileTen].map FattrRecord.objid).Nodup ∧
      processFattr [fileTen] (tenDb true) = some (tenDb true) ∧
      (BatchOk [fileTen] [] (tenDb true).object (processDeleted [] (tenDb true)).object ↔
        ∀ s ∈ [fileTen], s.objid ∉ ([] : List Oid) →
          ∀ r ∈ (tenDb true).object, r.oid = s.objid → r.valid = true) :=
  ⟨by decide, by decide, by decide, batch_semantics_iff (by decide) (by decide) (by decide)⟩

end Hpssix
