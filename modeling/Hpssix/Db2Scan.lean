import Mathlib.Data.Fintype.Card
import Mathlib.Data.List.Dedup
import Hpssix.Hpss

/-!
# Hpssix.Db2Scan

The scan script (`tools/scanner/scripts/hpssix-db2-scan.sh.in`): which objects
it selects into `session.temp`, the four files it exports, and the lines it
prints for the daemon.

The column that holds the end of a history row is called `sys_end` in the `INSERT` and in
the `MERGE`, and `s_end` in `sql_deleted`.  It is one column here, that is, both names are
taken to exist; in a database without `s_end` there is no deleted export, and the builder
commits no batch.  The `MERGE`
joins on `b.fildinfo_id`, a column that no other statement mentions; whether
that statement can run is the field `mergeColumn` of a site, and a failed
statement does not stop the script.

* `mem_sessionTemp` — the selection;
* `mem_fattr`, `mem_deleted` — the objects listed as present and as deleted;
* `path_perm` — every present selected object is exported with its full path.
-/

namespace Hpssix

open CText Forest Rel

/-! ## the site -/

/-- Local time: the day of a time in seconds, and the first second of a day. -/
structure Calendar where
  day : Int → Int
  midnight : Int → Int
  midnight_le : ∀ d t, midnight d ≤ t ↔ d ≤ day t

namespace Calendar

/-- A day begins before its times. -/
theorem midnight_day_le (c : Calendar) (t : Int) : c.midnight (c.day t) ≤ t :=
  (c.midnight_le _ _).mpr (le_refl _)

/-- Later days begin later. -/
theorem midnight_mono (c : Calendar) {d d' : Int} (h : d ≤ d') : c.midnight d ≤ c.midnight d' :=
  (c.midnight_le _ _).mpr (h.trans ((c.midnight_le _ _).mp (le_refl _)))

/-- Later times are on later days. -/
theorem day_mono (c : Calendar) {t t' : Int} (h : t ≤ t') : c.day t ≤ c.day t' :=
  (c.midnight_le _ _).mp ((c.midnight_day_le t).trans h)

/-- The calendar of a zone without offset. -/
def utc : Calendar where
  day t := t / 86400
  midnight d := d * 86400
  midnight_le d t := (Int.le_ediv_iff_mul_le (by decide)).symm

end Calendar

/-- What is fixed for an installation: the configured first object id and tag
prefix, the time zone, and whether `fileinfo_history` has the column that the
`MERGE` names. -/
structure Site where
  firstOid : Oid
  tagPrefix : Text
  calendar : Calendar
  mergeColumn : Bool

/-- `sys_end > '<fromdate>'`: later than the first moment of that day. -/
def Site.after (site : Site) (fromdate : Int) (sysEnd : Nat) : Prop :=
  site.calendar.midnight fromdate * 1000000 < sysEnd

instance (site : Site) (fromdate : Int) (sysEnd : Nat) : Decidable (site.after fromdate sysEnd) :=
  inferInstanceAs (Decidable (_ < _))

/-! ## session.temp -/

section Script
variable (site : Site) (lastObjid : Nat) (fromdate : Int) (h : Hpss)

/-- The keys of the history rows that ended after `fromdate`. -/
def changedKeys (t : List HistRow) : List Oid :=
  ((t.filter fun r => site.after fromdate r.sysEnd).map HistRow.key).dedup

/-- New objects. -/
def tempNew : List Oid := h.oids.filter fun o => lastObjid < o.val

/-- Older objects with a replaced or deleted row. -/
def tempHistory : List Oid :=
  (changedKeys site fromdate h.objecttableHistory).filter fun o => o.val ≤ lastObjid

/-- Older objects with a replaced row of `fileinfo`, merged into `st`. -/
def tempFileinfo (st : List Oid) : List Oid :=
  (h.objecttable.filter fun r => r.objid.val ≤ lastObjid ∧
      r.fileinfoId ∈ (changedKeys site fromdate h.fileinfoHistory).map some ∧
      r.objid ∉ st).map ObjRow.objid

/-- `session.temp`. -/
def sessionTemp : List Oid :=
  let st := tempNew lastObjid h ++ tempHistory site lastObjid fromdate h
  if site.mergeColumn then st ++ tempFileinfo site lastObjid fromdate h st else st

/-! ## the exports -/

/-- A line of the fattr export: object id, type, permissions, link count, owner,
size and times. -/
structure FattrRecord where
  objid : Oid
  type : UInt32
  uperm : UInt32
  gperm : UInt32
  operm : UInt32
  nlink : UInt64
  uid : UInt32
  gid : UInt32
  size : UInt64
  atime : UInt64
  mtime : UInt64
  ctime : UInt64
deriving DecidableEq

/-- The selected columns of one object; `COALESCE` turns NULL into 0. -/
def fattrRecord (n : ObjRow) (b : Option FileInfo) : FattrRecord where
  objid := n.objid
  type := (n.type.getD 0).toUInt32
  uperm := (n.uperms.getD 0).toUInt32
  gperm := (n.gperms.getD 0).toUInt32
  operm := (n.operms.getD 0).toUInt32
  nlink := (b.bind FileInfo.linkcount).getD 0
  uid := n.uid.getD 0
  gid := n.gid.getD 0
  size := (b.bind FileInfo.datalen).getD 0
  atime := (b.bind FileInfo.readtime).getD 0
  mtime := (b.bind FileInfo.writetime).getD 0
  ctime := (b.bind FileInfo.modifytime).getD 0

/-- The row of `fileinfo` that an object is joined with. -/
def Hpss.infoOf (n : ObjRow) : Option FileInfo :=
  n.fileinfoId.bind fun f => h.fileinfo.find? fun b => b.fileinfoId = f

/-- `sql_fattr`. -/
def sqlFattr (temp : List Oid) : List FattrRecord :=
  orderAsc FattrRecord.objid
    ((h.objecttable.filter fun n => n.objid ∈ temp).map fun n => fattrRecord n (h.infoOf n))

/-- `sql_path`. -/
def sqlPath (temp : List Oid) : List (Oid × Text) :=
  let step (n : ObjRow) (path : Text) : Text := '/' :: n.name ++ path
  let base := (h.objecttable.filter fun n => n.objid ∈ temp).map fun n => ⟨n, n, step n []⟩
  let fullpath := cteRows ObjRow.objid ObjRow.parentId step h.objecttable h.objecttable.length base
  orderAsc Prod.fst ((fullpath.filter fun f => f.row.parentId = rootOid).map fun f =>
    (f.leaf.objid, f.acc))

/-- `sql_xattr`: the documents of the selected objects; an object without
attributes has none. -/
def sqlXattr (temp : List Oid) : List (Oid × Attrs) :=
  h.uxattrs.filter fun u => u.1 ∈ temp ∧ u.2 ≠ []

/-- `sql_deleted`, where `s_end` is a name of the column `sys_end`. -/
def sqlDeleted : List Oid :=
  orderAsc (fun o => o)
    ((changedKeys site fromdate h.objecttableHistory).filter fun o => o ∉ h.oids)

/-- The exported files. -/
structure ScanFiles where
  fattr : List FattrRecord
  path : List (Oid × Text)
  xattr : List (Oid × Attrs)
  deleted : List Oid
deriving DecidableEq

/-- The files that one run exports. -/
def scanFiles : ScanFiles :=
  let temp := sessionTemp site lastObjid fromdate h
  { fattr := sqlFattr h temp
    path := sqlPath h temp
    xattr := sqlXattr h temp
    deleted := sqlDeleted site fromdate h }

end Script

/-! ## the report -/

/-- `end_oid`: the first field of the last line of the fattr file, blank if the
file is empty. -/
def endOidText (fattr : List FattrRecord) : Text :=
  match fattr.getLast? with
  | none => []
  | some r => decimal r.objid.val

/-- `$((last_objid+1))`, in bash's signed 64-bit arithmetic. -/
def bashSucc (n : Nat) : Text :=
  if (n + 1) % 2 ^ 64 < 2 ^ 63 then decimal ((n + 1) % 2 ^ 64)
  else '-' :: decimal (2 ^ 64 - (n + 1) % 2 ^ 64)

/-- One line of the report. -/
def reportLine (key value : Text) : Text := key ++ ": ".toList ++ value ++ ['\n']

/-- The lines about the exports that the script prints at its end. -/
def scanReport (lastObjid : Nat) (files : ScanFiles) : List Text :=
  [ ['\n'],
    reportLine "## start oid".toList (bashSucc lastObjid),
    reportLine "## end oid".toList (endOidText files.fattr),
    reportLine "## scanned".toList (decimal files.fattr.length),
    reportLine "## deleted".toList (decimal files.deleted.length) ]

/-! ## what is selected and listed -/

section Spec
variable {site : Site} {lastObjid : Nat} {fromdate : Int} {h : Hpss} {o : Oid} {temp : List Oid}

/-- An object has changed if a row of it ended inside the window. -/
theorem mem_changedKeys {t : List HistRow} :
    o ∈ changedKeys site fromdate t ↔ ∃ r ∈ t, site.after fromdate r.sysEnd ∧ r.key = o := by
  simp [changedKeys, and_assoc]

/-- New objects are those above the watermark. -/
theorem mem_tempNew : o ∈ tempNew lastObjid h ↔ o ∈ h.oids ∧ lastObjid < o.val := by
  simp [tempNew]

/-- Older objects are selected if they have changed. -/
theorem mem_tempHistory : o ∈ tempHistory site lastObjid fromdate h ↔
    o ∈ changedKeys site fromdate h.objecttableHistory ∧ o.val ≤ lastObjid := by
  simp [tempHistory]

/-- A new object is selected. -/
theorem mem_sessionTemp_of_new (ho : o ∈ h.oids) (hlast : lastObjid < o.val) :
    o ∈ sessionTemp site lastObjid fromdate h := by
  have hmem := List.mem_append_left (tempHistory site lastObjid fromdate h)
    (mem_tempNew.mpr ⟨ho, hlast⟩)
  unfold sessionTemp
  split
  · exact List.mem_append_left _ hmem
  · exact hmem

/-- An existing object with a history row inside the window is selected. -/
theorem mem_sessionTemp_of_history (ho : o ∈ h.oids) {r : HistRow}
    (hr : r ∈ h.objecttableHistory) (hk : r.key = o) (hafter : site.after fromdate r.sysEnd) :
    o ∈ sessionTemp site lastObjid fromdate h := by
  by_cases hlast : lastObjid < o.val
  · exact mem_sessionTemp_of_new ho hlast
  · have hmem := List.mem_append_right (tempNew lastObjid h)
      (mem_tempHistory.mpr ⟨mem_changedKeys.mpr ⟨r, hr, hafter, hk⟩, Nat.le_of_not_lt hlast⟩)
    unfold sessionTemp
    split
    · exact List.mem_append_left _ hmem
    · exact hmem

/-- The fattr export has one line for each live object that is selected. -/
theorem map_objid_fattr_perm :
    ((sqlFattr h temp).map FattrRecord.objid).Perm (h.oids.filter fun o => o ∈ temp) := by
  refine ((perm_orderAsc FattrRecord.objid _).map _).trans ?_
  rw [Hpss.oids, List.filter_map, List.map_map]
  exact List.Perm.refl _

/-- The fattr export lists the selected objects that exist. -/
theorem mem_fattr : o ∈ (sqlFattr h temp).map FattrRecord.objid ↔ o ∈ h.oids ∧ o ∈ temp := by
  rw [map_objid_fattr_perm.mem_iff]
  simp

/-- The last line of the fattr export has the largest object id. -/
theorem le_last_fattr {r : FattrRecord} (hr : (sqlFattr h temp).getLast? = some r)
    (ho : o ∈ h.oids) (ht : o ∈ temp) : o ≤ r.objid := by
  obtain ⟨x, hx, rfl⟩ := List.mem_map.mp (mem_fattr.mpr ⟨ho, ht⟩)
  exact le_of_getLast?_orderAsc FattrRecord.objid hr ((mem_orderAsc _).mp hx)

/-- The deleted export lists the objects that no longer exist and whose row
ended inside the window. -/
theorem mem_deleted : o ∈ sqlDeleted site fromdate h ↔
    (∃ r ∈ h.objecttableHistory, site.after fromdate r.sysEnd ∧ r.key = o) ∧ o ∉ h.oids := by
  simp [sqlDeleted, mem_changedKeys]

variable (hw : h.Wf)
include hw

/-- No object is listed as present twice. -/
theorem nodup_fattr : ((sqlFattr h temp).map FattrRecord.objid).Nodup :=
  map_objid_fattr_perm.nodup_iff.mpr (hw.nodup.filter _)

omit hw in
/-- No object is listed as deleted twice. -/
theorem nodup_deleted : (sqlDeleted site fromdate h).Nodup :=
  (perm_orderAsc _ _).nodup_iff.mpr ((List.nodup_dedup _).filter _)

/-- The counts of one run stay far below the range of the daemon's counters. -/
theorem length_fattr_add_length_deleted :
    (sqlFattr h temp).length + (sqlDeleted site fromdate h).length ≤ 2 ^ 63 := by
  have hdisj : ∀ a ∈ (sqlFattr h temp).map FattrRecord.objid,
      ∀ b ∈ sqlDeleted site fromdate h, a ≠ b := by
    intro a ha b hb hab
    exact (mem_deleted.mp hb).2 (hab ▸ (mem_fattr.mp ha).1)
  have hnd := List.nodup_append.mpr ⟨nodup_fattr hw, nodup_deleted, hdisj⟩
  have hcard := hnd.length_le_card
  rwa [List.length_append, List.length_map, Fintype.card_fin] at hcard

/-- **The path export**: every existing selected object with its full path. -/
theorem path_perm : (sqlPath h temp).Perm
    ((h.objecttable.filter fun n => n.objid ∈ temp).map fun n =>
      (n.objid, h.currentPath n.objid)) := by
  have hcte := perm_cteRows (f := fun (n : ObjRow) (path : Text) => '/' :: n.name ++ path)
    (b := []) hw (s := h.objecttable.filter fun n => n.objid ∈ temp)
    fun r hr => (List.mem_filter.mp hr).1
  have hpair := hcte.map fun q : ObjRow × Text => (q.1.objid, q.2)
  rw [List.map_map, List.map_map] at hpair
  exact (perm_orderAsc _ _).trans hpair

/-- The path export has the current path of each live object that is selected. -/
theorem mem_path {path : Text} :
    (o, path) ∈ sqlPath h temp ↔ o ∈ h.oids ∧ o ∈ temp ∧ path = h.currentPath o := by
  rw [(path_perm hw).mem_iff]
  simp only [List.mem_map, List.mem_filter, decide_eq_true_eq, Prod.mk.injEq, Hpss.oids]
  constructor
  · rintro ⟨n, ⟨hn, ht⟩, rfl, rfl⟩
    exact ⟨⟨n, hn, rfl⟩, ht, rfl⟩
  · rintro ⟨⟨n, hn, rfl⟩, ht, rfl⟩
    exact ⟨n, ⟨hn, ht⟩, rfl, rfl⟩

/-- No object has two paths in one export. -/
theorem nodup_path : ((sqlPath h temp).map Prod.fst).Nodup := by
  rw [((path_perm hw).map Prod.fst).nodup_iff, List.map_map]
  exact hw.nodup.sublist (List.filter_sublist.map _)

end Spec

end Hpssix
