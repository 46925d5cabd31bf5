import Hpssix.FattrQuery
import Hpssix.Index

/-!
# Hpssix.Records

The line that a scan lists for an object, and how it changes.

A line is made of the object's rows in `objecttable` and in `fileinfo`; objects can
share a row of `fileinfo`.  The times of reading and writing are in `fileinfo` only.

* `mem_sqlFattr` — the export has the lines of the selected objects;
* `record_step` — over one event that leaves an object there, its line stays, or a
  history row tells that it may have changed;
* `column_of_fattrCols` — what is stored of a line is what it says.
-/

namespace Hpssix

open CText Forest Rel Trace

/-! ## the line of an object -/

/-- The line that a scan lists for an object. -/
def Hpss.record (h : Hpss) (o : Oid) : Option FattrRecord :=
  (h.row o).map fun n => fattrRecord n (h.infoOf n)

/-- The row of `fileinfo` that an object points to. -/
def Hpss.fileinfoOf (h : Hpss) (o : Oid) : Option Oid := (h.row o).bind ObjRow.fileinfoId

/-- The same line, except for the times of reading and writing. -/
def SameButTimes (s s' : FattrRecord) : Prop :=
  { s with atime := s'.atime, mtime := s'.mtime } = s'

theorem SameButTimes.refl (s : FattrRecord) : SameButTimes s s := rfl

theorem SameButTimes.trans {a b c : FattrRecord} (h : SameButTimes a b) (h' : SameButTimes b c) :
    SameButTimes a c := by
  rw [SameButTimes, ← h', ← h]

/-- What can happen to the line of an object. -/
inductive RecordChange (now : Nat) (o : Oid) (h h' : Hpss) : Prop
  | same (hr : h'.record o = h.record o)
  /-- The object's own row was replaced. -/
  | own (hh : (⟨o, now⟩ : HistRow) ∈ h'.objecttableHistory)
  /-- The row of `fileinfo` was replaced, and times changed. -/
  | times (f : Oid) (hf : h'.fileinfoOf o = some f)
      (hh : (⟨f, now⟩ : HistRow) ∈ h'.fileinfoHistory)
      (hs : ∀ s', h'.record o = some s' → ∃ s, h.record o = some s ∧ SameButTimes s s')

/-- What every operation keeps of an object that stays: the histories, and the row of
`fileinfo` that it points to. -/
structure Kept (o : Oid) (h h' : Hpss) : Prop where
  objecttable : ∀ x ∈ h.objecttableHistory, x ∈ h'.objecttableHistory
  fileinfo : ∀ x ∈ h.fileinfoHistory, x ∈ h'.fileinfoHistory
  fileinfoOf : h'.fileinfoOf o = h.fileinfoOf o

/-- Extended attributes do not show in a line. -/
theorem RecordChange.congr_left {now : Nat} {o : Oid} {h h₁ h' : Hpss}
    (hc : RecordChange now o h₁ h') (hr : h₁.record o = h.record o) : RecordChange now o h h' := by
  cases hc with
  | same hs => exact .same (hs.trans hr)
  | own hh => exact .own hh
  | times f hf hh hs => exact .times f hf hh (hr ▸ hs)

theorem Kept.refl (o : Oid) (h : Hpss) : Kept o h h := ⟨fun _ hx => hx, fun _ hx => hx, rfl⟩

section Record
variable {h h' : Hpss} {o d : Oid} {now : Nat} {time : UInt64}

theorem row_eq_some_iff (hw : h.Wf) {n : ObjRow} :
    h.row o = some n ↔ n ∈ h.objecttable ∧ n.objid = o := by
  constructor
  · intro hrow
    exact ⟨List.mem_of_find?_eq_some hrow, by simpa using List.find?_some hrow⟩
  · rintro ⟨hn, rfl⟩
    exact find?_eq_some_of_nodup hw.nodup hn

/-- The fattr export has the lines of the selected objects. -/
theorem mem_sqlFattr (hw : h.Wf) {temp : List Oid} {s : FattrRecord} :
    s ∈ sqlFattr h temp ↔ s.objid ∈ temp ∧ h.record s.objid = some s := by
  simp only [sqlFattr, mem_orderAsc, List.mem_map, List.mem_filter, decide_eq_true_eq]
  constructor
  · rintro ⟨n, ⟨hn, htemp⟩, rfl⟩
    exact ⟨htemp, Option.map_eq_some_iff.mpr ⟨n, (row_eq_some_iff hw).mpr ⟨hn, rfl⟩, rfl⟩⟩
  · rintro ⟨htemp, hrec⟩
    obtain ⟨n, hrow, hs⟩ := Option.map_eq_some_iff.mp hrec
    obtain ⟨hn, hid⟩ := (row_eq_some_iff hw).mp hrow
    exact ⟨n, ⟨hn, hid ▸ htemp⟩, hs⟩

/-- Every live object has a record. -/
theorem isSome_record (ho : o ∈ h.oids) : (h.record o).isSome := by
  obtain ⟨n, hn, rfl⟩ := List.mem_map.mp ho
  rw [Hpss.record, Option.isSome_map, Hpss.row, List.find?_isSome]
  exact ⟨n, hn, by simp⟩

/-- The row of an object after a row was replaced. -/
theorem row_replaceRow (g : ObjRow → ObjRow) (hg : ∀ r, (g r).objid = r.objid) :
    (h.replaceRow now d g).row o = (h.row o).map fun r => if r.objid = d then g r else r := by
  have hid : ∀ r : ObjRow, (if r.objid = d then g r else r).objid = r.objid := fun r => by
    split
    · exact hg r
    · rfl
  simp only [Hpss.row, Hpss.replaceRow, updateRow, List.find?_map, Function.comp_def, hid]

/-- The row of an object is replaced: its own line may change, no other does. -/
theorem recordChange_replaceRow (g : ObjRow → ObjRow)
    (hg : ∀ r, (g r).objid = r.objid ∧ (g r).fileinfoId = r.fileinfoId) :
    RecordChange now o h (h.replaceRow now d g) ∧ Kept o h (h.replaceRow now d g) := by
  have hrow : (h.replaceRow now d g).row o =
      (h.row o).map fun r => if r.objid = d then g r else r := row_replaceRow g fun r => (hg r).1
  refine ⟨?_, fun x hx => List.mem_append_left _ hx, fun x hx => hx, ?_⟩
  · by_cases hd : d = o
    · subst hd
      exact .own (List.mem_append_right _ (List.mem_singleton_self _))
    · refine .same ?_
      have hsame : (h.replaceRow now d g).row o = h.row o := by
        rw [hrow]
        cases hn : h.row o with
        | none => rfl
        | some n =>
            have hno : n.objid = o := by simpa using List.find?_some hn
            rw [Option.map_some, if_neg (by rw [hno]; exact Ne.symm hd)]
      rw [Hpss.record, Hpss.record, hsame]
      rfl
  · rw [Hpss.fileinfoOf, Hpss.fileinfoOf, hrow]
    cases h.row o with
    | none => rfl
    | some n =>
        rw [Option.map_some, Option.bind_some, Option.bind_some]
        split
        · exact (hg n).2
        · rfl

/-- A row of `fileinfo` gets new times: the lines of the objects that point to it
change in these only. -/
theorem recordChange_touchFileinfo (now : Nat) (d : Oid) (time : UInt64) (h : Hpss) (o : Oid) :
    RecordChange now o h (h.touchFileinfo now d time) ∧ Kept o h (h.touchFileinfo now d time) := by
  unfold Hpss.touchFileinfo
  split
  · exact ⟨.same rfl, .refl o h⟩
  · next f hf =>
      refine ⟨?_, fun x hx => hx, fun x hx => List.mem_append_left _ hx, rfl⟩
      have hinfo : ∀ n : ObjRow, Hpss.infoOf { h with
          fileinfo := updateRow FileInfo.fileinfoId f
            (fun b => { b with readtime := some time, writetime := some time }) h.fileinfo
          fileinfoHistory := h.fileinfoHistory ++ [⟨f, now⟩] } n =
          (h.infoOf n).map fun b => if b.fileinfoId = f then
            { b with readtime := some time, writetime := some time } else b := by
        intro n
        have hid : ∀ b : FileInfo, (if b.fileinfoId = f then
            ({ b with readtime := some time, writetime := some time } : FileInfo) else b).fileinfoId =
            b.fileinfoId := fun b => by split <;> rfl
        unfold Hpss.infoOf
        cases n.fileinfoId with
        | none => rfl
        | some g =>
            simp only [Option.bind_some, updateRow, List.find?_map, Function.comp_def, hid]
      by_cases hof : h.fileinfoOf o = some f
      · refine .times f hof (List.mem_append_right _ (List.mem_singleton_self _)) fun s' hs' => ?_
        obtain ⟨n, hn, rfl⟩ := Option.map_eq_some_iff.mp hs'
        refine ⟨_, by rw [Hpss.record, show h.row o = some n from hn, Option.map_some], ?_⟩
        rw [hinfo]
        cases h.infoOf n with
        | none => rfl
        | some b =>
            rw [Option.map_some]
            split <;> rfl
      · refine .same ?_
        unfold Hpss.record
        refine Option.map_congr fun n hn => ?_
        rw [hinfo]
        have hother : ∀ b, h.infoOf n = some b → b.fileinfoId ≠ f := by
          rintro b hb rfl
          obtain ⟨g, hg, hfind⟩ := Option.bind_eq_some_iff.mp hb
          have hbg : b.fileinfoId = g := by simpa using List.find?_some hfind
          refine hof ?_
          rw [Hpss.fileinfoOf, show h.row o = some n from hn, Option.bind_some, hg, hbg]
        cases hb : h.infoOf n with
        | none => rfl
        | some b => rw [Option.map_some, if_neg (hother b hb)]

/-- An object is made, with a row of `fileinfo` that belongs to no other. -/
theorem recordChange_create {r : ObjRow} {info : Option FileInfo} (ho : o ∈ h.oids)
    (hinfo : ∀ b, info = some b → h.fileinfoOf o ≠ some b.fileinfoId) :
    RecordChange now o h { h with
      objecttable := h.objecttable ++ [r], fileinfo := h.fileinfo ++ info.toList } ∧
      Kept o h { h with
        objecttable := h.objecttable ++ [r], fileinfo := h.fileinfo ++ info.toList } := by
  obtain ⟨n, hn⟩ : ∃ n, h.row o = some n := Option.isSome_iff_exists.mp (by
    simpa [Hpss.row, Hpss.oids] using ho)
  have hrow : ∀ t, Hpss.row { h with objecttable := h.objecttable ++ [r], fileinfo := t } o =
      h.row o := fun t => by
    rw [hn]
    simp only [Hpss.row, List.find?_append]
    rw [show h.objecttable.find? _ = some n from hn]
    rfl
  refine ⟨.same ?_, fun x hx => hx, fun x hx => hx, ?_⟩
  · have hsame : Hpss.infoOf { h with
        objecttable := h.objecttable ++ [r], fileinfo := h.fileinfo ++ info.toList } n =
        h.infoOf n := by
      unfold Hpss.infoOf
      cases hf : n.fileinfoId with
      | none => rfl
      | some f =>
          rw [Option.bind_some, Option.bind_some, List.find?_append]
          cases info with
          | none => simp
          | some b =>
              have hne : b.fileinfoId ≠ f := fun hbf => hinfo b rfl (by
                rw [Hpss.fileinfoOf, hn, Option.bind_some, hf, hbf])
              simp [hne]
    rw [Hpss.record, hrow, Hpss.record, hn, Option.map_some, Option.map_some, hsame]
  · rw [Hpss.fileinfoOf, hrow, Hpss.fileinfoOf]

/-- Another object is removed. -/
theorem recordChange_delete (hd : h.CanDelete d) (ho' : o ∈ (hpssStep now (.delete d) h).oids) :
    RecordChange now o h (hpssStep now (.delete d) h) ∧ Kept o h (hpssStep now (.delete d) h) := by
  rw [hpssStep, if_pos hd] at ho' ⊢
  have hne : o ≠ d := by
    rintro rfl
    obtain ⟨n, hn, hno⟩ := List.mem_map.mp ho'
    simpa [hno] using (List.mem_filter.mp hn).2
  have hrow : ∀ hist attrs, Hpss.row { h with
      objecttable := h.objecttable.filter fun r => r.objid ≠ d
      objecttableHistory := hist
      uxattrs := attrs } o = h.row o := fun hist attrs =>
    find?_delete_of_ne ObjRow.objid hne h.objecttable
  refine ⟨.same ?_, fun x hx => List.mem_append_left _ hx, fun x hx => hx, ?_⟩
  · rw [Hpss.record, hrow]
    rfl
  · rw [Hpss.fileinfoOf, hrow, Hpss.fileinfoOf]

/-- An operation on an object that it leaves there.  A new row of `fileinfo` must not
belong to an object that is there already. -/
theorem recordChange_hpssStep {op : HpssOp} (ho : o ∈ h.oids) (ho' : o ∈ (hpssStep now op h).oids)
    (hinfo : ∀ r b, op = .create r (some b) → h.fileinfoOf o ≠ some b.fileinfoId) :
    RecordChange now o h (hpssStep now op h) ∧ Kept o h (hpssStep now op h) := by
  cases op with
  | create r info =>
      by_cases hc : h.CanCreate r
      · rw [hpssStep, if_pos hc]
        exact recordChange_create ho fun b hb => hinfo r b (by rw [hb])
      · rw [hpssStep, if_neg hc]
        exact ⟨.same rfl, .refl o h⟩
  | delete d =>
      by_cases hd : h.CanDelete d
      · exact recordChange_delete hd ho'
      · rw [hpssStep, if_neg hd]
        exact ⟨.same rfl, .refl o h⟩
  | rename d p name =>
      by_cases hr : h.CanRename d p
      · rw [hpssStep, if_pos hr]
        exact recordChange_replaceRow _ fun _ => ⟨rfl, rfl⟩
      · rw [hpssStep, if_neg hr]
        exact ⟨.same rfl, .refl o h⟩
  | chattr d u g w uid gid =>
      by_cases hd : d ∈ h.oids
      · rw [hpssStep, if_pos hd]
        exact recordChange_replaceRow _ fun _ => ⟨rfl, rfl⟩
      · rw [hpssStep, if_neg hd]
        exact ⟨.same rfl, .refl o h⟩
  | utime d time => exact recordChange_touchFileinfo now d time h o

end Record

namespace World

/-- A row of `fileinfo` that comes with a new object belongs to no object that is
there. -/
def FreshInfo (w : World) (e : Event) : Prop :=
  match e.act with
  | .op (.create _ (some b)) => ∀ n ∈ w.hpss.objecttable, n.fileinfoId ≠ some b.fileinfoId
  | _ => True

instance (w : World) (e : Event) : Decidable (FreshInfo w e) :=
  match e with
  | ⟨_, .op (.create _ (some _))⟩ => inferInstanceAs (Decidable (∀ n ∈ _, _))
  | ⟨_, .op (.create _ none)⟩ | ⟨_, .op (.delete ..)⟩ | ⟨_, .op (.rename ..)⟩
  | ⟨_, .op (.chattr ..)⟩ | ⟨_, .op (.utime ..)⟩ | ⟨_, .tagSet ..⟩ | ⟨_, .tagDel ..⟩
  | ⟨_, .round _⟩ => inferInstanceAs (Decidable True)

variable {site : Site} {tr : Transport} {o : Oid} {w : World} {e : Event} {r : RoundInput}

/-- **The line of an object**, over one event that leaves the object there. -/
theorem record_step (hinfo : FreshInfo w e) (ho : o ∈ w.hpss.oids)
    (ho' : o ∈ (w.step site e).hpss.oids) :
    RecordChange e.time o w.hpss (w.step site e).hpss ∧ Kept o w.hpss (w.step site e).hpss := by
  cases hact : e.act with
  | op op =>
      simp only [step, hact] at ho' ⊢
      refine recordChange_hpssStep ho ho' ?_
      rintro r b rfl hof
      rw [FreshInfo, hact] at hinfo
      obtain ⟨n, hn, hnf⟩ := Option.bind_eq_some_iff.mp hof
      exact hinfo n (List.mem_of_find?_eq_some hn) hnf
  | tagSet x name val =>
      simp only [step, hact, tagCmdSet]
      have hset : ∃ attrs, w.hpss.setxattr x (tagXname site.tagPrefix name) val =
          { w.hpss with uxattrs := attrs } := by
        unfold Hpss.setxattr
        split
        · exact ⟨_, rfl⟩
        · exact ⟨w.hpss.uxattrs, rfl⟩
      obtain ⟨attrs, hattrs⟩ := hset
      rw [hattrs]
      obtain ⟨hchange, hkept⟩ := recordChange_touchFileinfo e.time x (secs e.time)
        { w.hpss with uxattrs := attrs } o
      exact ⟨hchange.congr_left rfl, hkept.objecttable, hkept.fileinfo, hkept.fileinfoOf⟩
  | tagDel x name =>
      simp only [step, hact]
      exact ⟨.same rfl, fun _ hx => hx, fun _ hx => hx, rfl⟩
  | round r =>
      rw [hpss_step_round hact]
      exact ⟨.same rfl, .refl o _⟩

end World

/-! ## the columns of a line -/

/-- The value that an attribute has in a line. -/
def FattrRecord.column (s : FattrRecord) : CondArg → Nat
  | .inode => s.objid.val
  | .mode => (getStMode s.type s.uperm s.gperm s.operm).toNat
  | .uid => s.uid.toNat
  | .gid => s.gid.toNat
  | .size => s.size.toNat
  | .atime => s.atime.toNat
  | .mtime => s.mtime.toNat
  | .ctime => s.ctime.toNat

theorem eq_of_int4 {n v : Nat} (h : int4 n = some v) : v = n := by
  unfold int4 at h
  split at h
  · exact (Option.some.inj h).symm
  · exact nomatch h

/-- What is stored of a line is what it says. -/
theorem column_of_fattrCols {s : FattrRecord} {row : ObjectRow}
    (h : fattrCols s = some row.toObjectCols) (a : CondArg) : row.column a = s.column a := by
  have hoid := oid_of_fattrCols s _ h
  unfold fattrCols copyObject at h
  obtain ⟨oid, -, h⟩ := Option.bind_eq_some_iff.mp h
  obtain ⟨dev, -, h⟩ := Option.bind_eq_some_iff.mp h
  obtain ⟨mode, hmode, h⟩ := Option.bind_eq_some_iff.mp h
  obtain ⟨nlink, -, h⟩ := Option.bind_eq_some_iff.mp h
  obtain ⟨uid, huid, h⟩ := Option.bind_eq_some_iff.mp h
  obtain ⟨gid, hgid, h⟩ := Option.bind_eq_some_iff.mp h
  obtain ⟨rdev, -, h⟩ := Option.bind_eq_some_iff.mp h
  obtain ⟨size, hsize, h⟩ := Option.bind_eq_some_iff.mp h
  obtain ⟨blksize, -, h⟩ := Option.bind_eq_some_iff.mp h
  obtain ⟨blocks, -, h⟩ := Option.bind_eq_some_iff.mp h
  obtain ⟨atime, hatime, h⟩ := Option.bind_eq_some_iff.mp h
  obtain ⟨mtime, hmtime, h⟩ := Option.bind_eq_some_iff.mp h
  obtain ⟨ctime, hctime, h⟩ := Option.bind_eq_some_iff.mp h
  have hrow := (Option.some.inj h).symm
  cases a with
  | inode => exact congrArg Fin.val hoid
  | mode => exact (congrArg ObjectCols.stMode hrow).trans (eq_of_int4 hmode)
  | uid => exact (congrArg ObjectCols.stUid hrow).trans (eq_of_int4 huid)
  | gid => exact (congrArg ObjectCols.stGid hrow).trans (eq_of_int4 hgid)
  | size => exact (congrArg ObjectCols.stSize hrow).trans (eq_of_int4 hsize)
  | atime => exact (congrArg ObjectCols.stAtime hrow).trans (eq_of_int4 hatime)
  | mtime => exact (congrArg ObjectCols.stMtime hrow).trans (eq_of_int4 hmtime)
  | ctime => exact (congrArg ObjectCols.stCtime hrow).trans (eq_of_int4 hctime)

/-- Records that differ in their times agree in the other columns. -/
theorem SameButTimes.column {s s' : FattrRecord} (h : SameButTimes s s') {a : CondArg}
    (hatime : a ≠ .atime) (hmtime : a ≠ .mtime) : s.column a = s'.column a := by
  rw [← h]
  cases a with
  | atime => exact absurd rfl hatime
  | mtime => exact absurd rfl hmtime
  | _ => rfl

/-- The file type options add a condition on the mode only. -/
theorem FattrOptions.conds_time (options : FattrOptions) {conds : CondArg → Option FattrCond}
    (h : options.conds = some conds) (a : CondArg) (ha : a ≠ .mode) : conds a = options.cond a := by
  unfold FattrOptions.conds at h
  split at h
  · split at h
    · exact nomatch h
    · split at h
      · cases h
        exact Function.update_of_ne ha _ _
      · cases h
        exact Function.update_of_ne ha _ _
  · cases h
    rfl

end Hpssix
