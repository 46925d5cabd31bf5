import Mathlib.Order.Fin.Basic
import Hpssix.Base.CText
import Hpssix.Base.Forest

/-!
# Hpssix.Hpss

The HPSS metadata that the scan script reads: the DB2 tables `objecttable`,
`fileinfo` and `uxattrs`, and the history tables in which DB2 keeps the
replaced and deleted rows with the time of the change (`sys_end`).

`hpssStep` is one operation of an HPSS client.  It changes the `objecttable`
row of the object it names and no other; an operation whose preconditions
fail has no effect.  What an operation can do to `objecttable` and its history
is stated once (`tableEdit_hpssStep`); from it follow that the namespace stays
a tree (`TableEdit.wf`) and which paths an operation leaves alone.
-/

namespace Hpssix

open CText Forest Rel

/-! ## the tables -/

/-- An object id: a non-negative `BIGINT`. -/
abbrev Oid := Fin (2 ^ 63)

instance : LawfulBEq Oid := inferInstance

/-- The object id with the number `n`. -/
def Oid.of (n : Nat) (h : decide (n < 2 ^ 63) = true := by exact Eq.refl true) : Oid :=
  ⟨n, of_decide_eq_true h⟩

/-- The root of the namespace tree. -/
def rootOid : Oid := .of 1

/-- A row of `objecttable`; nullable columns are options. -/
structure ObjRow where
  objid : Oid
  parentId : Oid
  name : Text
  type : Option UInt8 := none
  uperms : Option UInt8 := none
  gperms : Option UInt8 := none
  operms : Option UInt8 := none
  uid : Option UInt32 := none
  gid : Option UInt32 := none
  fileinfoId : Option Oid := none
deriving DecidableEq

/-- A row of `fileinfo`. -/
structure FileInfo where
  fileinfoId : Oid
  linkcount : Option UInt64 := none
  datalen : Option UInt64 := none
  readtime : Option UInt64 := none
  writetime : Option UInt64 := none
  modifytime : Option UInt64 := none
deriving DecidableEq

/-- A row of a history table: the key of the replaced row and `sys_end`, in
microseconds. -/
structure HistRow where
  key : Oid
  sysEnd : Nat
deriving DecidableEq

/-- The attributes of an object: pairs of a name and a value. -/
abbrev Attrs := List (Text × Text)

/-- The metadata tables. -/
structure Hpss where
  objecttable : List ObjRow := []
  objecttableHistory : List HistRow := []
  fileinfo : List FileInfo := []
  fileinfoHistory : List HistRow := []
  uxattrs : List (Oid × Attrs) := []
deriving DecidableEq

namespace Hpss

/-- The ids in `objecttable`: the objects that exist. -/
def oids (h : Hpss) : List Oid := h.objecttable.map ObjRow.objid

/-- The ids in the history of `objecttable`. -/
def histOids (h : Hpss) : List Oid := h.objecttableHistory.map HistRow.key

/-- The row of an object. -/
def row (h : Hpss) (o : Oid) : Option ObjRow := h.objecttable.find? fun r => r.objid = o

/-- The rows from an object up to a child of the root. -/
def chainOf (h : Hpss) (o : Oid) : List ObjRow :=
  chain ObjRow.objid ObjRow.parentId h.objecttable h.objecttable.length o

/-- The extended attributes of an object. -/
def attrs (h : Hpss) (o : Oid) : Attrs :=
  match h.uxattrs.find? fun u => u.1 = o with
  | some u => u.2
  | none => []

end Hpss

/-- The `/`-joined names of a chain that is listed upwards. -/
def pathText (c : List ObjRow) : Text := c.foldl (fun path r => '/' :: r.name ++ path) []

/-- The full path of an object: the names from the root down to it. -/
def Hpss.currentPath (h : Hpss) (o : Oid) : Text := pathText (h.chainOf o)

/-! ## operations -/

/-- What a client can do to the namespace and to an object's metadata. -/
inductive HpssOp where
  /-- A new object, with its row of `fileinfo` if it has one. -/
  | create (row : ObjRow) (info : Option FileInfo)
  | delete (objid : Oid)
  /-- A new place and name for a file or a directory. -/
  | rename (objid parentId : Oid) (name : Text)
  /-- New owner or permissions. -/
  | chattr (objid : Oid) (uperms gperms operms : Option UInt8) (uid gid : Option UInt32)
  /-- New times. -/
  | utime (objid : Oid) (time : UInt64)
deriving DecidableEq

namespace Hpss

/-- The root, or an object that exists. -/
def IsParent (h : Hpss) (o : Oid) : Prop := o = rootOid ∨ o ∈ h.oids

/-- Object ids are given out once, and the parent exists. -/
def CanCreate (h : Hpss) (r : ObjRow) : Prop :=
  r.objid ∉ h.oids ∧ r.objid ∉ h.histOids ∧ r.objid ≠ rootOid ∧ h.IsParent r.parentId

/-- Only an object without children is deleted. -/
def CanDelete (h : Hpss) (o : Oid) : Prop :=
  o ∈ h.oids ∧ ∀ r ∈ h.objecttable, r.parentId ≠ o

/-- A directory is not moved below itself. -/
def CanRename (h : Hpss) (o p : Oid) : Prop :=
  o ∈ h.oids ∧ h.IsParent p ∧ o ∉ (h.chainOf p).map ObjRow.objid

instance (h : Hpss) (o : Oid) : Decidable (h.IsParent o) := inferInstanceAs (Decidable (_ ∨ _))

instance (h : Hpss) (r : ObjRow) : Decidable (h.CanCreate r) :=
  inferInstanceAs (Decidable (_ ∧ _ ∧ _ ∧ _))

instance (h : Hpss) (o : Oid) : Decidable (h.CanDelete o) := inferInstanceAs (Decidable (_ ∧ _))

instance (h : Hpss) (o p : Oid) : Decidable (h.CanRename o p) :=
  inferInstanceAs (Decidable (_ ∧ _ ∧ _))

/-- Replace the row of an object; DB2 keeps the old row in the history. -/
def replaceRow (now : Nat) (o : Oid) (g : ObjRow → ObjRow) (h : Hpss) : Hpss :=
  { h with
    objecttable := updateRow ObjRow.objid o g h.objecttable
    objecttableHistory := h.objecttableHistory ++ [⟨o, now⟩] }

/-- Replace the row of `fileinfo` that an object points to. -/
def touchFileinfo (now : Nat) (o : Oid) (time : UInt64) (h : Hpss) : Hpss :=
  match (h.row o).bind ObjRow.fileinfoId with
  | none => h
  | some f =>
    { h with
      fileinfo := updateRow FileInfo.fileinfoId f
        (fun b => { b with readtime := some time, writetime := some time }) h.fileinfo
      fileinfoHistory := h.fileinfoHistory ++ [⟨f, now⟩] }

/-- Set one attribute of an object that exists. -/
def setxattr (o : Oid) (name val : Text) (h : Hpss) : Hpss :=
  if o ∈ h.oids then
    { h with uxattrs := h.uxattrs.filter (fun u => u.1 ≠ o) ++
        [(o, (h.attrs o).filter (fun a => a.1 ≠ name) ++ [(name, val)])] }
  else h

/-- Remove one attribute of an object. -/
def removexattr (o : Oid) (name : Text) (h : Hpss) : Hpss :=
  { h with uxattrs := h.uxattrs.map fun u =>
      if u.1 = o then (u.1, u.2.filter fun a => a.1 ≠ name) else u }

end Hpss

/-- One operation, carried out at time `now`. -/
def hpssStep (now : Nat) (op : HpssOp) (h : Hpss) : Hpss :=
  match op with
  | .create r info =>
    if h.CanCreate r then
      { h with objecttable := h.objecttable ++ [r], fileinfo := h.fileinfo ++ info.toList }
    else h
  | .delete o =>
    if h.CanDelete o then
      { h with
        objecttable := h.objecttable.filter fun r => r.objid ≠ o
        objecttableHistory := h.objecttableHistory ++ [⟨o, now⟩]
        uxattrs := h.uxattrs.filter fun u => u.1 ≠ o }
    else h
  | .rename o p name =>
    if h.CanRename o p then h.replaceRow now o fun r => { r with parentId := p, name := name }
    else h
  | .chattr o u g w uid gid =>
    if o ∈ h.oids then h.replaceRow now o fun r =>
      { r with uperms := u, gperms := g, operms := w, uid := uid, gid := gid }
    else h
  | .utime o time => h.touchFileinfo now o time

/-! ## what an operation does to the object table -/

/-- The edits of `objecttable` and its history that one operation can make. -/
inductive TableEdit (now : Nat) (op : HpssOp) (h h' : Hpss) : Prop
  | none (ht : h'.objecttable = h.objecttable)
      (hh : h'.objecttableHistory = h.objecttableHistory)
  | create (r : ObjRow) (hc : h.CanCreate r) (ht : h'.objecttable = h.objecttable ++ [r])
      (hh : h'.objecttableHistory = h.objecttableHistory)
  | delete (o : Oid) (hd : h.CanDelete o)
      (ht : h'.objecttable = h.objecttable.filter fun r => r.objid ≠ o)
      (hh : h'.objecttableHistory = h.objecttableHistory ++ [⟨o, now⟩])
  | rename (o p : Oid) (name : Text) (hop : op = .rename o p name) (hr : h.CanRename o p)
      (ht : h'.objecttable = updateRow ObjRow.objid o
        (fun r => { r with parentId := p, name := name }) h.objecttable)
      (hh : h'.objecttableHistory = h.objecttableHistory ++ [⟨o, now⟩])
  | chattr (o : Oid) (g : ObjRow → ObjRow) (ho : o ∈ h.oids)
      (hg : ∀ r, (g r).objid = r.objid ∧ (g r).parentId = r.parentId ∧ (g r).name = r.name)
      (ht : h'.objecttable = updateRow ObjRow.objid o g h.objecttable)
      (hh : h'.objecttableHistory = h.objecttableHistory ++ [⟨o, now⟩])

/-- A file's times are in `fileinfo`, not in `objecttable`. -/
theorem touchFileinfo_objecttable (now : Nat) (o : Oid) (time : UInt64) (h : Hpss) :
    (h.touchFileinfo now o time).objecttable = h.objecttable ∧
      (h.touchFileinfo now o time).objecttableHistory = h.objecttableHistory := by
  unfold Hpss.touchFileinfo
  split <;> simp

/-- Every operation makes one of these edits. -/
theorem tableEdit_hpssStep (now : Nat) (op : HpssOp) (h : Hpss) :
    TableEdit now op h (hpssStep now op h) := by
  cases op with
  | create r info =>
      by_cases hc : h.CanCreate r
      · rw [hpssStep, if_pos hc]; exact .create r hc rfl rfl
      · rw [hpssStep, if_neg hc]; exact .none rfl rfl
  | delete o =>
      by_cases hd : h.CanDelete o
      · rw [hpssStep, if_pos hd]; exact .delete o hd rfl rfl
      · rw [hpssStep, if_neg hd]; exact .none rfl rfl
  | rename o p name =>
      by_cases hr : h.CanRename o p
      · rw [hpssStep, if_pos hr]; exact .rename o p name rfl hr rfl rfl
      · rw [hpssStep, if_neg hr]; exact .none rfl rfl
  | chattr o u g w uid gid =>
      by_cases ho : o ∈ h.oids
      · rw [hpssStep, if_pos ho]
        refine .chattr o (fun r => { r with
          uperms := u, gperms := g, operms := w, uid := uid, gid := gid }) ho ?_ rfl rfl
        exact fun _ => ⟨rfl, rfl, rfl⟩
      · rw [hpssStep, if_neg ho]; exact .none rfl rfl
  | utime o time =>
      obtain ⟨ht, hh⟩ := touchFileinfo_objecttable now o time h
      exact .none ht hh

/-! ## the namespace stays a tree -/

/-- The namespace: unique object ids under the root, without cycles. -/
def Hpss.Wf (h : Hpss) : Prop := IsForest ObjRow.objid ObjRow.parentId rootOid h.objecttable

/-- The empty namespace is a tree. -/
theorem Hpss.wf_empty : Hpss.Wf {} where
  nodup := List.nodup_nil
  noRoot := List.not_mem_nil
  rooted := fun _ hr => absurd hr List.not_mem_nil

section Edit
variable {h h' : Hpss} {now : Nat} {op : HpssOp}

/-- A chain of the object table. -/
abbrev Hpss.IsChain (h : Hpss) (o : Oid) (c : List ObjRow) : Prop :=
  Forest.IsChain ObjRow.objid ObjRow.parentId rootOid h.objecttable o c

/-- Every object is below the root. -/
theorem Hpss.Wf.isChain (hw : h.Wf) {o : Oid} (ho : o ∈ h.oids) : h.IsChain o (h.chainOf o) :=
  IsForest.isChain hw ho

/-- The directories above an object are what they are found to be. -/
theorem Hpss.Wf.chainOf_eq (hw : h.Wf) {o : Oid} {c : List ObjRow} (hc : h.IsChain o c) :
    h.chainOf o = c :=
  IsForest.chain_eq hw hc

/-- The namespace stays a tree. -/
theorem TableEdit.wf (he : TableEdit now op h h') (hw : h.Wf) : h'.Wf := by
  unfold Hpss.Wf
  cases he with
  | none ht _ => rw [ht]; exact hw
  | create r hc ht _ =>
      rw [ht]
      obtain ⟨hnew, _, hne, hp⟩ := hc
      exact forest_append hw hnew hne hp
  | delete o hd ht _ =>
      rw [ht]
      exact forest_remove hw hd.2
  | rename o p name _ hr ht _ =>
      rw [ht]
      refine forest_update (fun x => rfl) hw fun r _ _ => ?_
      obtain ⟨_, hp, hbelow⟩ := hr
      obtain hroot | hmem := hp
      · exact .inl hroot
      · exact .inr ⟨_, hw.isChain hmem, hbelow⟩
  | chattr o g ho hg ht _ =>
      rw [ht]
      refine forest_update (fun x => (hg x).1) hw fun r hr hro => ?_
      rw [(hg r).2.1]
      obtain ⟨r', c, heq, hr', hid, hrest⟩ :=
        isChain_iff.mp (hw.isChain (List.mem_map_of_mem hr))
      have hrr := eq_of_id_eq hw.nodup hr' hr hid
      subst hrr
      obtain ⟨hroot, _⟩ | hc := hrest
      · exact .inl hroot
      · refine .inr ⟨c, hc, ?_⟩
        have hnd := (hw.isChain (List.mem_map_of_mem hr)).nodup hw.nodup hw.noRoot
        rw [heq, List.map_cons, List.nodup_cons, hro] at hnd
        exact hnd.1

/-- History rows are never lost. -/
theorem TableEdit.mem_history (he : TableEdit now op h h') {x : HistRow}
    (hx : x ∈ h.objecttableHistory) : x ∈ h'.objecttableHistory := by
  cases he with
  | none _ hh => rw [hh]; exact hx
  | create _ _ _ hh => rw [hh]; exact hx
  | delete _ _ _ hh => rw [hh]; exact List.mem_append_left _ hx
  | rename _ _ _ _ _ _ hh => rw [hh]; exact List.mem_append_left _ hx
  | chattr _ _ _ _ _ hh => rw [hh]; exact List.mem_append_left _ hx

/-- An object that appears was never there before. -/
theorem TableEdit.appears (he : TableEdit now op h h') {o : Oid} (ho : o ∈ h'.oids) :
    o ∈ h.oids ∨ o ∉ h.histOids := by
  have hsame : ∀ {g : ObjRow → ObjRow} {k : Oid},
      h'.objecttable = updateRow ObjRow.objid k g h.objecttable →
        (∀ x, (g x).objid = x.objid) → o ∈ h.oids := by
    intro g k ht hg
    rw [Hpss.oids, ht, map_id_updateRow hg] at ho
    exact ho
  cases he with
  | none ht _ => rw [Hpss.oids, ht] at ho; exact .inl ho
  | create r hc ht _ =>
      rw [Hpss.oids, ht, List.map_append, List.mem_append] at ho
      obtain ho | ho := ho
      · exact .inl ho
      · rw [List.map_singleton, List.mem_singleton] at ho
        exact .inr (ho ▸ hc.2.1)
  | delete d _ ht _ =>
      rw [Hpss.oids, ht] at ho
      exact .inl ((List.filter_sublist.map _).subset ho)
  | rename d p name _ _ ht _ => exact .inl (hsame ht fun _ => rfl)
  | chattr d g _ hg ht _ => exact .inl (hsame ht fun x => (hg x).1)

/-- An object that was there leaves its id behind. -/
theorem TableEdit.remembers (he : TableEdit now op h h') {o : Oid}
    (ho : o ∈ h.oids ∨ o ∈ h.histOids) : o ∈ h'.oids ∨ o ∈ h'.histOids := by
  obtain ho | ho := ho
  · have hsame : ∀ {g : ObjRow → ObjRow} {k : Oid},
        h'.objecttable = updateRow ObjRow.objid k g h.objecttable →
          (∀ x, (g x).objid = x.objid) → o ∈ h'.oids := by
      intro g k ht hg
      rw [Hpss.oids, ht, map_id_updateRow hg]
      exact ho
    cases he with
    | none ht _ => exact .inl (by rw [Hpss.oids, ht]; exact ho)
    | create r _ ht _ =>
        rw [Hpss.oids, ht, List.map_append]
        exact .inl (List.mem_append_left _ ho)
    | delete d _ ht hh =>
        by_cases hd : o = d
        · exact .inr (by simp [Hpss.histOids, hh, hd])
        · obtain ⟨r, hr, hro⟩ := List.mem_map.mp ho
          exact .inl (by rw [Hpss.oids, ht]; exact List.mem_map.mpr ⟨r, by simp [hr, hro, hd], hro⟩)
    | rename d p name _ _ ht _ => exact .inl (hsame ht fun _ => rfl)
    | chattr d g _ hg ht _ => exact .inl (hsame ht fun x => (hg x).1)
  · obtain ⟨x, hx, rfl⟩ := List.mem_map.mp ho
    exact .inr (List.mem_map_of_mem (he.mem_history hx))

/-! ## which paths an operation changes -/

/-- The operation moves a directory above the object. -/
def MovesAbove (h : Hpss) (o : Oid) : HpssOp → Prop
  | .rename d p _ => h.CanRename d p ∧ d ≠ o ∧ d ∈ (h.chainOf o).map ObjRow.objid
  | _ => False

instance (h : Hpss) (o : Oid) (op : HpssOp) : Decidable (MovesAbove h o op) :=
  match op with
  | .rename .. => inferInstanceAs (Decidable (_ ∧ _ ∧ _))
  | .create .. | .delete .. | .chattr .. | .utime .. => inferInstanceAs (Decidable False)

/-- A path has the names of its rows only. -/
theorem pathText_updateRow {g : ObjRow → ObjRow} (hg : ∀ r, (g r).name = r.name) (o : Oid)
    (c : List ObjRow) : pathText (updateRow ObjRow.objid o g c) = pathText c := by
  have hname : ∀ r, (if r.objid = o then g r else r).name = r.name := fun r => by
    split <;> simp [hg]
  simp [pathText, updateRow, List.foldl_map, hname]

/-- An object that is there before and after an operation keeps its path, or
its own row was replaced, or a directory above it was moved. -/
theorem TableEdit.currentPath (he : TableEdit now op h h') (hw : h.Wf) {o : Oid}
    (ho : o ∈ h.oids) (ho' : o ∈ h'.oids) :
    h'.currentPath o = h.currentPath o ∨
      h'.objecttableHistory = h.objecttableHistory ++ [⟨o, now⟩] ∨ MovesAbove h o op := by
  have hc := hw.isChain ho
  have hw' := he.wf hw
  have hsame : h'.IsChain o (h.chainOf o) → h'.currentPath o = h.currentPath o := fun hc' => by
    rw [Hpss.currentPath, hw'.chainOf_eq hc', Hpss.currentPath]
  cases he with
  | none ht _ => exact .inl (hsame (by rw [Hpss.IsChain, ht]; exact hc))
  | create r _ ht _ =>
      refine .inl (hsame ?_)
      rw [Hpss.IsChain, ht]
      exact hc.congr fun x hx => List.mem_append_left _ (hc.mem hx)
  | delete d hd ht _ =>
      refine .inl (hsame ?_)
      rw [Hpss.IsChain, ht]
      refine hc.remove hd.2 fun hod => ?_
      rw [Hpss.oids, ht, List.mem_map] at ho'
      obtain ⟨r, hr, hro⟩ := ho'
      simpa [hro, hod] using (List.mem_filter.mp hr).2
  | rename d p name hop hr ht hh =>
      by_cases hd : d = o
      · exact .inr (.inl (hd ▸ hh))
      · by_cases hmem : d ∈ (h.chainOf o).map ObjRow.objid
        · exact .inr (.inr (hop ▸ ⟨hr, hd, hmem⟩))
        · refine .inl (hsame ?_)
          rw [Hpss.IsChain, ht]
          exact hc.update hmem
  | chattr d g _ hg ht _ =>
      have hc' : h'.IsChain o (updateRow ObjRow.objid d g (h.chainOf o)) := by
        rw [Hpss.IsChain, ht]
        exact hc.map_update (fun x => (hg x).1) fun x => (hg x).2.1
      rw [Hpss.currentPath, hw'.chainOf_eq hc', pathText_updateRow fun x => (hg x).2.2]
      exact .inl rfl

end Edit

/-! ## extended attributes -/

section Attrs
variable {h : Hpss} {o x : Oid} {name val : Text} {now : Nat} {op : HpssOp}

/-- One document for each object, and in it one value for each name. -/
structure Hpss.AttrsOk (h : Hpss) : Prop where
  objects : (h.uxattrs.map Prod.fst).Nodup
  names : ∀ u ∈ h.uxattrs, (u.2.map Prod.fst).Nodup

/-- Attributes are looked at in `uxattrs` only. -/
theorem Hpss.AttrsOk.congr {h h' : Hpss} (hu : h'.uxattrs = h.uxattrs) (ha : h.AttrsOk) :
    h'.AttrsOk := by
  obtain ⟨hobj, hnames⟩ := ha
  exact ⟨by rwa [hu], by rwa [hu]⟩

/-- A file's times are not in `uxattrs`. -/
theorem uxattrs_touchFileinfo (now : Nat) (o : Oid) (time : UInt64) (h : Hpss) :
    (h.touchFileinfo now o time).uxattrs = h.uxattrs := by
  unfold Hpss.touchFileinfo
  split <;> rfl

/-- What an object has is what its document says. -/
theorem Hpss.attrs_eq_of_uxattrs {h h' : Hpss} (hu : h'.uxattrs = h.uxattrs) :
    h'.attrs o = h.attrs o := by
  rw [Hpss.attrs, Hpss.attrs, hu]

/-- An object has one document. -/
theorem Hpss.AttrsOk.mem (hu : h.AttrsOk) {a : Attrs} (ha : (o, a) ∈ h.uxattrs) : h.attrs o = a := by
  rw [Hpss.attrs, find?_eq_some_of_nodup hu.objects ha]

/-- An object with attributes has a document. -/
theorem Hpss.mem_of_attrs_ne_nil (ha : h.attrs o ≠ []) : (o, h.attrs o) ∈ h.uxattrs := by
  unfold Hpss.attrs at ha ⊢
  cases hf : h.uxattrs.find? fun u => u.1 = o with
  | none => simp [hf] at ha
  | some u =>
      have hu : u.1 = o := by simpa using List.find?_some hf
      rw [← hu]
      exact List.mem_of_find?_eq_some hf

/-- The names of an object's attributes are distinct. -/
theorem Hpss.AttrsOk.nodup_attrs (hu : h.AttrsOk) (o : Oid) : ((h.attrs o).map Prod.fst).Nodup := by
  by_cases ha : h.attrs o = []
  · simp [ha]
  · exact hu.names _ (Hpss.mem_of_attrs_ne_nil ha)

/-- A namespace operation touches no document, except that a deletion drops
one. -/
theorem uxattrs_hpssStep (now : Nat) (op : HpssOp) (h : Hpss) :
    (hpssStep now op h).uxattrs = h.uxattrs ∨ ∃ d, d ∉ (hpssStep now op h).oids ∧
      (hpssStep now op h).uxattrs = h.uxattrs.filter fun u => u.1 ≠ d := by
  cases op with
  | create r info => exact .inl (by rw [hpssStep]; split <;> rfl)
  | delete d =>
      by_cases hd : h.CanDelete d
      · refine .inr ⟨d, ?_, by simp [hpssStep, hd]⟩
        simp [hpssStep, hd, Hpss.oids]
      · exact .inl (by simp [hpssStep, hd])
  | rename d p name => exact .inl (by rw [hpssStep]; split <;> rfl)
  | chattr d u g w uid gid => exact .inl (by rw [hpssStep]; split <;> rfl)
  | utime d time => exact .inl (uxattrs_touchFileinfo now d time h)

/-- An operation keeps the documents in order. -/
theorem attrsOk_hpssStep (hu : h.AttrsOk) : (hpssStep now op h).AttrsOk := by
  obtain he | ⟨d, _, he⟩ := uxattrs_hpssStep now op h
  · exact hu.congr he
  · refine ⟨?_, fun u hmem => ?_⟩
    · rw [he]
      exact hu.objects.sublist (List.filter_sublist.map _)
    · rw [he] at hmem
      exact hu.names u (List.mem_filter.mp hmem).1

/-- An object that is there after a namespace operation has the attributes it
had. -/
theorem attrs_hpssStep (ho : o ∈ (hpssStep now op h).oids) :
    (hpssStep now op h).attrs o = h.attrs o := by
  obtain he | ⟨d, hd, he⟩ := uxattrs_hpssStep now op h
  · exact Hpss.attrs_eq_of_uxattrs he
  · have hne : o ≠ d := fun hod => hd (hod ▸ ho)
    have hfind : ∀ u : Oid × Attrs, (u.1 ≠ d ∧ u.1 = o) ↔ u.1 = o :=
      fun u => and_iff_right_of_imp fun hu => hu ▸ hne
    rw [Hpss.attrs, Hpss.attrs, he, List.find?_filter]
    simp [hfind]

/-- So does setting an attribute. -/
theorem attrsOk_setxattr (hu : h.AttrsOk) : (h.setxattr x name val).AttrsOk := by
  unfold Hpss.setxattr
  split
  · refine ⟨?_, fun u hmem => ?_⟩
    · rw [List.map_append]
      refine List.nodup_append.mpr
        ⟨hu.objects.sublist (List.filter_sublist.map _), List.nodup_singleton _, ?_⟩
      simp
    · obtain hmem | hmem := List.mem_append.mp hmem
      · exact hu.names u (List.mem_filter.mp hmem).1
      · rw [List.mem_singleton.mp hmem, List.map_append]
        refine List.nodup_append.mpr
          ⟨(hu.nodup_attrs x).sublist (List.filter_sublist.map _), List.nodup_singleton _, ?_⟩
        simp
  · exact hu

/-- So does removing one. -/
theorem attrsOk_removexattr (hu : h.AttrsOk) : (h.removexattr x name).AttrsOk := by
  refine ⟨?_, fun u hmem => ?_⟩
  · rw [Hpss.removexattr, map_key_map _ fun u => by split <;> rfl]
    exact hu.objects
  · obtain ⟨v, hv, rfl⟩ := List.mem_map.mp hmem
    split
    · exact (hu.names v hv).sublist (List.filter_sublist.map _)
    · exact hu.names v hv

/-- Setting an attribute leaves the other objects' attributes alone. -/
theorem attrs_setxattr_of_ne (hne : o ≠ x) : (h.setxattr x name val).attrs o = h.attrs o := by
  unfold Hpss.setxattr
  split
  · have hfind : ∀ u : Oid × Attrs, (u.1 ≠ x ∧ u.1 = o) ↔ u.1 = o :=
      fun u => and_iff_right_of_imp fun hu => hu ▸ hne
    simp [Hpss.attrs, List.find?_append, hfind, hne.symm]
  · rfl

/-- Removing an attribute that is there leaves fewer. -/
theorem length_attrs_removexattr (hname : name ∈ (h.attrs o).map Prod.fst) :
    ((h.removexattr o name).attrs o).length < (h.attrs o).length := by
  have hkey : ∀ u : Oid × Attrs,
      (if u.1 = o then (u.1, u.2.filter fun a => a.1 ≠ name) else u).1 = u.1 := fun u => by
    split <;> rfl
  simp only [Hpss.attrs, Hpss.removexattr, List.find?_map, Function.comp_def, hkey] at hname ⊢
  cases hf : h.uxattrs.find? fun u => u.1 = o with
  | none => simp [hf] at hname
  | some u =>
      have hu : u.1 = o := by simpa using List.find?_some hf
      rw [hf] at hname
      obtain ⟨a, ha, han⟩ := List.mem_map.mp hname
      simp only [Option.map_some, hu, if_true]
      exact List.length_filter_lt_length_iff_exists.mpr ⟨a, ha, by simp [han]⟩

/-- Removing an attribute leaves the other objects' attributes alone, and so does
removing one that is not there. -/
theorem attrs_removexattr (hne : o ≠ x ∨ name ∉ (h.attrs o).map Prod.fst) :
    (h.removexattr x name).attrs o = h.attrs o := by
  have hkey : ∀ u : Oid × Attrs,
      (if u.1 = x then (u.1, u.2.filter fun a => a.1 ≠ name) else u).1 = u.1 := fun u => by
    split <;> rfl
  simp only [Hpss.attrs, Hpss.removexattr, List.find?_map, Function.comp_def, hkey] at hne ⊢
  cases hf : h.uxattrs.find? fun u => u.1 = o with
  | none => rfl
  | some u =>
      have hu : u.1 = o := by simpa using List.find?_some hf
      rw [hf] at hne
      show (if u.1 = x then (u.1, u.2.filter fun a => a.1 ≠ name) else u).2 = u.2
      split
      · next hux =>
          obtain hne | hne := hne
          · exact absurd (hu.symm.trans hux) hne
          · rw [List.filter_eq_self]
            intro a ha
            simpa using fun han : a.1 = name => hne (han ▸ List.mem_map_of_mem ha)
      · rfl

end Attrs

end Hpssix
