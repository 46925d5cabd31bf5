import Hpssix.Builder
import Hpssix.World

/-!
# Hpssix.Index

The index that a run builds: each recorded round hands its exports to the
builder.  `World.index` is the content of the tables if every batch succeeded.

What a batch does is said object by object, on top of the rules for the
update-or-insert statement:

* `batchEffect` — which objects have a row afterwards, and the attribute rows, with
  the names of their keys.
-/

namespace Hpssix

open CText Rel

/-! ## the rows of one object -/

/-- The rows of an object in `hpssix_file`. -/
abbrev fileRows (o : Oid) (t : List FileRow) : List FileRow := rowsAt FileRow.oid o t

/-- The rows of an object in `hpssix_attr_val`. -/
abbrev attrRows (o : Oid) (t : List AttrValRow) : List AttrValRow := rowsAt AttrValRow.oid o t

namespace Db

/-- The name of a key id. -/
def keyName (db : Db) (kid : Nat) : Option Text :=
  (db.attrKey.find? fun k => k.kid = kid).map AttrKeyRow.name

/-- The attribute rows of an object: key name and value. -/
def tags (db : Db) (o : Oid) : List (Option Text × Option Text) :=
  (attrRows o db.attrVal).map fun v => (db.keyName v.kid, v.sval)

/-- Key ids grow and stay below the next one. -/
structure KeysOk (db : Db) : Prop where
  sorted : IdSorted AttrKeyRow.kid db.attrKey
  below : ∀ k ∈ db.attrKey, k.kid < db.nextKid

/-- Only keys were added: the other tables are the same, and ids keep their
names. -/
structure KeysGrow (db db' : Db) : Prop where
  object : db'.object = db.object
  file : db'.file = db.file
  attrVal : db'.attrVal = db.attrVal
  names : ∀ kid name, db.keyName kid = some name → db'.keyName kid = some name

/-- The table of keys is one that has grown from itself. -/
theorem KeysGrow.refl (db : Db) : db.KeysGrow db := ⟨rfl, rfl, rfl, fun _ _ h => h⟩

theorem KeysGrow.trans {a b c : Db} (h : a.KeysGrow b) (h' : b.KeysGrow c) : a.KeysGrow c where
  object := h'.object.trans h.object
  file := h'.file.trans h.file
  attrVal := h'.attrVal.trans h.attrVal
  names := fun kid name hn => h'.names kid name (h.names kid name hn)

/-- The name of a key is found under its id. -/
theorem KeysOk.keyName {db : Db} (h : db.KeysOk) {k : AttrKeyRow} (hk : k ∈ db.attrKey) :
    db.keyName k.kid = some k.name := by
  have hn : (db.attrKey.map AttrKeyRow.kid).Nodup := by
    rw [List.nodup_iff_pairwise_ne, List.pairwise_map]
    exact h.sorted.imp Nat.ne_of_lt
  rw [Db.keyName, find?_eq_some_of_nodup hn hk, Option.map_some]

end Db

/-! ## attribute keys -/

/-- **A key id is handed out**: it has the name asked for. -/
theorem attrKeyPop_spec {db : Db} (h : db.KeysOk) (name : Text) :
    db.KeysGrow (attrKeyPop name db).2 ∧ (attrKeyPop name db).2.KeysOk ∧
      (attrKeyPop name db).2.keyName (attrKeyPop name db).1 = some name := by
  unfold attrKeyPop
  cases hf : db.attrKey.find? fun k => k.name = name with
  | some k =>
      have hname : k.name = name := by simpa using List.find?_some hf
      exact ⟨.refl db, h, hname ▸ h.keyName (List.mem_of_find?_eq_some hf)⟩
  | none =>
      have hnew : ∀ k ∈ db.attrKey, k.kid ≠ db.nextKid := fun k hk => Nat.ne_of_lt (h.below k hk)
      refine ⟨⟨rfl, rfl, rfl, fun kid n hn => ?_⟩, ⟨?_, fun k hk => ?_⟩, ?_⟩
      · rw [Db.keyName, List.find?_append]
        obtain ⟨k, hk, rfl⟩ := Option.map_eq_some_iff.mp hn
        rw [hk]
        rfl
      · refine List.pairwise_append.mpr ⟨h.sorted, List.pairwise_singleton .., fun a ha b hb => ?_⟩
        rw [List.mem_singleton.mp hb]
        exact h.below a ha
      · obtain hk | hk := List.mem_append.mp hk
        · exact Nat.lt_succ_of_lt (h.below k hk)
        · rw [List.mem_singleton.mp hk]
          exact Nat.lt_succ_self _
      · have hnone : db.attrKey.find? (fun k => k.kid = db.nextKid) = none := by
          rw [List.find?_eq_none]
          intro k hk
          simpa using hnew k hk
        simp [Db.keyName, hnone]

/-- A tag with the id of its key. -/
def TagOut (db : Db) (t : Oid × Text × Text) (y : Oid × Nat × Text) : Prop :=
  y.1 = t.1 ∧ db.keyName y.2.1 = some t.2.1 ∧ y.2.2 = t.2.2

/-- The tags of a batch get the ids of their keys. -/
theorem populateXattrKeys_spec (xattr : List (Oid × Attrs)) {db : Db} (h : db.KeysOk) :
    db.KeysGrow (populateXattrKeys xattr db).2 ∧ (populateXattrKeys xattr db).2.KeysOk ∧
      List.Forall₂ (TagOut (populateXattrKeys xattr db).2) (xattrTags xattr)
        (populateXattrKeys xattr db).1 := by
  refine collect_spec Db.KeysGrow.refl Db.KeysGrow.trans ?_ ?_ (xattrTags xattr) h
  · intro s t a b hg hb
    exact ⟨hb.1, hg.names _ _ hb.2.1, hb.2.2⟩
  · intro a s hs
    obtain ⟨hg, hk, hn⟩ := attrKeyPop_spec hs a.2.1
    exact ⟨hg, hk, rfl, hn, rfl⟩

/-- A row is stored for a tag. -/
def Stored (tr : Transport) (db : Db) (t : Oid × Text × Text) (v : AttrValRow) : Prop :=
  v.oid = t.1 ∧ db.keyName v.kid = some t.2.1 ∧ v.sval = tr.sval t.2.2

/-- The row of a tag stores its key and its value. -/
theorem stored_of_attrValRow {tr : Transport} {db : Db} {t : Oid × Text × Text}
    {y : Oid × Nat × Text} {v : AttrValRow} (hy : TagOut db t y) (hv : attrValRow tr y = some v) :
    Stored tr db t v := by
  obtain ⟨hoid, hname, hval⟩ := hy
  obtain ⟨sval, hs, rfl⟩ := Option.map_eq_some_iff.mp hv
  exact ⟨hoid, hname, by rw [← hval, hs]⟩

/-- The tags of one object in a batch. -/
theorem rowsAt_xattrTags {xattr : List (Oid × Attrs)} (hn : (xattr.map Prod.fst).Nodup) (o : Oid) :
    (∀ attrs, (o, attrs) ∈ xattr →
        rowsAt Prod.fst o (xattrTags xattr) = attrs.map fun a => (o, a)) ∧
      (o ∉ xattr.map Prod.fst → rowsAt Prod.fst o (xattrTags xattr) = []) := by
  have hgroup := rowsAt_flatMap (Prod.fst : Oid × Text × Text → Oid) (Prod.fst : Oid × Attrs → Oid)
    (f := fun x => x.2.map fun a => (x.1, a)) (fun x r hr => by
      obtain ⟨a, _, rfl⟩ := List.mem_map.mp hr
      rfl) o xattr
  rw [xattrTags, hgroup]
  refine ⟨fun attrs hx => ?_, fun ho => ?_⟩
  · rw [show rowsAt Prod.fst o xattr = [(o, attrs)] from rowsAt_of_nodup Prod.fst hn hx]
    simp
  · rw [(rowsAt_eq_nil Prod.fst).mpr ho]
    rfl

/-! ## what one batch does -/

section Batch
variable {tr : Transport} {files : ScanFiles} {db db' : Db} {o : Oid}

/-- A statement on `hpssix_file` that succeeds updates or inserts the rows that the
trigger completes. -/
theorem pathFini_eq {lines : List (Oid × Text)} (h : pathFini lines db = some db') :
    ∃ rows, (usedLines lines db.file).mapM fileRow = some rows ∧
      db' = { db with
        file := upsert FileRow.oid FileRow.oid
          (fun r s => { r with path := s.path, name := s.name }) (fun s => s) rows db.file } := by
  simp only [pathFini, Option.bind_eq_bind, Option.bind_eq_some_iff, Option.pure_def] at h
  obtain ⟨rows, hrows, h⟩ := h
  split at h
  · exact ⟨rows, hrows, (Option.some.inj h).symm⟩
  · contradiction

/-- A successful second stage changes `hpssix_file` only. -/
theorem processPath_frame {path : List (Oid × Text)} (h : processPath path db = some db') :
    ∃ file, db' = { db with file } := by
  obtain ⟨lines, -, h⟩ := Option.bind_eq_some_iff.mp h
  obtain ⟨rows, -, rfl⟩ := pathFini_eq h
  exact ⟨_, rfl⟩

/-- A successful third stage: the listed objects have the listed tags, the
others the rows they had. -/
theorem processXattrs_spec {xattr : List (Oid × Attrs)} (h : processXattrs tr xattr db = some db')
    (hk : db.KeysOk) (hn : (xattr.map Prod.fst).Nodup) :
    db'.object = db.object ∧ db'.file = db.file ∧ db'.KeysOk ∧
      (∀ kid name, db.keyName kid = some name → db'.keyName kid = some name) ∧
      (∀ x ∈ xattr, db'.tags x.1 = x.2.map fun a => (some a.1, tr.sval a.2)) ∧
      ∀ o, o ∉ xattr.map Prod.fst → attrRows o db'.attrVal = attrRows o db.attrVal := by
  obtain ⟨hg, hk', hout⟩ := populateXattrKeys_spec xattr
    (show (deleteXattrs xattr db).KeysOk from ⟨hk.sorted, hk.below⟩)
  simp only [processXattrs, copyAttrVal, Option.bind_eq_bind, Option.bind_eq_some_iff,
    Option.pure_def] at h
  generalize populateXattrKeys xattr (deleteXattrs xattr db) = p at hg hk' hout h
  obtain ⟨rows, hrows, h⟩ := h
  split at h
  · obtain rfl := Option.some.inj h
    have hstored : List.Forall₂ (Stored tr p.2) (xattrTags xattr) rows :=
      (forall₂_comp hout (forall₂_of_mapM hrows)).imp
        fun t v hv => hv.elim fun y hy => stored_of_attrValRow hy.1 hy.2
    have hrowsAt := forall₂_rowsAt Prod.fst AttrValRow.oid hstored fun t v hv => hv.1
    have hold : ∀ o, rowsAt AttrValRow.oid o p.2.attrVal =
        if o ∈ xattr.map Prod.fst then [] else attrRows o db.attrVal := fun o => by
      rw [hg.attrVal]
      exact rowsAt_delete AttrValRow.oid _ o db.attrVal
    refine ⟨hg.object, hg.file, ⟨hk'.sorted, hk'.below⟩, hg.names, fun x hx => ?_, fun o ho => ?_⟩
    · have hx' := hrowsAt x.1
      rw [(rowsAt_xattrTags hn x.1).1 x.2 hx] at hx'
      rw [Db.tags, attrRows, rowsAt_append, hold, if_pos (List.mem_map_of_mem hx), List.nil_append,
        ← List.forall₂_eq_eq_eq, List.forall₂_map_left_iff, List.forall₂_map_right_iff]
      refine ((List.forall₂_map_left_iff.mp hx').imp fun a v hv => ?_).flip
      show (p.2.keyName v.kid, v.sval) = (some a.1, tr.sval a.2)
      rw [hv.2.1, hv.2.2]
    · have ho' := hrowsAt o
      rw [(rowsAt_xattrTags hn o).2 ho] at ho'
      rw [attrRows, rowsAt_append, List.forall₂_nil_left_iff.mp ho', List.append_nil]
      exact (hold o).trans (if_neg ho)
  · contradiction

/-- A successful batch is its four stages. -/
theorem builderBatch_eq (h : builderBatch tr files db = some db') :
    ∃ d₁ d₂ d₃, processFattr files.fattr db = some d₁ ∧ processPath files.path d₁ = some d₂ ∧
      processXattrs tr files.xattr d₂ = some d₃ ∧ db' = processDeleted files.deleted d₃ := by
  simp only [builderBatch, Option.bind_eq_bind, Option.bind_eq_some_iff, Option.pure_def,
    Option.some.injEq] at h
  obtain ⟨d₁, h₁, d₂, h₂, d₃, h₃, h⟩ := h
  exact ⟨d₁, d₂, d₃, h₁, h₂, h₃, h.symm⟩

/-- Every object has at most one line in each export. -/
structure ScanFiles.Distinct (files : ScanFiles) : Prop where
  fattr : (files.fattr.map FattrRecord.objid).Nodup
  path : (files.path.map Prod.fst).Nodup
  xattr : (files.xattr.map Prod.fst).Nodup

/-- What a batch does to the rows of an object, those in `hpssix_file` apart. -/
structure BatchEffect (tr : Transport) (files : ScanFiles) (db db' : Db) (o : Oid) : Prop where
  keys : db'.KeysOk
  hasObject : db'.HasObject o ↔ o ∈ files.fattr.map FattrRecord.objid ∨ db.HasObject o
  tags : ∀ attrs, (o, attrs) ∈ files.xattr →
    db'.tags o = attrs.map fun a => (some a.1, tr.sval a.2)
  noTags : o ∉ files.xattr.map Prod.fst → attrRows o db'.attrVal = attrRows o db.attrVal
  names : ∀ kid name, db.keyName kid = some name → db'.keyName kid = some name

/-- **One batch**, object by object. -/
theorem batchEffect (h : builderBatch tr files db = some db') (hd : files.Distinct)
    (hk : db.KeysOk) : BatchEffect tr files db db' o := by
  obtain ⟨d₁, d₂, d₃, h₁, h₂, h₃, rfl⟩ := builderBatch_eq h
  obtain ⟨cols, hcols, rfl⟩ := processFattr_eq h₁
  obtain ⟨file, rfl⟩ := processPath_frame h₂
  obtain ⟨hobj, -, hk₃, hnames, htags, hrest⟩ :=
    processXattrs_spec h₃ ⟨hk.sorted, hk.below⟩ hd.xattr
  have hoids := map_of_mapM hcols oid_of_fattrCols
  refine ⟨⟨hk₃.sorted, hk₃.below⟩, ?_, fun attrs ha => htags _ ha, hrest o, hnames⟩
  rw [Db.HasObject, processDeleted, map_key_map _ fun r => by split <;> rfl, hobj, ← hoids]
  refine mem_map_upsert ?_ ?_ _
  · exact fun _ _ => rfl
  · exact fun _ => rfl

/-- An object that is not in the xattr export keeps its tags. -/
theorem BatchEffect.tags_eq (he : BatchEffect tr files db db' o)
    (ho : o ∉ files.xattr.map Prod.fst) (hn : ∀ t ∈ db.tags o, t.1.isSome) :
    db'.tags o = db.tags o := by
  rw [Db.tags, he.noTags ho, Db.tags]
  refine List.map_congr_left fun v hv => ?_
  obtain ⟨name, hname⟩ := Option.isSome_iff_exists.mp
    (hn _ (List.mem_map_of_mem (f := fun v : AttrValRow => (db.keyName v.kid, v.sval)) hv))
  rw [he.names _ _ hname]
  exact congrArg (·, v.sval) hname.symm

end Batch

/-! ## the index over a run -/

namespace World

/-- The index that the recorded rounds have built, started from an empty one, if
every batch succeeded. -/
def index (tr : Transport) (w : World) : Option Db :=
  w.rounds.foldlM (fun db q => builderBatch tr q.files db) {}

section Run
variable {site : Site} {tr : Transport} {w : World} {e : Event} {r : RoundInput} {o : Oid}

/-- A recorded round adds its batch. -/
theorem index_record {time : Nat} {db' : Db} (h : (w.record site time r).index tr = some db') :
    ∃ db, w.index tr = some db ∧ builderBatch tr (w.scan site r) db = some db' := by
  simp only [index, record, List.foldlM_append, List.foldlM_cons, List.foldlM_nil, bind_pure] at h
  exact Option.bind_eq_some_iff.mp h

/-- A round does not change HPSS. -/
theorem hpss_step_round (hact : e.act = .round r) : (w.step site e).hpss = w.hpss := by
  simp only [step, hact, round]
  split
  · split <;> rfl
  · rfl

/-- Every event keeps the documents in order. -/
theorem attrsOk_step (hu : w.hpss.AttrsOk) : (w.step site e).hpss.AttrsOk := by
  cases hact : e.act with
  | op op => simpa only [step, hact] using attrsOk_hpssStep hu
  | tagSet x name val =>
      simp only [step, hact, tagCmdSet]
      exact (attrsOk_setxattr hu).congr (uxattrs_touchFileinfo ..)
  | tagDel x name => simpa only [step, hact, tagCmdDel] using attrsOk_removexattr hu
  | round r => rw [hpss_step_round hact]; exact hu

/-- A round lists every object at most once. -/
theorem distinct_scan (hw : w.hpss.Wf) (hu : w.hpss.AttrsOk) : (w.scan site r).Distinct where
  fattr := nodup_fattr hw
  path := nodup_path hw
  xattr := hu.objects.sublist (List.filter_sublist.map _)

/-- What the index is known to satisfy: its keys are in order and have names, and the
objects in it are or were objects of HPSS. -/
structure Indexed (w : World) (db : Db) : Prop where
  keys : db.KeysOk
  named : ∀ o, ∀ t ∈ db.tags o, t.1.isSome
  known : ∀ o, db.HasObject o → o ∈ w.hpss.oids ∨ o ∈ w.hpss.histOids

/-- The invariant of the scan and the index that it feeds. -/
structure IndexInv (tr : Transport) (w : World) : Prop where
  timed : Timed w
  attrs : w.hpss.AttrsOk
  index : ∀ db, w.index tr = some db → w.Indexed db

/-- The invariant holds at first. -/
theorem indexInv_init : IndexInv tr {} where
  timed := timed_init
  attrs := ⟨List.nodup_nil, fun u hu => absurd hu List.not_mem_nil⟩
  index := fun db hdb => by
    obtain rfl : ({} : Db) = db := Option.some.inj hdb
    exact ⟨⟨idSorted_nil _, by simp⟩, fun o t ht => absurd ht List.not_mem_nil,
      fun o ho => absurd ho List.not_mem_nil⟩

/-- A recorded round, as a batch on the index. -/
theorem IndexInv.batch (hi : IndexInv tr w) {time : Nat} {db' : Db}
    (h : (w.record site time r).index tr = some db') (o : Oid) :
    ∃ db, w.index tr = some db ∧ BatchEffect tr (w.scan site r) db db' o := by
  obtain ⟨db, hdb, hbatch⟩ := index_record h
  exact ⟨db, hdb, batchEffect hbatch (distinct_scan hi.timed.wf.hpss hi.attrs)
    (hi.index db hdb).keys⟩

/-- Every event keeps it. -/
theorem indexInv_step (hi : IndexInv tr w) (he : WellTimed w e) :
    IndexInv tr (w.step site e) := by
  refine ⟨timed_step hi.timed he, attrsOk_step hi.attrs, ?_⟩
  have hstep : Stepped site w e (w.step site e) := stepped hi.timed.wf
  generalize w.step site e = w' at hstep ⊢
  cases hstep with
  | hpss h op _ _ hedit =>
      intro db hdb
      obtain ⟨hk, hn, hknown⟩ := hi.index db hdb
      exact ⟨hk, hn, fun o ho => hedit.remembers (hknown o ho)⟩
  | idle r _ _ =>
      intro db hdb
      obtain ⟨hk, hn, hknown⟩ := hi.index db hdb
      exact ⟨hk, hn, hknown⟩
  | recorded r _ _ =>
      intro db' hdb'
      have hbatch := hi.batch hdb'
      obtain ⟨_, _, heff⟩ := hbatch 0
      refine ⟨heff.keys, fun o t ht => ?_, fun o ho => ?_⟩
      · obtain ⟨db, hdb, heff⟩ := hbatch o
        by_cases ho : o ∈ (w.scan site r).xattr.map Prod.fst
        · obtain ⟨⟨x, attrs⟩, hx, rfl⟩ := List.mem_map.mp ho
          rw [show db'.tags x = _ from heff.tags attrs hx] at ht
          obtain ⟨a, _, rfl⟩ := List.mem_map.mp ht
          rfl
        · rw [heff.tags_eq ho ((hi.index db hdb).named o)] at ht
          exact (hi.index db hdb).named o t ht
      · obtain ⟨db, hdb, heff⟩ := hbatch o
        obtain ho | ho := heff.hasObject.mp ho
        · exact .inl (mem_fattr.mp ho).1
        · exact (hi.index db hdb).known o ho

/-- An indexed object that an edit leaves live was live before: ids do not come
back. -/
theorem IndexInv.mem_oids (hi : IndexInv tr w) {now : Nat} {op : HpssOp} {h : Hpss}
    (he : TableEdit now op w.hpss h) {db : Db} (hdb : w.index tr = some db)
    (hobj : db.HasObject o) (ho : o ∈ h.oids) : o ∈ w.hpss.oids := by
  obtain hold | hnew := he.appears ho
  · exact hold
  · exact ((hi.index db hdb).known o hobj).resolve_right hnew

end Run

end World

/-! ## a run watched for one object -/

namespace World

/-- The round lists the object. -/
def Exports (site : Site) (o : Oid) (w : World) (e : Event) : Prop :=
  match e.act with
  | .round r => o ∈ (w.scan site r).fattr.map FattrRecord.objid
  | _ => False

/-- The object is created, or `utime` is called on it. -/
def Touches (o : Oid) (w : World) (e : Event) : Prop :=
  match e.act with
  | .op (.create r _) => r.objid = o ∧ w.hpss.CanCreate r
  | .op (.utime x _) => x = o ∧ o ∈ w.hpss.oids
  | .tagSet x _ _ => x = o ∧ o ∈ w.hpss.oids
  | _ => False

/-- A tag that the object has is removed. -/
def Untags (site : Site) (o : Oid) (w : World) (e : Event) : Prop :=
  match e.act with
  | .tagDel x name => x = o ∧ tagXname site.tagPrefix name ∈ (w.hpss.attrs o).map Prod.fst
  | _ => False

/-- A directory above the object is moved. -/
def Moves (o : Oid) (w : World) (e : Event) : Prop :=
  match e.act with
  | .op op => MovesAbove w.hpss o op
  | _ => False

section Decide
variable (site : Site) (o : Oid) (w : World) (e : Event)

instance : Decidable (Exports site o w e) :=
  match e with
  | ⟨_, .round _⟩ => inferInstanceAs (Decidable (_ ∈ _))
  | ⟨_, .op _⟩ | ⟨_, .tagSet ..⟩ | ⟨_, .tagDel ..⟩ => inferInstanceAs (Decidable False)

instance : Decidable (Touches o w e) :=
  match e with
  | ⟨_, .op (.create ..)⟩ => inferInstanceAs (Decidable (_ ∧ _))
  | ⟨_, .op (.utime ..)⟩ => inferInstanceAs (Decidable (_ ∧ _))
  | ⟨_, .tagSet ..⟩ => inferInstanceAs (Decidable (_ ∧ _))
  | ⟨_, .op (.delete ..)⟩ | ⟨_, .op (.rename ..)⟩ | ⟨_, .op (.chattr ..)⟩ | ⟨_, .tagDel ..⟩
  | ⟨_, .round _⟩ => inferInstanceAs (Decidable False)

instance : Decidable (Untags site o w e) :=
  match e with
  | ⟨_, .tagDel ..⟩ => inferInstanceAs (Decidable (_ ∧ _))
  | ⟨_, .op _⟩ | ⟨_, .tagSet ..⟩ | ⟨_, .round _⟩ => inferInstanceAs (Decidable False)

instance : Decidable (Moves o w e) :=
  match e with
  | ⟨_, .op op⟩ => inferInstanceAs (Decidable (MovesAbove w.hpss o op))
  | ⟨_, .tagSet ..⟩ | ⟨_, .tagDel ..⟩ | ⟨_, .round _⟩ => inferInstanceAs (Decidable False)

end Decide

end World

/-- A run with what an observer of one object notes: whether it was touched since
the last round, and whether it lost a tag or a directory above it was moved
since it was last exported. -/
structure Watch where
  world : World := {}
  touched : Bool := false
  untagged : Bool := false
  moved : Bool := false

/-- One event. -/
def Watch.step (site : Site) (o : Oid) (s : Watch) (e : Event) : Watch where
  world := s.world.step site e
  touched := match e.act with
    | .round _ => false
    | _ => s.touched || decide (s.world.Touches o e)
  untagged := !decide (s.world.Exports site o e) &&
    (s.untagged || decide (s.world.Untags site o e))
  moved := !decide (s.world.Exports site o e) && (s.moved || decide (s.world.Moves o e))

end Hpssix
