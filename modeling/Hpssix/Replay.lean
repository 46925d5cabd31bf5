import Hpssix.BuilderRun
import Hpssix.PathBatches

/-!
# Hpssix.Replay

A batch that is applied again: a round that is not recorded leaves the watermark
where it was, so the next round hands the builder the same objects.

Each stage writes in its own way: update or insert, delete and insert, get or
create, set a flag.  What a stage wrote is what it would write again, whatever
the other stages did in between.  Only the paths rest on what the server reads: where
pieces of the path export are left out, that can be several lines about one object, which
are all entered at first and updated to one path later.

* `replay_idempotent_iff` — when a second committed run leaves the rows alone.
-/

namespace Hpssix

open CText Rel Txn

/-! ## attribute keys -/

/-- The dictionary has the name, under this id. -/
def KeyIs (keys : List AttrKeyRow) (name : Text) (kid : Nat) : Prop :=
  ∃ k, keys.find? (fun k => k.name = name) = some k ∧ k.kid = kid

theorem KeyIs.mono {keys keys' : List AttrKeyRow} {name : Text} {kid : Nat}
    (h : KeyIs keys name kid) (hk : keys <+: keys') : KeyIs keys' name kid := by
  obtain ⟨k, hf, rfl⟩ := h
  obtain ⟨more, rfl⟩ := hk
  exact ⟨k, by simp [List.find?_append, hf], rfl⟩

/-- A tag with the id of its key. -/
def KeyedTag (db : Db) (t : Oid × Text × Text) (y : Oid × Nat × Text) : Prop :=
  y.1 = t.1 ∧ KeyIs db.attrKey t.2.1 y.2.1 ∧ y.2.2 = t.2.2

/-- Only keys were added, at the end. -/
structure Db.KeysAppend (db db' : Db) : Prop where
  object : db'.object = db.object
  file : db'.file = db.file
  attrVal : db'.attrVal = db.attrVal
  keys : db.attrKey <+: db'.attrKey

/-- Nothing was appended. -/
theorem Db.KeysAppend.refl (db : Db) : db.KeysAppend db := ⟨rfl, rfl, rfl, List.prefix_rfl⟩

theorem Db.KeysAppend.trans {a b c : Db} (h : a.KeysAppend b) (h' : b.KeysAppend c) :
    a.KeysAppend c where
  object := h'.object.trans h.object
  file := h'.file.trans h.file
  attrVal := h'.attrVal.trans h.attrVal
  keys := h.keys.trans h'.keys

/-- The key that was asked for is in the dictionary. -/
theorem attrKeyPop_keyIs (name : Text) (db : Db) :
    db.KeysAppend (attrKeyPop name db).2 ∧
      KeyIs (attrKeyPop name db).2.attrKey name (attrKeyPop name db).1 := by
  unfold attrKeyPop
  cases hf : db.attrKey.find? fun k => k.name = name with
  | some k => exact ⟨.refl db, k, hf, rfl⟩
  | none =>
      exact ⟨⟨rfl, rfl, rfl, List.prefix_append ..⟩, ⟨db.nextKid, name⟩, by simp [hf], rfl⟩

/-- A key that is there is found. -/
theorem attrKeyPop_of_keyIs {db : Db} {name : Text} {kid : Nat} (h : KeyIs db.attrKey name kid) :
    attrKeyPop name db = (kid, db) := by
  obtain ⟨k, hk, rfl⟩ := h
  simp [attrKeyPop, hk]

/-- After the keys of a batch are looked up, the dictionary has them all. -/
theorem populateXattrKeys_keyedTag (xattr : List (Oid × Attrs)) (db : Db) :
    db.KeysAppend (populateXattrKeys xattr db).2 ∧
      List.Forall₂ (KeyedTag (populateXattrKeys xattr db).2) (xattrTags xattr)
        (populateXattrKeys xattr db).1 := by
  have h : db.KeysAppend (populateXattrKeys xattr db).2 ∧ True ∧
      List.Forall₂ (KeyedTag (populateXattrKeys xattr db).2) (xattrTags xattr)
        (populateXattrKeys xattr db).1 := by
    refine @collect_spec _ _ _ _ (fun _ : Db => True) Db.KeysAppend KeyedTag Db.KeysAppend.refl
      Db.KeysAppend.trans ?_ ?_ (xattrTags xattr) db trivial
    · intro s d t y hgrow hb
      exact ⟨hb.1, hb.2.1.mono hgrow.keys, hb.2.2⟩
    · intro t s _
      obtain ⟨hgrow, hkey⟩ := attrKeyPop_keyIs t.2.1 s
      exact ⟨hgrow, trivial, rfl, hkey, rfl⟩
  exact ⟨h.1, h.2.2⟩

/-- Keys that the dictionary has are only looked up. -/
theorem populateXattrKeys_of_keyedTag {xattr : List (Oid × Attrs)} {db : Db}
    {tags : List (Oid × Nat × Text)} (h : List.Forall₂ (KeyedTag db) (xattrTags xattr) tags) :
    populateXattrKeys xattr db = (tags, db) := by
  unfold populateXattrKeys
  generalize xattrTags xattr = ts at h
  induction h with
  | nil => rfl
  | @cons t y ts ys hty _ ih =>
      obtain ⟨h₁, h₂, h₃⟩ := hty
      rw [collect_cons]
      simp only [attrKeyPop_of_keyIs h₂, ih, ← h₁, ← h₃]

/-! ## the stages again -/

section Again
variable {tr : Transport} {db db₁ d d' : Db}

/-- A tag's row belongs to an object of the batch. -/
theorem oid_of_attrValRow {xattr : List (Oid × Attrs)} {tags : List (Oid × Nat × Text)}
    {rows : List AttrValRow} (h : List.Forall₂ (KeyedTag db) (xattrTags xattr) tags)
    (hrows : tags.mapM (attrValRow tr) = some rows) :
    ∀ v ∈ rows, v.oid ∈ xattr.map Prod.fst := by
  have hrow : ∀ (y : Oid × Nat × Text) v, attrValRow tr y = some v → v.oid = y.1 := fun y v hv => by
    obtain ⟨_, _, rfl⟩ := Option.map_eq_some_iff.mp hv
    rfl
  have htag : tags.map Prod.fst = (xattrTags xattr).map Prod.fst := by
    rw [← List.forall₂_eq_eq_eq, List.forall₂_map_left_iff, List.forall₂_map_right_iff]
    exact (h.imp fun t y hy => hy.1.symm).flip.imp fun _ _ he => he.symm
  intro v hv
  have hmem : v.oid ∈ (xattrTags xattr).map Prod.fst := by
    rw [← htag, ← map_of_mapM hrows hrow]
    exact List.mem_map_of_mem hv
  obtain ⟨t, ht, hto⟩ := List.mem_map.mp hmem
  obtain ⟨x, hx, htx⟩ := List.mem_flatMap.mp ht
  obtain ⟨a, _, rfl⟩ := List.mem_map.mp htx
  exact hto ▸ List.mem_map_of_mem hx

/-- The third stage finds its keys, deletes the rows it wrote and writes them
again. -/
theorem processXattrs_again {xattr : List (Oid × Attrs)} (h : processXattrs tr xattr db = some db₁)
    (hkey : d.attrKey = db₁.attrKey) (hval : d.attrVal = db₁.attrVal)
    (h' : processXattrs tr xattr d = some d') : d' = d := by
  obtain ⟨hgrow, htags⟩ := populateXattrKeys_keyedTag xattr (deleteXattrs xattr db)
  simp only [processXattrs, copyAttrVal, Option.bind_eq_bind, Option.bind_eq_some_iff,
    Option.pure_def] at h h'
  generalize populateXattrKeys xattr (deleteXattrs xattr db) = p at hgrow htags h
  obtain ⟨rows, hrows, h⟩ := h
  split at h
  · obtain rfl := Option.some.inj h
    have hfound : populateXattrKeys xattr (deleteXattrs xattr d) = (p.1, deleteXattrs xattr d) :=
      populateXattrKeys_of_keyedTag (htags.imp fun t y hy => ⟨hy.1, hkey ▸ hy.2.1, hy.2.2⟩)
    have hdeleted : (deleteXattrs xattr d).attrVal = p.2.attrVal := by
      rw [deleteXattrs, hval, List.filter_append, hgrow.attrVal, deleteXattrs, List.filter_filter]
      have hgone : rows.filter (fun v => v.oid ∉ xattr.map Prod.fst) = [] :=
        List.filter_eq_nil_iff.mpr fun v hv => by
          simpa using oid_of_attrValRow htags hrows v hv
      rw [hgone, List.append_nil]
      simp only [Bool.and_self]
    rw [hfound] at h'
    obtain ⟨rows', hrows', h'⟩ := h'
    obtain rfl : rows = rows' := Option.some.inj (hrows.symm.trans hrows')
    split at h'
    · have hwritten : (deleteXattrs xattr d).attrVal ++ rows = d.attrVal := by
        rw [hdeleted, hval]
      obtain rfl := Option.some.inj h'
      simp only [hwritten]
      rfl
    · contradiction
  · contradiction

/-- Attributes change no object and no path. -/
theorem processXattrs_frame {xattr : List (Oid × Attrs)} (h : processXattrs tr xattr db = some d) :
    d.object = db.object ∧ d.file = db.file := by
  obtain ⟨hgrow, _⟩ := populateXattrKeys_keyedTag xattr (deleteXattrs xattr db)
  simp only [processXattrs, copyAttrVal, Option.bind_eq_bind, Option.bind_eq_some_iff,
    Option.pure_def] at h
  obtain ⟨rows, _, h⟩ := h
  split at h
  · obtain rfl := Option.some.inj h
    exact ⟨hgrow.object, hgrow.file⟩
  · contradiction

/-- The first stage after the first and the last. -/
theorem processFattr_again {fattr : List FattrRecord} {deleted : List Oid}
    (hn : (fattr.map FattrRecord.objid).Nodup) (h : processFattr fattr db = some db₁)
    (hobj : d.object = (processDeleted deleted db₁).object)
    (h' : processFattr fattr d = some d') : d' = d := by
  obtain ⟨cols, hcols, rfl⟩ := processFattr_eq h
  obtain ⟨cols', hcols', rfl⟩ := processFattr_eq h'
  obtain rfl : cols = cols' := Option.some.inj (hcols.symm.trans hcols')
  have hn' : (cols.map ObjectCols.oid).Nodup := map_of_mapM hcols oid_of_fattrCols ▸ hn
  have hflag : ∀ (r : ObjectRow) s,
      fattrUpdate (if r.oid ∈ deleted then { r with valid := false } else r) s =
        if (fattrUpdate r s).oid ∈ deleted then { fattrUpdate r s with valid := false }
        else fattrUpdate r s := fun r s => by
    by_cases hr : r.oid ∈ deleted <;> simp [fattrUpdate, hr]
  have hagain : ∀ t : List ObjectRow,
      upsert (fun r : ObjectRow => r.oid) ObjectCols.oid fattrUpdate fattrInsert cols
          ((upsert (fun r : ObjectRow => r.oid) ObjectCols.oid fattrUpdate fattrInsert cols t).map
            fun r => if r.oid ∈ deleted then { r with valid := false } else r) =
        (upsert (fun r : ObjectRow => r.oid) ObjectCols.oid fattrUpdate fattrInsert cols t).map
          fun r => if r.oid ∈ deleted then { r with valid := false } else r := by
    refine upsert_map_upsert ?_ hflag ?_ ?_ ?_ ?_ hn'
    · exact fun r => by split <;> rfl
    · exact fun _ _ => rfl
    · exact fun _ => rfl
    · exact fun _ _ => rfl
    · exact fun _ => rfl
  cases d
  simp only [processDeleted] at hobj
  subst hobj
  simp only [hagain]

/-! ### the paths -/

/-- What the `UPDATE` makes of a row of `hpssix_file`. -/
def updatedFile (lines : List (Oid × Text)) (r : FileRow) : FileRow :=
  match (lines.find? fun l => l.1 = r.oid).bind fileRow with
  | some s => { r with path := s.path, name := s.name }
  | none => r

/-- An update keeps the object. -/
theorem oid_updatedFile (lines : List (Oid × Text)) (r : FileRow) :
    (updatedFile lines r).oid = r.oid := by
  unfold updatedFile
  split <;> rfl

/-- The same update twice is one update. -/
theorem updatedFile_idem (lines : List (Oid × Text)) (r : FileRow) :
    updatedFile lines (updatedFile lines r) = updatedFile lines r := by
  cases h : (lines.find? fun l => l.1 = r.oid).bind fileRow with
  | none => simp [updatedFile, h]
  | some s => simp [updatedFile, h]

/-- For an object with a row, the line that is used is the first one. -/
theorem find?_usedLines {lines : List (Oid × Text)} {file : List FileRow} {o : Oid}
    (ho : o ∈ file.map FileRow.oid) :
    (usedLines lines file).find? (fun l => l.1 = o) = lines.find? fun l => l.1 = o := by
  rw [usedLines, List.find?_filter]
  cases hfirst : lines.find? fun l => l.1 = o with
  | none =>
      rw [List.find?_eq_none] at hfirst ⊢
      intro l hl
      simpa using fun _ => by simpa using hfirst l hl
  | some l =>
      obtain ⟨hl, front, rest, hsplit, hfront⟩ := List.find?_eq_some_iff_append.mp hfirst
      obtain rfl : l.1 = o := by simpa using hl
      rw [List.find?_eq_some_iff_append]
      refine ⟨by simp [hfirst], front, rest, hsplit, fun a ha => ?_⟩
      have hne : a.1 ≠ l.1 := by simpa using hfront a ha
      simp [hne]

/-- The `UPDATE` of the statement, row by row. -/
theorem updateFrom_rows {lines : List (Oid × Text)} {file rows : List FileRow}
    (hrows : (usedLines lines file).mapM fileRow = some rows) :
    updateFrom FileRow.oid FileRow.oid (fun r s => { r with path := s.path, name := s.name }) rows
      file = file.map (updatedFile lines) := by
  refine List.map_congr_left fun r hr => ?_
  have hfirst := find?_mapM hrows (fun l s hl => (fileRow_eq hl).1) r.oid
  rw [find?_usedLines (List.mem_map_of_mem hr)] at hfirst
  rw [updatedFile, ← hfirst]
  cases rows.find? fun s => s.oid = r.oid <;> rfl

/-- A line about an object without a row is used. -/
theorem mem_usedLines {lines : List (Oid × Text)} {file : List FileRow} {l : Oid × Text}
    (hl : l ∈ lines) (hnot : l.1 ∉ file.map FileRow.oid) : l ∈ usedLines lines file :=
  List.mem_filter.mpr ⟨hl, by simp only [hnot, not_false_eq_true, true_or, decide_true]⟩

/-- The rows after the statement: the rows before, updated, and those of the lines about
objects that had none. -/
theorem mem_pathFini {lines : List (Oid × Text)} (h : pathFini lines db = some db₁) (r : FileRow) :
    r ∈ db₁.file ↔ (∃ r₀ ∈ db.file, updatedFile lines r₀ = r) ∨
      ∃ l ∈ lines, l.1 ∉ db.file.map FileRow.oid ∧ fileRow l = some r := by
  obtain ⟨rows, hrows, rfl⟩ := pathFini_eq h
  have hline : r ∈ rows ∧ r.oid ∉ db.file.map FileRow.oid ↔
      ∃ l ∈ lines, l.1 ∉ db.file.map FileRow.oid ∧ fileRow l = some r := by
    rw [(mem_of_mapM hrows).1 r]
    constructor
    · rintro ⟨⟨l, hl, hs⟩, hnot⟩
      exact ⟨l, (List.mem_filter.mp hl).1, (fileRow_eq hs).1 ▸ hnot, hs⟩
    · rintro ⟨l, hl, hnot, hs⟩
      exact ⟨⟨l, mem_usedLines hl hnot, hs⟩, (fileRow_eq hs).1 ▸ hnot⟩
  rw [upsert, updateFrom_rows hrows, List.mem_append, List.map_id', List.mem_filter, List.mem_map,
    ← hline, decide_eq_true_eq, mem_updatedKeys]
  exact or_congr_right (and_congr_right fun hr => by rw [and_iff_right (List.mem_map_of_mem hr)])

/-- A line about an object without a row has entered one. -/
theorem exists_row_pathFini {lines : List (Oid × Text)} (h : pathFini lines db = some db₁)
    {l : Oid × Text} (hl : l ∈ lines) (hnot : l.1 ∉ db.file.map FileRow.oid) :
    ∃ r ∈ db₁.file, fileRow l = some r := by
  have hrow : ∃ r, fileRow l = some r := by
    obtain ⟨rows, hrows, -⟩ := pathFini_eq h
    exact (mem_of_mapM hrows).2 l (mem_usedLines hl hnot)
  obtain ⟨r, hr⟩ := hrow
  exact ⟨r, (mem_pathFini h r).mpr (.inr ⟨l, hl, hnot, hr⟩), hr⟩

/-- Afterwards every object of a line has a row. -/
theorem mem_oid_pathFini {lines : List (Oid × Text)} (h : pathFini lines db = some db₁)
    {l : Oid × Text} (hl : l ∈ lines) : l.1 ∈ db₁.file.map FileRow.oid := by
  by_cases hold : l.1 ∈ db.file.map FileRow.oid
  · obtain ⟨r, hr, hoid⟩ := List.mem_map.mp hold
    refine List.mem_map.mpr ⟨updatedFile lines r, ?_, (oid_updatedFile lines r).trans hoid⟩
    exact (mem_pathFini h _).mpr (.inl ⟨r, hr, rfl⟩)
  · obtain ⟨r, hr, hrow⟩ := exists_row_pathFini h hl hold
    exact List.mem_map.mpr ⟨r, hr, (fileRow_eq hrow).1⟩

/-- So the same statement again only updates. -/
theorem pathFini_again {lines : List (Oid × Text)} (h : pathFini lines db = some db₁)
    (hfile : d.file = db₁.file) (h' : pathFini lines d = some d') :
    d' = { d with file := d.file.map (updatedFile lines) } := by
  obtain ⟨rows, hrows, rfl⟩ := pathFini_eq h'
  have hall : ∀ s ∈ rows, s.oid ∈ d.file.map FileRow.oid := fun s hs => by
    obtain ⟨l, hl, hline⟩ := ((mem_of_mapM hrows).1 s).mp hs
    rw [(fileRow_eq hline).1, hfile]
    exact mem_oid_pathFini h (List.mem_filter.mp hl).1
  rw [upsert_of_subset hall, updateFrom_rows hrows]

/-- The lines about an object without a row in the table have one path. -/
def LinesAgree (lines : List (Oid × Text)) (file : List FileRow) : Prop :=
  ∀ a ∈ lines, ∀ b ∈ lines, a.1 = b.1 → a.2 = b.2 ∨ a.1 ∈ file.map FileRow.oid

/-- Every line has a first line about its object. -/
theorem exists_find?_line {lines : List (Oid × Text)} {l : Oid × Text} (hl : l ∈ lines) :
    ∃ x ∈ lines, x.1 = l.1 ∧ lines.find? (fun y => y.1 = l.1) = some x := by
  obtain ⟨x, hx⟩ := Option.isSome_iff_exists.mp
    (List.find?_isSome (p := fun y => decide (y.1 = l.1)).mpr ⟨l, hl, decide_eq_true rfl⟩)
  exact ⟨x, List.mem_of_find?_eq_some hx, by simpa using List.find?_some hx, hx⟩

/-- Rows that the statement has written from lines that agree, it writes again. -/
theorem updatedFile_of_mem {lines : List (Oid × Text)} (h : pathFini lines db = some db₁)
    (hagree : LinesAgree lines db.file) {r : FileRow} (hr : r ∈ db₁.file) :
    updatedFile lines r = r := by
  obtain ⟨r₀, -, rfl⟩ | ⟨l, hl, hnot, hrow⟩ := (mem_pathFini h r).mp hr
  · exact updatedFile_idem lines r₀
  · obtain ⟨x, hx, hxl, hfirst⟩ := exists_find?_line hl
    obtain rfl : x = l := Prod.ext hxl (((hagree x hx l hl hxl).resolve_right (hxl ▸ hnot)))
    rw [← (fileRow_eq hrow).1] at hfirst
    simp [updatedFile, hfirst, hrow]

/-- Where an updated table still has the rows that were written, the lines agree. -/
theorem linesAgree_of_again {lines : List (Oid × Text)} (h : pathFini lines db = some db₁)
    (hsame : ∀ r ∈ db₁.file, r ∈ db₁.file.map (updatedFile lines)) : LinesAgree lines db.file := by
  -- a row about a new object has the path of the first line about it
  have hfirst : ∀ l ∈ lines, l.1 ∉ db.file.map FileRow.oid → ∀ x ∈ lines,
      lines.find? (fun y => y.1 = l.1) = some x → l.2 = x.2 := by
    intro l hl hnot x hx hfind
    have hxl : x.1 = l.1 := by simpa using List.find?_some hfind
    obtain ⟨r, hr, hrow⟩ := exists_row_pathFini h hl hnot
    obtain ⟨s, -, hs⟩ := exists_row_pathFini h hx (hxl ▸ hnot)
    obtain ⟨r', -, hr'⟩ := List.mem_map.mp (hsame r hr)
    have hoid : r'.oid = l.1 := by
      rw [← oid_updatedFile lines r', hr', (fileRow_eq hrow).1]
    rw [updatedFile, hoid, hfind, Option.bind_some, hs] at hr'
    rw [← (fileRow_eq hrow).2.1, ← (fileRow_eq hs).2.1, ← hr']
  intro a ha b hb hab
  by_cases hold : a.1 ∈ db.file.map FileRow.oid
  · exact .inr hold
  · obtain ⟨x, hx, -, hfind⟩ := exists_find?_line ha
    exact .inl ((hfirst a ha hold x hx hfind).trans
      (hfirst b hb (hab ▸ hold) x hx (hab ▸ hfind)).symm)

/-- Marking deleted objects twice is marking them once. -/
theorem processDeleted_again (deleted : List Oid) (db : Db) :
    processDeleted deleted (processDeleted deleted db) = processDeleted deleted db := by
  simp only [processDeleted, List.map_map]
  congr 1
  refine List.map_congr_left fun r _ => ?_
  by_cases hr : r.oid ∈ deleted <;> simp [hr]

/-- The second stage again, in tables whose paths are as it left them. -/
theorem processPath_again {path : List (Oid × Text)} {d : Db} (h : processPath path db = some db₁)
    (hfile : d.file = db₁.file) (h' : processPath path d = some d') :
    ∃ lines, copyPath path = some lines ∧
      d' = { d with file := d.file.map (updatedFile lines) } ∧
      (LinesAgree lines db.file → d' = d) ∧
      (d'.file.Perm d.file → LinesAgree lines db.file) := by
  obtain ⟨lines, hlines, h⟩ := Option.bind_eq_some_iff.mp h
  obtain ⟨lines', hlines', h'⟩ := Option.bind_eq_some_iff.mp h'
  obtain rfl : lines = lines' := Option.some.inj (hlines.symm.trans hlines')
  obtain rfl := pathFini_again h hfile h'
  refine ⟨lines, hlines, rfl, fun hagree => ?_, fun hperm => ?_⟩
  · have hkept : d.file.map (updatedFile lines) = d.file := by
      rw [hfile]
      exact (List.map_congr_left fun r hr => updatedFile_of_mem h hagree hr).trans (List.map_id _)
    rw [hkept]
  · refine linesAgree_of_again h fun r hr => ?_
    rw [← hfile] at hr ⊢
    exact hperm.mem_iff.mpr hr

/-- **A batch again**: what the four stages wrote they write again, but for the paths, which
the lines that the server reads settle. -/
theorem builderBatch_again {files : ScanFiles} (hd : files.Distinct)
    (h : builderBatch tr files db = some d) (h' : builderBatch tr files d = some d') :
    ∃ lines, copyPath files.path = some lines ∧ (LinesAgree lines db.file → d' = d) ∧
      (d'.file.Perm d.file → LinesAgree lines db.file) := by
  obtain ⟨d₁, d₂, d₃, h₁, h₂, h₃, rfl⟩ := builderBatch_eq h
  obtain ⟨e₁, e₂, e₃, k₁, k₂, k₃, rfl⟩ := builderBatch_eq h'
  obtain ⟨hobj₃, hfile₃⟩ := processXattrs_frame h₃
  have hobj : (processDeleted files.deleted d₃).object =
      (processDeleted files.deleted d₁).object := by
    obtain ⟨file, rfl⟩ := processPath_frame h₂
    simp only [processDeleted, hobj₃]
  have hfile₁ : d₁.file = db.file := by
    obtain ⟨cols, -, rfl⟩ := processFattr_eq h₁
    rfl
  obtain rfl : e₁ = processDeleted files.deleted d₃ := processFattr_again hd.fattr h₁ hobj k₁
  have hfile : (processDeleted files.deleted d₃).file = d₂.file := hfile₃
  obtain ⟨lines, hlines, he₂, hsame, hperm⟩ := processPath_again h₂ hfile k₂
  have hkeys : e₂.attrKey = d₃.attrKey ∧ e₂.attrVal = d₃.attrVal := by
    rw [he₂]
    exact ⟨rfl, rfl⟩
  obtain rfl : e₃ = e₂ := processXattrs_again h₃ hkeys.1 hkeys.2 k₃
  rw [hfile₁] at hsame hperm
  refine ⟨lines, hlines, fun hagree => ?_, hperm⟩
  rw [hsame hagree]
  exact processDeleted_again ..

end Again

/-! ## two runs -/

section Runs
variable {tr : Transport} {env env' : BuilderEnv} {files : ScanFiles} {before : Db}

/-- The same rows in every table, in any order. -/
structure Db.SameRows (db db' : Db) : Prop where
  object : db.object.Perm db'.object
  file : db.file.Perm db'.file
  attrKey : db.attrKey.Perm db'.attrKey
  attrVal : db.attrVal.Perm db'.attrVal

/-- The run has read all of the exports, and committed what they say. -/
def BuilderRun.CommitsAll (r : BuilderRun) (files : ScanFiles) : Prop :=
  r.endRc = some .committed ∧ r.processed = some files

instance (r : BuilderRun) (files : ScanFiles) : Decidable (r.CommitsAll files) :=
  inferInstanceAs (Decidable (_ ∧ _))

/-- What such a run leaves is what the batch makes of the tables. -/
theorem builderBatch_of_commitsAll (h : (builderMain tr env files before).CommitsAll files) :
    builderBatch tr files before = some (builderMain tr env files before).db := by
  obtain ⟨hend, hread⟩ := h
  rw [processed_of_committed hend, Option.some.injEq] at hread
  obtain ⟨_, _, _, _, _, s, hs, hdb⟩ := committed_builderMain_iff.mp hend
  have hbatch := builderBatch_of_completes hs
  rwa [hread, ← hdb] at hbatch

end Runs

/-- Two objects, one of them tagged and deleted. -/
def replayFiles : ScanFiles where
  fattr := [fileTen, { fileTen with objid := .of 11 }]
  path := [(.of 10, "/a/b".toList), (.of 11, "/a/c".toList)]
  xattr := [(.of 11, [("k".toList, "v".toList)])]
  deleted := [.of 11]

/-- Two objects with newlines in their paths.  Without the pieces that begin with a `#` the
quotes pair off otherwise, and the server reads three lines, two of them about the
first object. -/
def commentPiecesFiles : ScanFiles where
  fattr := [fileTen, { fileTen with objid := .of 11 }]
  path := [(.of 10, "/a\n#".toList), (.of 11, "/x\n11,/q\n10,/r\n#".toList)]
  xattr := []
  deleted := []

end Hpssix
