import Hpssix.CountSearch
import Hpssix.TagFreshness

/-!
# Hpssix.TagResult

What the conditions of `hpssix-search` on tags select, against the attributes in HPSS.

A condition is about a key, which the query looks up, and a value, which the trigger has cast
to a number where it is one.  All conditions are asked of one attribute.

* `tagRowsOk_builderBatch` — every batch leaves each key with one name, each object with one
  row for a key, and each row with the number of its value;
* `mem_select_sent_iff` — the conditions select an object whose rows are current exactly if
  one of its attributes meets them all.
-/

namespace Hpssix

open CText Rel Sql

/-! ## the conditions -/

/-- A value meets a condition: as a number, with the operands as `%lf` prints them, or as a
text. -/
def TagCond.MeetsValue (tr : Transport) (cond : TagCond) (val : Text) : Prop :=
  match cond.op with
  | some (.cmp c) => ∃ x ∈ tr.rval val, c.holds Float8.lt x (.num (Decimal.rounded cond.val1)) = true
  | some .between => ∃ x ∈ tr.rval val,
      Cmp.ge.holds Float8.lt x (.num (Decimal.rounded cond.val1)) = true ∧
        Cmp.le.holds Float8.lt x (.num (Decimal.rounded cond.val2)) = true
  | none => cond.tagVal <:+: val

/-- One of the attributes has the name and the value that all options ask for. -/
def MeetsTags (tr : Transport) (tags : List TagArg) (attrs : Attrs) : Prop :=
  tags = [] ∨ ∃ a ∈ attrs, ∀ t ∈ tags, a.1 = t.cond.tagName ∧ t.cond.MeetsValue tr a.2

/-- The texts between the percents of a pattern are plain. -/
def PlainValues (tags : List TagArg) : Prop := ∀ t ∈ tags, t.op = none → Unwild t.val

/-! ## the rows of the tags -/

/-- The tables of the tags. -/
structure TagRowsOk (tr : Transport) (db : Db) : Prop where
  names : (db.attrKey.map AttrKeyRow.name).Nodup
  rows : (db.attrVal.map fun v => (v.oid, v.kid)).Nodup
  values : ∀ v ∈ db.attrVal, ∃ s, v.sval = some s ∧ v.rval = tr.rval s

theorem TagRowsOk.unique {tr : Transport} {db : Db} (h : TagRowsOk tr db) (hk : db.KeysOk)
    (ho : (db.object.map (·.oid)).Nodup) : db.Unique where
  object := ho
  kid := by
    rw [List.nodup_iff_pairwise_ne, List.pairwise_map]
    exact hk.sorted.imp Nat.ne_of_lt
  name := h.names
  attrVal := h.rows

section Batch
variable {tr : Transport} {db db' : Db}

/-- A key is entered only if it is new. -/
theorem nodup_attrKeyPop (name : Text) (h : (db.attrKey.map AttrKeyRow.name).Nodup) :
    ((attrKeyPop name db).2.attrKey.map AttrKeyRow.name).Nodup := by
  unfold attrKeyPop
  cases hf : db.attrKey.find? fun k => k.name = name with
  | some k => exact h
  | none =>
      have hnew : name ∉ db.attrKey.map AttrKeyRow.name := by
        intro hmem
        obtain ⟨k, hk, hname⟩ := List.mem_map.mp hmem
        simpa [hname] using List.find?_eq_none.mp hf k hk
      show ((db.attrKey ++ [(⟨db.nextKid, name⟩ : AttrKeyRow)]).map AttrKeyRow.name).Nodup
      rw [List.map_append, List.nodup_append]
      refine ⟨h, List.nodup_singleton _, fun a ha b hb hab => hnew ?_⟩
      obtain rfl : b = name := List.mem_singleton.mp hb
      exact hab ▸ ha

theorem nodup_populateXattrKeys (xattr : List (Oid × Attrs))
    (h : (db.attrKey.map AttrKeyRow.name).Nodup) :
    ((populateXattrKeys xattr db).2.attrKey.map AttrKeyRow.name).Nodup :=
  @collect_invariant _ _ _ _ (fun db : Db => (db.attrKey.map AttrKeyRow.name).Nodup)
    (fun a _ hs => nodup_attrKeyPop a.2.1 hs) (xattrTags xattr) db h

theorem tagRowsOk_processXattrs {xattr : List (Oid × Attrs)}
    (h : processXattrs tr xattr db = some db') (hk : db.KeysOk) (hr : TagRowsOk tr db) :
    TagRowsOk tr db' := by
  have hnames : ((populateXattrKeys xattr (deleteXattrs xattr db)).2.attrKey.map
      AttrKeyRow.name).Nodup := nodup_populateXattrKeys xattr hr.names
  obtain ⟨hg, -, -⟩ := populateXattrKeys_spec xattr
    (show (deleteXattrs xattr db).KeysOk from ⟨hk.sorted, hk.below⟩)
  simp only [processXattrs, copyAttrVal, Option.bind_eq_bind, Option.bind_eq_some_iff,
    Option.pure_def] at h
  generalize populateXattrKeys xattr (deleteXattrs xattr db) = p at hg hnames h
  obtain ⟨rows, hrows, h⟩ := h
  split at h
  · next hok =>
      obtain rfl := Option.some.inj h
      refine ⟨hnames, hok.1, fun v hv => ?_⟩
      obtain hv | hv := List.mem_append.mp hv
      · rw [hg.attrVal] at hv
        exact hr.values v (List.mem_filter.mp hv).1
      · obtain ⟨tag, -, htag⟩ := ((mem_of_mapM hrows).1 v).mp hv
        obtain ⟨s, -, rfl⟩ := Option.map_eq_some_iff.mp htag
        exact ⟨s, rfl, rfl⟩
  · contradiction

/-- **A batch** keeps the tables of the tags in order. -/
theorem tagRowsOk_builderBatch {files : ScanFiles} (h : builderBatch tr files db = some db')
    (hk : db.KeysOk) (hr : TagRowsOk tr db) : TagRowsOk tr db' := by
  obtain ⟨d₁, d₂, d₃, h₁, h₂, h₃, rfl⟩ := builderBatch_eq h
  obtain ⟨cols, -, rfl⟩ := processFattr_eq h₁
  obtain ⟨file, rfl⟩ := processPath_frame h₂
  obtain ⟨hnames, hrows, hvalues⟩ :=
    tagRowsOk_processXattrs h₃ ⟨hk.sorted, hk.below⟩ ⟨hr.names, hr.rows, hr.values⟩
  exact ⟨hnames, hrows, hvalues⟩

end Batch

/-! ## what the conditions select -/

section Select
variable {tr : Transport} {db : Db} {tags : List TagArg}

/-- The condition on the value, as it is sent, of a row with the number of its value. -/
theorem sentPred_holds_iff {cond : TagCond} (hval : cond.op = none → Unwild cond.tagVal)
    {v : AttrValRow} {s : Text} (hs : v.sval = some s) (hr : v.rval = tr.rval s) :
    cond.sentPred.value.holds v = some true ↔ cond.MeetsValue tr s := by
  unfold TagCond.sentPred TagCond.MeetsValue
  match hop : cond.op with
  | some (.cmp c) => simp [ValuePred.holds, compare_eq_true, hr, NumLit.lf]
  | some .between =>
      simp only [ValuePred.holds, Truth.and_eq_true, compare_eq_true, hr, NumLit.lf]
      cases tr.rval s with
      | none => simp
      | some x => simp
  | none =>
      have hlike := like_contains 0 0 (s := s) (hval hop)
      simp only [ValuePred.holds, hs, Option.bind_some]
      exact hlike

/-- An object is selected if one of its rows meets all conditions. -/
theorem mem_select_sent (hu : db.Unique) (hr : TagRowsOk tr db) (hp : PlainValues tags) {o : Oid} :
    o ∈ db.select (tags.map fun t => t.cond.sentPred) ↔
      ∃ v ∈ attrRows o db.attrVal, ∃ s, v.sval = some s ∧
        ∀ t ∈ tags, db.Names t.cond v ∧ t.cond.MeetsValue tr s := by
  have hrow : ∀ v ∈ db.attrVal, ∀ s, v.sval = some s → v.rval = tr.rval s →
      (Truth.all ((tags.map fun t => t.cond.sentPred).map (KeyPred.holds db v)) = some true ↔
        ∀ t ∈ tags, db.Names t.cond v ∧ t.cond.MeetsValue tr s) := fun v _ s hs hrval => by
    simp only [Truth.all_eq_true, List.forall_mem_map, KeyPred.holds, Truth.and_eq_true]
    exact forall₂_congr fun t ht => and_congr (kid_eq_iff hu)
      (sentPred_holds_iff (fun hop => hp t ht hop) hs hrval)
  simp only [Db.select, List.mem_map, List.mem_filter, decide_eq_true_eq]
  constructor
  · rintro ⟨v, ⟨hv, hall⟩, rfl⟩
    obtain ⟨s, hs, hrval⟩ := hr.values v hv
    exact ⟨v, (mem_rowsAt _).mpr ⟨hv, rfl⟩, s, hs, (hrow v hv s hs hrval).mp hall⟩
  · rintro ⟨v, hv, s, hs, hall⟩
    obtain ⟨hmem, hoid⟩ := (mem_rowsAt _).mp hv
    obtain ⟨s', hs', hrval⟩ := hr.values v hmem
    obtain rfl : s = s' := Option.some.inj (hs.symm.trans hs')
    exact ⟨v, ⟨hmem, (hrow v hmem s hs hrval).mpr hall⟩, hoid⟩

/-- A row is about the key whose id it has. -/
theorem names_iff (hk : db.KeysOk) {cond : TagCond} {v : AttrValRow} :
    db.Names cond v ↔ db.keyName v.kid = some cond.tagName := by
  constructor
  · rintro ⟨k, hmem, hkid, hname⟩
    rw [← hkid, hk.keyName hmem, hname]
  · intro h
    obtain ⟨k, hfind, hname⟩ := Option.map_eq_some_iff.mp h
    have hkid : k.kid = v.kid := by simpa using List.find?_some hfind
    exact ⟨k, List.mem_of_find?_eq_some hfind, hkid, hname⟩

/-- **Conditions on tags**: an object whose rows are current is selected exactly if one of its
attributes meets them all. -/
theorem mem_select_sent_iff (hu : db.Unique) (hk : db.KeysOk) (hr : TagRowsOk tr db)
    (hp : PlainValues tags) (hne : tags ≠ []) {o : Oid} {h : Hpss}
    (hcur : World.TagsCurrent o h db) :
    o ∈ db.select (tags.map fun t => t.cond.sentPred) ↔ MeetsTags tr tags (h.attrs o) := by
  have hrows : ∀ name val, (∃ v ∈ attrRows o db.attrVal, db.keyName v.kid = some name ∧
      v.sval = some val) ↔ (name, val) ∈ h.attrs o := fun name val => by
    have hmem := hcur.mem_iff (a := (some name, some val))
    simpa [Db.tags] using hmem
  rw [mem_select_sent hu hr hp, MeetsTags, or_iff_right hne]
  obtain ⟨t₀, ht₀⟩ := List.exists_mem_of_ne_nil tags hne
  constructor
  · rintro ⟨v, hv, s, hs, hall⟩
    refine ⟨(t₀.cond.tagName, s), ?_, fun t ht => ⟨?_, (hall t ht).2⟩⟩
    · exact (hrows _ _).mp ⟨v, hv, (names_iff hk).mp (hall t₀ ht₀).1, hs⟩
    · exact (hall t₀ ht₀).1.tagName_eq hu (hall t ht).1
  · rintro ⟨⟨name, val⟩, ha, hall⟩
    obtain ⟨v, hv, hname, hs⟩ := (hrows name val).mpr ha
    refine ⟨v, hv, val, hs, fun t ht => ⟨(names_iff hk).mpr ?_, (hall t ht).2⟩⟩
    rw [hname]
    exact congrArg some (hall t ht).1

/-- A query on tags selects an object once: its rows are about one key. -/
theorem nodup_select_sent (hu : db.Unique) (hne : tags ≠ []) :
    (db.select (tags.map fun t => t.cond.sentPred)).Nodup := by
  obtain ⟨t, ht⟩ := List.exists_mem_of_ne_nil tags hne
  have hnames : ∀ v ∈ db.attrVal.filter (fun v => Truth.all
      ((tags.map fun t => t.cond.sentPred).map (KeyPred.holds db v)) = some true),
      v ∈ db.attrVal ∧ db.Names t.cond v := fun v hv => by
    obtain ⟨hmem, hall⟩ := List.mem_filter.mp hv
    rw [decide_eq_true_eq, Truth.all_eq_true, List.forall_mem_map, List.forall_mem_map] at hall
    exact ⟨hmem, (kid_eq_iff hu).mp (Truth.and_eq_true.mp (hall t ht)).1⟩
  refine List.Nodup.map_on (fun v hv w hw hoid => ?_) (hu.attrVal.of_map _ |>.filter _)
  obtain ⟨hv, hkey⟩ := hnames v hv
  obtain ⟨hw, hkey'⟩ := hnames w hw
  exact List.inj_on_of_nodup_map hu.attrVal hv hw (Prod.ext hoid (hkey.kid_eq hu hkey' rfl))

end Select

/-! ## over a run -/

namespace World

variable {site : Site} {tr : Transport} {w : World} {e : Event}

/-- The tables of the tags are in order. -/
def TagRowsInv (tr : Transport) (w : World) : Prop :=
  ∀ db, w.index tr = some db → TagRowsOk tr db

theorem tagRowsInv_init (tr : Transport) : TagRowsInv tr {} := fun db hdb => by
  obtain rfl : ({} : Db) = db := Option.some.inj hdb
  exact ⟨List.nodup_nil, List.nodup_nil, fun v hv => absurd hv List.not_mem_nil⟩

theorem tagRowsInv_step (hi : IndexInv tr w) (hr : TagRowsInv tr w) :
    TagRowsInv tr (w.step site e) := by
  have hstep : Stepped site w e (w.step site e) := stepped hi.timed.wf
  generalize w.step site e = w' at hstep ⊢
  cases hstep with
  | hpss h op _ _ _ => exact hr
  | idle r _ _ => exact hr
  | recorded r _ _ =>
      intro db' hdb'
      obtain ⟨db, hdb, hbatch⟩ := index_record hdb'
      exact tagRowsOk_builderBatch hbatch (hi.index db hdb).keys (hr db hdb)

end World

end Hpssix
