import Hpssix.SearchCond

/-!
# Hpssix.TagSearch

The query that `hpssix-search` generates for its tag conditions
(`utils/hpssix-search/src/hpssix-search-tag.c`), what PostgreSQL selects for
it, and what the conditions ask for.

A table has one row for each tag of an object, and the `WHERE` clause is about
one row: with two different tags it selects nothing.
-/

namespace Hpssix

open CText Rel Sql

/-! ## the generated text -/

/-- The operators that `parse_op` recognises. -/
inductive CondOp where
  | cmp (c : Cmp)
  | between
deriving DecidableEq

/-- `hpssix_search_tag_cond_t`.  No operator is a search for text.  The operands
are finite numbers. -/
structure TagCond where
  tagName : Text
  tagVal : Text
  op : Option CondOp
  val1 : Rat
  val2 : Rat
deriving DecidableEq

/-- `add_tag_cond`, after it has split the argument and `parse_op` has read the
operator and the operands. -/
def addTagCond (name val : Text) (op : Option CondOp) (val1 val2 : Rat) : TagCond :=
  { tagName := "user.hpssix.".toList ++ name, tagVal := val, op, val1, val2 }

/-- `sizeof(sqlbuf)`. -/
def tagSqlbufSize : Nat := 8192

/-- The start of both predicates. -/
def writeKey (cond : TagCond) : Text :=
  "(kid=(SELECT kid FROM hpssix_attr_key WHERE name='".toList ++ cond.tagName ++ "')".toList

/-- `write_numeric_predicate`.  Its `sprintf` for `BETWEEN` is passed `tag_name` in front of
the operands; the two conversions take the arguments that are passed as `double`. -/
def writeNumericPredicate (cond : TagCond) : CondOp → Text
  | .between =>
    writeKey cond ++ " AND rval BETWEEN ".toList ++ Decimal.lf cond.val1 ++ " AND ".toList ++
      Decimal.lf cond.val2 ++ ")".toList
  | .cmp c =>
    writeKey cond ++ " AND rval ".toList ++ opstr c ++ " ".toList ++ Decimal.lf cond.val1 ++
      ")".toList

/-- `write_string_predicate`. -/
def writeStringPredicate (cond : TagCond) : Text :=
  writeKey cond ++ " AND sval LIKE '%%".toList ++ cond.tagVal ++ "%%')".toList

/-- The predicate of a condition: one about numbers if it has an operator. -/
def writePredicate (cond : TagCond) : Text :=
  match cond.op with
  | some op => writeNumericPredicate cond op
  | none => writeStringPredicate cond

/-- The text that `get_sql_tag` writes. -/
def tagSql (conds : List TagCond) : Text :=
  "  tag_oids (oid) AS\n    (SELECT oid FROM hpssix_attr_val".toList ++
    (conds.mapIdx fun i cond =>
      (if i = 0 then " WHERE ".toList else " AND ".toList) ++ writePredicate cond).flatten ++
    ")".toList

/-- `get_sql_tag`: no text if it does not fit the buffer. -/
def getSqlTag (conds : List TagCond) : Option Text :=
  if (tagSql conds).length < tagSqlbufSize then some (tagSql conds) else none

/-- The length of a predicate, from the lengths of what goes into it. -/
def TagCond.room (cond : TagCond) : Nat :=
  52 + cond.tagName.length +
    match cond.op with
    | some (.cmp c) => 12 + (opstr c).length + (Decimal.lf cond.val1).length
    | some .between => 24 + (Decimal.lf cond.val1).length + (Decimal.lf cond.val2).length
    | none => 22 + cond.tagVal.length

/-- The length of the text for a list of conditions. -/
def tagRoom (conds : List TagCond) : Nat :=
  59 + (conds.map fun cond => 5 + cond.room).sum

/-! ## the query -/

/-- The condition on the value of a row. -/
inductive ValuePred where
  | rvalCmp (c : Cmp) (x : NumLit)
  | rvalBetween (x y : NumLit)
  | svalLike (pattern : Text)

/-- The condition on a row: `kid=(SELECT kid FROM hpssix_attr_key WHERE name=…)`
and the condition on the value. -/
structure KeyPred where
  name : Text
  value : ValuePred

/-- How the conditions are written. -/
def ValuePred.sql : ValuePred → Text
  | .rvalCmp c x => "rval ".toList ++ opstr c ++ " ".toList ++ x.text
  | .rvalBetween x y => "rval BETWEEN ".toList ++ x.text ++ " AND ".toList ++ y.text
  | .svalLike pattern => "sval LIKE ".toList ++ quote pattern

def KeyPred.sql (p : KeyPred) : Text :=
  "(kid=(SELECT kid FROM hpssix_attr_key WHERE name=".toList ++ quote p.name ++ ") AND ".toList ++
    p.value.sql ++ ")".toList

/-- How the query is written. -/
def querySql (q : List KeyPred) : Text :=
  "  tag_oids (oid) AS\n    (SELECT oid FROM hpssix_attr_val".toList ++
    (match q with
    | [] => []
    | p :: ps => " WHERE ".toList ++ p.sql ++ ps.flatMap fun p => " AND ".toList ++ p.sql) ++
    ")".toList

def ValuePred.holds (v : AttrValRow) : ValuePred → Truth
  | .rvalCmp c x => compare (c.holds Float8.lt) v.rval (some (.num x.value))
  | .rvalBetween x y =>
    (compare (Cmp.ge.holds Float8.lt) v.rval (some (.num x.value))).and
      (compare (Cmp.le.holds Float8.lt) v.rval (some (.num y.value)))
  | .svalLike pattern => v.sval.bind (like pattern)

/-- The id that the subquery finds; a name has at most one. -/
def Db.kidOf (db : Db) (name : Text) : Option Nat :=
  (db.attrKey.find? fun k => k.name = name).map AttrKeyRow.kid

def KeyPred.holds (db : Db) (v : AttrValRow) (p : KeyPred) : Truth :=
  (compare (fun a b => decide (a = b)) (some v.kid) (db.kidOf p.name)).and (p.value.holds v)

/-- The object ids that the query selects. -/
def Db.select (db : Db) (q : List KeyPred) : List Oid :=
  (db.attrVal.filter fun v => Truth.all (q.map (KeyPred.holds db v)) = some true).map
    AttrValRow.oid

/-- The query of a list of conditions. -/
def TagCond.keyPred (cond : TagCond) : KeyPred where
  name := cond.tagName
  value :=
    match cond.op with
    | some (.cmp c) => .rvalCmp c (.lf cond.val1)
    | some .between => .rvalBetween (.lf cond.val1) (.lf cond.val2)
    | none => .svalLike ("%%".toList ++ cond.tagVal ++ "%%".toList)

/-! ## the conditions -/

/-- The value of a row meets a condition. -/
def TagCond.Meets (cond : TagCond) (v : AttrValRow) : Prop :=
  match cond.op with
  | some (.cmp c) => ∃ x ∈ v.rval, c.holds Float8.lt x (.num cond.val1) = true
  | some .between => ∃ x ∈ v.rval, Cmp.ge.holds Float8.lt x (.num cond.val1) = true ∧
      Cmp.le.holds Float8.lt x (.num cond.val2) = true
  | none => ∃ s ∈ v.sval, cond.tagVal <:+: s

/-- The row is about the tag that a condition names. -/
def Db.Names (db : Db) (cond : TagCond) (v : AttrValRow) : Prop :=
  ∃ k ∈ db.attrKey, k.kid = v.kid ∧ k.name = cond.tagName

/-- An object satisfies a condition. -/
def Db.Satisfies (db : Db) (o : Oid) (cond : TagCond) : Prop :=
  ∃ v ∈ db.attrVal, v.oid = o ∧ db.Names cond v ∧ cond.Meets v

/-- Tag name and text are plain, and the operands are printed exactly. -/
structure TagCond.Plain (cond : TagCond) : Prop where
  tagName : Sql.Plain cond.tagName
  tagVal : Sql.Plain cond.tagVal
  val1 : Decimal.SixDigits cond.val1
  val2 : Decimal.SixDigits cond.val2

/-- No quotes in the texts that are printed between quotes. -/
structure TagCond.Unquoted (cond : TagCond) : Prop where
  tagName : quoteChar ∉ cond.tagName
  tagVal : cond.op = none → quoteChar ∉ cond.tagVal

theorem TagCond.Plain.unquoted {cond : TagCond} (h : cond.Plain) : cond.Unquoted where
  tagName := fun hmem => (h.tagName _ hmem).1 rfl
  tagVal := fun _ hmem => (h.tagVal _ hmem).1 rfl

/-! ## the text is the query -/

theorem writeKey_eq {cond : TagCond} (h : cond.Unquoted) :
    writeKey cond =
      "(kid=(SELECT kid FROM hpssix_attr_key WHERE name=".toList ++ quote cond.tagName ++
        ")".toList := by
  have hopen : "(kid=(SELECT kid FROM hpssix_attr_key WHERE name='".toList =
      "(kid=(SELECT kid FROM hpssix_attr_key WHERE name=".toList ++ [quoteChar] := by decide +kernel
  have hclose : "')".toList = quoteChar :: ")".toList := by decide +kernel
  have hname : quote cond.tagName = quoteChar :: cond.tagName ++ [quoteChar] := by
    refine quote_of_plain fun c hc heq => ?_
    exact h.tagName (heq ▸ hc)
  unfold writeKey
  simp only [hname, hopen, hclose, List.append_assoc, List.cons_append, List.nil_append]

/-- What is written for a condition without quotes is its predicate. -/
theorem writePredicate_eq {cond : TagCond} (h : cond.Unquoted) :
    writePredicate cond = cond.keyPred.sql := by
  have hquote : cond.op = none → quote ("%%".toList ++ (cond.tagVal ++ "%%".toList)) =
      "'%%".toList ++ (cond.tagVal ++ "%%'".toList) := by
    intro hop
    rw [quote_of_plain]
    · have hopen : "'%%".toList = quoteChar :: "%%".toList := by decide +kernel
      have hclose : "%%'".toList = "%%".toList ++ [quoteChar] := by decide +kernel
      rw [hopen, hclose]
      simp only [List.cons_append, List.append_assoc]
    · intro c hc
      obtain hc | hc | hc := by simpa only [List.mem_append] using hc
      · rw [show c = '%' by simpa using hc]
        decide
      · exact fun heq => h.tagVal hop (heq ▸ hc)
      · rw [show c = '%' by simpa using hc]
        decide
  have hrval : " AND rval ".toList = " AND ".toList ++ "rval ".toList := by decide +kernel
  have hbetween : " AND rval BETWEEN ".toList = " AND ".toList ++ "rval BETWEEN ".toList := by
    decide +kernel
  have hlike : " AND sval LIKE '%%".toList = " AND ".toList ++ "sval LIKE ".toList ++ "'%%".toList := by
    decide +kernel
  have hclose : "%%')".toList = "%%'".toList ++ ")".toList := by decide +kernel
  have hand : ") AND ".toList = ")".toList ++ " AND ".toList := by decide +kernel
  unfold writePredicate KeyPred.sql TagCond.keyPred
  match hop : cond.op with
  | some (.cmp c) =>
      show writeNumericPredicate cond (.cmp c) = _
      unfold writeNumericPredicate ValuePred.sql
      simp only [writeKey_eq h, hrval, hand, List.append_assoc, NumLit.text_lf]
  | some .between =>
      show writeNumericPredicate cond .between = _
      unfold writeNumericPredicate ValuePred.sql
      simp only [writeKey_eq h, hbetween, hand, List.append_assoc, NumLit.text_lf]
  | none =>
      show writeStringPredicate cond = _
      unfold writeStringPredicate ValuePred.sql
      simp only [writeKey_eq h, hlike, hclose, hand, hquote hop, List.append_assoc]

/-- The generated text is the query of the conditions. -/
theorem tagSql_eq {conds : List TagCond} (h : ∀ c ∈ conds, c.Unquoted) :
    tagSql conds = querySql (conds.map TagCond.keyPred) := by
  cases conds with
  | nil =>
      unfold tagSql querySql
      rw [List.map_nil, List.mapIdx_nil]
      rfl
  | cons c cs =>
      have hrest : (cs.mapIdx fun i cond =>
          (if i + 1 = 0 then " WHERE ".toList else " AND ".toList) ++ writePredicate cond).flatten =
          (cs.map TagCond.keyPred).flatMap fun p => " AND ".toList ++ p.sql := by
        have hcs : ∀ c ∈ cs, c.Unquoted := fun c hc => h c (List.mem_cons_of_mem _ hc)
        rw [List.flatMap_map, List.flatMap_def]
        congr 1
        refine List.ext_getElem (by simp) fun i hi _ => ?_
        simp only [List.getElem_mapIdx, List.getElem_map, if_neg (Nat.succ_ne_zero i)]
        rw [writePredicate_eq (hcs _ (List.getElem_mem _))]
      unfold tagSql querySql
      simp only [List.mapIdx_cons, List.flatten_cons, List.map_cons, if_true, hrest,
        writePredicate_eq (h c List.mem_cons_self), List.append_assoc]

/-! ## what the query selects -/

variable {db : Db} {conds : List TagCond}

/-- The subquery finds the id of the name. -/
theorem kid_eq_iff (hu : db.Unique) {cond : TagCond} {v : AttrValRow} :
    compare (fun a b => decide (a = b)) (some v.kid) (db.kidOf cond.tagName) = some true ↔
      db.Names cond v := by
  simp only [compare_eq_true, Db.kidOf, Db.Names]
  constructor
  · rintro ⟨kid, ⟨⟩, kid', hfind, heq⟩
    obtain ⟨k, hk, rfl⟩ := Option.map_eq_some_iff.mp hfind
    refine ⟨k, List.mem_of_find?_eq_some hk, ?_, ?_⟩
    · simpa using (of_decide_eq_true heq).symm
    · simpa using List.find?_some hk
  · rintro ⟨k, hk, hkid, hname⟩
    refine ⟨v.kid, rfl, k.kid, ?_, by simp [hkid]⟩
    have hfind := find?_eq_some_of_nodup hu.name hk
    rw [← hname, hfind]
    rfl

/-- A row passes the condition on its value exactly if it meets it. -/
theorem value_holds_iff {cond : TagCond} (hp : cond.Plain) {v : AttrValRow} :
    cond.keyPred.value.holds v = some true ↔ cond.Meets v := by
  unfold TagCond.keyPred TagCond.Meets
  match cond.op with
  | some (.cmp c) =>
      simp [ValuePred.holds, compare_eq_true, NumLit.value_lf hp.val1]
  | some .between =>
      simp only [ValuePred.holds, Truth.and_eq_true, compare_eq_true, NumLit.value_lf hp.val1,
        NumLit.value_lf hp.val2]
      cases v.rval with
      | none => simp
      | some x => simp
  | none =>
      simp only [ValuePred.holds, Option.bind_eq_some_iff, Option.mem_def]
      refine exists_congr fun s => and_congr_right fun _ => ?_
      rw [List.append_assoc]
      exact like_contains 1 1 hp.tagVal.unwild

/-- An object is selected if one of its rows meets all conditions. -/
theorem mem_select (hu : db.Unique) (hp : ∀ c ∈ conds, c.Plain) {o : Oid} :
    o ∈ db.select (conds.map TagCond.keyPred) ↔
      ∃ v ∈ db.attrVal, v.oid = o ∧ ∀ c ∈ conds, db.Names c v ∧ c.Meets v := by
  have hrow : ∀ v : AttrValRow,
      Truth.all ((conds.map TagCond.keyPred).map (KeyPred.holds db v)) = some true ↔
        ∀ c ∈ conds, db.Names c v ∧ c.Meets v := fun v => by
    simp only [Truth.all_eq_true, List.forall_mem_map, KeyPred.holds, Truth.and_eq_true]
    refine forall₂_congr fun c hc => and_congr (kid_eq_iff hu) (value_holds_iff (hp c hc))
  simp only [Db.select, List.mem_map, List.mem_filter, decide_eq_true_eq, hrow]
  refine exists_congr fun v => ?_
  rw [and_assoc, and_congr_right_iff]
  exact fun _ => and_comm

/-! ## the size of the text -/

/-- A predicate is as long as its room says. -/
theorem length_writePredicate (cond : TagCond) : (writePredicate cond).length = cond.room := by
  have hkey : (writeKey cond).length = 52 + cond.tagName.length := by
    unfold writeKey
    have hopen : "(kid=(SELECT kid FROM hpssix_attr_key WHERE name='".toList.length = 50 := by
      decide +kernel
    have hclose : "')".toList.length = 2 := by decide +kernel
    simp only [List.length_append, hopen, hclose]
    omega
  have hand : " AND ".toList.length = 5 := by decide +kernel
  have hclose : ")".toList.length = 1 := by decide +kernel
  unfold writePredicate TagCond.room
  match cond.op with
  | some (.cmp c) =>
      have hrval : " AND rval ".toList.length = 10 := by decide +kernel
      have hblank : " ".toList.length = 1 := by decide +kernel
      show (writeNumericPredicate cond (.cmp c)).length = _
      unfold writeNumericPredicate
      simp only [List.length_append, hkey, hrval, hblank, hclose]
      omega
  | some .between =>
      have hbetween : " AND rval BETWEEN ".toList.length = 18 := by decide +kernel
      show (writeNumericPredicate cond .between).length = _
      unfold writeNumericPredicate
      simp only [List.length_append, hkey, hbetween, hand, hclose]
      omega
  | none =>
      have hlike : " AND sval LIKE '%%".toList.length = 18 := by decide +kernel
      have hend : "%%')".toList.length = 4 := by decide +kernel
      show (writeStringPredicate cond).length = _
      unfold writeStringPredicate
      simp only [List.length_append, hkey, hlike, hend]
      omega

/-- The query on tags is as long as its room says. -/
theorem length_tagSql {conds : List TagCond} (hne : conds ≠ []) :
    (tagSql conds).length = tagRoom conds := by
  obtain ⟨c, cs, rfl⟩ := List.exists_cons_of_ne_nil hne
  have hhead : "  tag_oids (oid) AS\n    (SELECT oid FROM hpssix_attr_val".toList.length = 56 := by
    decide +kernel
  have hwhere : " WHERE ".toList.length = 7 := by decide +kernel
  have hand : " AND ".toList.length = 5 := by decide +kernel
  have hclose : ")".toList.length = 1 := by decide +kernel
  have hrest : ((cs.mapIdx fun i cond =>
      (if i + 1 = 0 then " WHERE ".toList else " AND ".toList) ++ writePredicate cond).flatten).length =
      (cs.map fun cond => 5 + cond.room).sum := by
    rw [List.length_flatten]
    congr 1
    refine List.ext_getElem (by simp) fun i hi _ => ?_
    simp only [List.getElem_map, List.getElem_mapIdx, if_neg (Nat.succ_ne_zero i), List.length_append,
      hand, length_writePredicate]
  unfold tagSql tagRoom
  simp only [List.mapIdx_cons, List.flatten_cons, List.length_append, if_true, hhead, hwhere, hclose,
    hrest, length_writePredicate, List.map_cons, List.sum_cons]
  omega

/-! ## one row and many tags -/

/-- A row is about one tag. -/
theorem Db.Names.tagName_eq (hu : db.Unique) {c d : TagCond} {v : AttrValRow} (hc : db.Names c v)
    (hd : db.Names d v) : c.tagName = d.tagName := by
  obtain ⟨k, hk, hkid, hname⟩ := hc
  obtain ⟨k', hk', hkid', hname'⟩ := hd
  have heq : k = k' := List.inj_on_of_nodup_map hu.kid hk hk' (hkid.trans hkid'.symm)
  rw [← hname, ← hname', heq]

/-- A tag has one key id. -/
theorem Db.Names.kid_eq (hu : db.Unique) {c d : TagCond} {v w : AttrValRow} (hc : db.Names c v)
    (hd : db.Names d w) (h : c.tagName = d.tagName) : v.kid = w.kid := by
  obtain ⟨k, hk, hkid, hname⟩ := hc
  obtain ⟨k', hk', hkid', hname'⟩ := hd
  have heq : k = k' := List.inj_on_of_nodup_map hu.name hk hk' (by rw [hname, hname', h])
  rw [← hkid, ← hkid', heq]

/-- A selected object satisfies every condition. -/
theorem satisfies_of_mem_select (hu : db.Unique) (hp : ∀ c ∈ conds, c.Plain) {o : Oid}
    (h : o ∈ db.select (conds.map TagCond.keyPred)) : ∀ c ∈ conds, db.Satisfies o c := by
  obtain ⟨v, hv, ho, hall⟩ := (mem_select hu hp).mp h
  exact fun c hc => ⟨v, hv, ho, (hall c hc).1, (hall c hc).2⟩

/-- Conditions on one tag are all met by the one row that the object has for it. -/
theorem mem_select_of_tagName_eq (hu : db.Unique) (hne : conds ≠ []) (hp : ∀ c ∈ conds, c.Plain)
    (hsame : ∀ c ∈ conds, ∀ d ∈ conds, c.tagName = d.tagName) {o : Oid}
    (h : ∀ c ∈ conds, db.Satisfies o c) : o ∈ db.select (conds.map TagCond.keyPred) := by
  obtain ⟨c₀, hc₀⟩ := List.exists_mem_of_ne_nil conds hne
  obtain ⟨v, hv, rfl, hkey, _⟩ := h c₀ hc₀
  refine (mem_select hu hp).mpr ⟨v, hv, rfl, fun c hc => ?_⟩
  obtain ⟨w, hw, ho, hkey', hmeets⟩ := h c hc
  have heq : w = v := List.inj_on_of_nodup_map hu.attrVal hw hv
    (Prod.ext ho (hkey'.kid_eq hu hkey (hsame c hc c₀ hc₀)))
  exact heq ▸ ⟨hkey', hmeets⟩

/-! ## the conjunction -/

/-- The generated text is the query of the conditions, and the query selects the
objects that satisfy all of them. -/
structure SelectsConjunction (db : Db) (conds : List TagCond) : Prop where
  text : getSqlTag conds = some (querySql (conds.map TagCond.keyPred))
  objects : ∀ o, o ∈ db.select (conds.map TagCond.keyPred) ↔ ∀ c ∈ conds, db.Satisfies o c

/-- The query is written exactly if it fits the buffer. -/
theorem getSqlTag_eq_iff (hne : conds ≠ []) (hp : ∀ c ∈ conds, c.Plain) :
    getSqlTag conds = some (querySql (conds.map TagCond.keyPred)) ↔
      tagRoom conds < tagSqlbufSize := by
  simp [getSqlTag, ← tagSql_eq fun c hc => (hp c hc).unquoted, length_tagSql hne]

/-- **The conditions of a search are a conjunction** exactly if the text fits the
buffer and either all of them are about one tag or no object satisfies them. -/
theorem selectsConjunction_iff (hu : db.Unique) (hne : conds ≠ []) (hp : ∀ c ∈ conds, c.Plain) :
    SelectsConjunction db conds ↔
      tagRoom conds < tagSqlbufSize ∧
        ((∀ c ∈ conds, ∀ d ∈ conds, c.tagName = d.tagName) ∨
          ∀ o, ∃ c ∈ conds, ¬ db.Satisfies o c) := by
  constructor
  · rintro ⟨htext, hobj⟩
    refine ⟨(getSqlTag_eq_iff hne hp).mp htext, ?_⟩
    by_contra hnot
    simp only [not_or, not_forall, not_exists, not_and, not_not] at hnot
    obtain ⟨⟨c, hc, d, hd, hne⟩, o, hall⟩ := hnot
    obtain ⟨v, _, _, hv⟩ := (mem_select hu hp).mp ((hobj o).mpr hall)
    exact hne ((hv c hc).1.tagName_eq hu (hv d hd).1)
  · rintro ⟨hroom, hcond⟩
    refine ⟨(getSqlTag_eq_iff hne hp).mpr hroom, fun o =>
      ⟨satisfies_of_mem_select hu hp, fun hall => ?_⟩⟩
    obtain hsame | hnone := hcond
    · exact mem_select_of_tagName_eq hu hne hp hsame hall
    · obtain ⟨c, hc, hnot⟩ := hnone o
      exact absurd (hall c hc) hnot

/-! ## two tags -/

/-- An object with two tags, each with its number. -/
def twoTagsDb : Db where
  attrKey := [⟨1, "user.hpssix.a".toList⟩, ⟨2, "user.hpssix.b".toList⟩]
  attrVal := [⟨.of 10, 1, some (.num 1), some ['1']⟩, ⟨.of 10, 2, some (.num 2), some ['2']⟩]
  nextKid := 3

theorem unique_twoTagsDb : twoTagsDb.Unique :=
  ⟨by decide +kernel, by decide +kernel, by decide +kernel, by decide +kernel⟩

/-- `--tag=a:1 --tag=b:2` -/
def twoTagsConds : List TagCond :=
  [addTagCond ['a'] ['1'] (some (.cmp .eq)) 1 0, addTagCond ['b'] ['2'] (some (.cmp .eq)) 2 0]

/-- `--tag=a:1 --tag=a:0.5,2` -/
def oneTagConds : List TagCond :=
  [addTagCond ['a'] ['1'] (some (.cmp .eq)) 1 0,
    addTagCond ['a'] "0.5,2".toList (some .between) (1 / 2) 2]

theorem selectsConjunction_iff_oneTag :
    SelectsConjunction twoTagsDb oneTagConds ↔
      tagRoom oneTagConds < tagSqlbufSize ∧
        ((∀ c ∈ oneTagConds, ∀ d ∈ oneTagConds, c.tagName = d.tagName) ∨
          ∀ o, ∃ c ∈ oneTagConds, ¬ twoTagsDb.Satisfies o c) := by
  refine selectsConjunction_iff unique_twoTagsDb (by decide) fun c hc => ?_
  simp only [oneTagConds, List.mem_cons, List.not_mem_nil, or_false] at hc
  obtain rfl | rfl := hc
  · exact ⟨by decide +kernel, by decide +kernel, by decide +kernel, by decide +kernel⟩
  · exact ⟨by decide +kernel, by decide +kernel, by decide +kernel, by decide +kernel⟩

/-- The object has both tags, and the search for both does not find it. -/
theorem two_tags_not_selected :
    ¬ ∀ (db : Db) (conds : List TagCond), db.Unique → conds ≠ [] → conds.length ≤ 128 →
      (∀ c ∈ conds, c.Plain) → SelectsConjunction db conds := by
  intro h
  have hplain : ∀ c ∈ twoTagsConds, c.Plain := fun c hc => by
    simp only [twoTagsConds, List.mem_cons, List.not_mem_nil, or_false] at hc
    obtain rfl | rfl := hc
    · exact ⟨by decide +kernel, by decide +kernel, by decide +kernel, by decide +kernel⟩
    · exact ⟨by decide +kernel, by decide +kernel, by decide +kernel, by decide +kernel⟩
  have hboth : ∀ c ∈ twoTagsConds, twoTagsDb.Satisfies (.of 10) c := fun c hc => by
    simp only [twoTagsConds, List.mem_cons, List.not_mem_nil, or_false] at hc
    obtain rfl | rfl := hc
    · exact ⟨_, List.mem_cons_self, rfl, ⟨_, List.mem_cons_self, rfl, rfl⟩, _, rfl, by
        decide +kernel⟩
    · exact ⟨_, List.mem_cons_of_mem _ List.mem_cons_self, rfl,
        ⟨_, List.mem_cons_of_mem _ List.mem_cons_self, rfl, rfl⟩, _, rfl, by decide +kernel⟩
  have hsel := (h twoTagsDb twoTagsConds unique_twoTagsDb (by decide) (by decide) hplain).objects
  exact absurd ((hsel (.of 10)).mpr hboth) (by decide +kernel)

end Hpssix
