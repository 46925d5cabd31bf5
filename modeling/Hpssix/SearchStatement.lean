import Hpssix.Base.SqlLexer
import Hpssix.FattrSearch
import Hpssix.TagSearch

/-!
# Hpssix.SearchStatement

The statement of `hpssix-search` (`utils/hpssix-search/src/hpssix-search.c`),
from the command line to the text that `hpssix_db_psql_query` sends, and what
PostgreSQL's lexer makes of it.

Keyword, tag names and tag values are printed between quotes as they are; the
name and the path of files are escaped first.  The finished buffer is the format
of another `printf`.

* `sqlbuf_eq` — the buffer is the text of its parts;
* `vasprintf_eq_some_iff` — the second `printf` undoes the doubling of percents.
-/

namespace Hpssix

open CText Sql SqlLexer Doubling

/-! ## the command line -/

/-- A `-T` option: the name, the expression, and what `parse_op` reads in it. -/
structure TagArg where
  name : Text
  val : Text
  op : Option CondOp
  val1 : Rat
  val2 : Rat

/-- The condition that `add_tag_cond` makes of it. -/
def TagArg.cond (t : TagArg) : TagCond := addTagCond t.name t.val t.op t.val1 t.val2

/-- The options that the statement depends on. -/
structure SearchArgs where
  fattr : FattrOptions := {}
  tags : List TagArg := []
  keyword : Option Text := none
  countonly : Bool := false
  limit : UInt64 := 0
  name : Option Text := none
  path : Option Text := none

/-! ## the statement -/

/-- A text that is printed into a buffer, if it fits with its NUL. -/
def sprintf (size : Nat) (s : Text) : Option Text := if s.length < size then some s else none

/-- `add_tag_cond` for all options: each needs room in `tag_conds`, and its name in
`tag_name`. -/
def tagConds (tags : List TagArg) : Option (List TagCond) :=
  if tags.length ≤ 128 then
    tags.mapM fun t => (sprintf 1024 t.cond.tagName).map fun _ => t.cond
  else none

/-- `hpssix_search_tsv_get_sql`. -/
def hpssixSearchTsvGetSql (keyword : Text) : Option Text :=
  sprintf 8192
    ("  tsv_oids (oid, tsv) AS\n    (SELECT oid, tsv FROM (SELECT oid, tsv FROM ".toList ++
      "hpssix_attr_document, PLAINTO_TSQUERY('".toList ++ keyword ++
      "') AS q WHERE (tsv @@ q)) t1)".toList)

/-- `remove_single_quote`: NULL for an escape literal, which does not begin with a
quote. -/
def removeSingleQuote (str : Text) : Option Text :=
  match str with
  | [] => none
  | c :: cs =>
    if c = quoteChar then
      (strrchr quoteChar str).map fun rpos => cs.take (str.length - rpos.length - 1)
    else none

/-- The pattern for an escaped text, as it stands in the buffer. -/
def likePattern (escaped : Text) : Text := "LIKE '%%".toList ++ escaped ++ "%%' ".toList

/-- `get_file_predicate`. -/
def getFilePredicate (name path : Option Text) : Option Text :=
  match name, path with
  | none, none => some []
  | _, _ =>
    match name.bind fun s => removeSingleQuote (pqEscapeLiteral s),
        path.bind fun s => removeSingleQuote (pqEscapeLiteral s) with
    | some n, some p =>
      some ("WHERE f.name ".toList ++ likePattern n ++ "AND f.path ".toList ++ likePattern p)
    | some n, none => some ("WHERE f.name ".toList ++ likePattern n)
    | none, some p => some ("WHERE f.path ".toList ++ likePattern p)
    | none, none => none

/-- What `main` prints for the tag conditions, with `tag_get_sql`. -/
def tagGetSql (conds : List TagCond) : Option Text :=
  if conds = [] then some [] else (getSqlTag conds).map (",\n".toList ++ ·)

/-- What `main` prints for the keyword, with `tsv_get_sql`. -/
def tsvGetSql (keyword : Option Text) : Option Text :=
  keyword.elim (some []) fun k => (hpssixSearchTsvGetSql k).map (",\n".toList ++ ·)

/-- The order of the results. -/
def orderSql (keyword : Option Text) : Text :=
  keyword.elim [] fun k =>
    "\nORDER BY TS_RANK_CD(t.tsv, PLAINTO_TSQUERY('".toList ++ k ++ "')) DESC ".toList

/-- The buffer that `main` assembles; none where it gives up, or where a text does not
fit.  A search without tags, keyword, name and path is one on file attributes. -/
def SearchArgs.sqlbuf (q : SearchArgs) : Option Text := do
  let conds ← tagConds q.tags
  let sqlFattr ← q.fattr.sql.bind (sprintf 4096)
  let sqlTags ← tagGetSql conds
  let sqlTsv ← tsvGetSql q.keyword
  if q.fattr.directoryOnly && q.fattr.fileOnly then none
  else
    let predicate ← getFilePredicate q.name q.path
    sprintf (2 ^ 20) ("\n".toList ++ sqlFattr ++ sqlTags ++ sqlTsv ++
      (if q.countonly then "\nSELECT COUNT(f.path) FROM fattr_oids ".toList
        else "\nSELECT f.oid, f.path FROM fattr_oids ".toList) ++
      (if conds = [] then [] else "NATURAL JOIN tag_oids ".toList) ++
      (if q.keyword.isSome then "NATURAL JOIN tsv_oids t ".toList else []) ++
      "NATURAL JOIN hpssix_file f ".toList ++ predicate ++ orderSql q.keyword ++
      (if q.limit = 0 then [] else " LIMIT ".toList ++ decimal q.limit.toNat ++ ";".toList))

/-- `vasprintf` without arguments: the only directive with a meaning is `%%`. -/
def vasprintf : Text → Option Text
  | [] => some []
  | [c] => if c = '%' then none else some [c]
  | c :: d :: s =>
    if c = '%' then
      if d = '%' then (vasprintf s).map ('%' :: ·) else none
    else (vasprintf (d :: s)).map (c :: ·)

/-- The text that `hpssix_db_psql_query` hands to `PQexec`. -/
def SearchArgs.statement (q : SearchArgs) : Option Text := q.sqlbuf.bind vasprintf

/-! ## the texts of the user -/

/-- The text between percents. -/
def contains (s : Text) : Text := '%' :: s ++ ['%']

/-- The literals that are meant for the texts of a condition. -/
def TagArg.literals (t : TagArg) : List Text :=
  t.cond.tagName :: (if t.op = none then [contains t.val] else [])

/-- The literals that are meant for the user's texts, in the order of the
statement. -/
def SearchArgs.userLiterals (q : SearchArgs) : List Text :=
  q.tags.flatMap TagArg.literals ++ q.keyword.toList ++ q.name.toList.map contains ++
    q.path.toList.map contains ++ q.keyword.toList

/-- Two command lines differ in nothing but the user's texts. -/
structure SameOptions (q q' : SearchArgs) : Prop where
  fattr : q'.fattr = q.fattr
  tags : List.Forall₂
    (fun t t' : TagArg => t'.op = t.op ∧ t'.val1 = t.val1 ∧ t'.val2 = t.val2) q.tags q'.tags
  keyword : q'.keyword.isSome = q.keyword.isSome
  countonly : q'.countonly = q.countonly
  limit : q'.limit = q.limit
  name : q'.name.isSome = q.name.isSome
  path : q'.path.isSome = q.path.isSome

/-- A property of the texts that go through the statement as they are, and of the
texts that are escaped. -/
structure SearchArgs.Texts (verbatim escaped : Text → Prop) (q : SearchArgs) : Prop where
  tagName : ∀ t ∈ q.tags, verbatim t.name
  tagVal : ∀ t ∈ q.tags, t.op = none → verbatim t.val
  keyword : ∀ k ∈ q.keyword, verbatim k
  name : ∀ n ∈ q.name, escaped n
  path : ∀ p ∈ q.path, escaped p

/-- Letters and digits. -/
def Alphanumeric (s : Text) : Prop := ∀ c ∈ s, c.isAlphanum = true

/-- The user's texts are where they belong, and the rest of the statement is the one
for plain texts. -/
def Contained (other : Text → Text → Option (Option Text × Nat)) (q : SearchArgs) : Prop :=
  ∃ l, q.statement.bind (lex other) = some l ∧ literals l = q.userLiterals ∧
    ∀ q', SameOptions q q' → q'.Texts Alphanumeric Alphanumeric → q'.sqlbuf.isSome →
      ∃ l', q'.statement.bind (lex other) = some l' ∧ skeleton l = skeleton l'

/-- No quote and no percent. -/
def Verbatim (s : Text) : Prop := quoteChar ∉ s ∧ '%' ∉ s

/-- No percent and no backslash. -/
def Escapable (s : Text) : Prop := '%' ∉ s ∧ escapeChar ∉ s

/-! ## the parts of the statement -/

/-- A part of the statement: text of the program, or a text of the user between
quotes, with a percent on both sides for a pattern. -/
inductive Part where
  | text (s : Text)
  | user (pattern : Bool) (s : Text) (escaped : Bool)

/-- What stands around the text of a pattern. -/
def affix (pattern : Bool) : Text := if pattern then ['%'] else []

/-- How a part is printed. -/
def Part.raw : Part → Text
  | .text s => s
  | .user pattern s escaped =>
    quoteChar :: (double (· = '%') (affix pattern) ++
      (if escaped then double (· = quoteChar) s else s) ++
      double (· = '%') (affix pattern) ++ [quoteChar])

/-- What it should be read as. -/
def Part.piece : Part → Piece
  | .text s => .text s
  | .user pattern s _ => .literal (affix pattern ++ s ++ affix pattern)

/-- The parts of a condition. -/
def condParts (first : Bool) (cond : TagCond) : List Part :=
  .text ((if first then " WHERE ".toList else " AND ".toList) ++
      "(kid=(SELECT kid FROM hpssix_attr_key WHERE name=".toList) ::
    .user false cond.tagName false ::
    match cond.op with
    | some .between =>
      [.text (") AND rval BETWEEN ".toList ++ Decimal.lf cond.val1 ++ " AND ".toList ++
        Decimal.lf cond.val2 ++ ")".toList)]
    | some (.cmp c) =>
      [.text (") AND rval ".toList ++ opstr c ++ " ".toList ++ Decimal.lf cond.val1 ++ ")".toList)]
    | none => [.text ") AND sval LIKE ".toList, .user true cond.tagVal false, .text ")".toList]

/-- The parts of the tag query. -/
def tagParts (conds : List TagCond) : List Part :=
  if conds = [] then []
  else .text ",\n  tag_oids (oid) AS\n    (SELECT oid FROM hpssix_attr_val".toList ::
    (conds.mapIdx fun i cond => condParts (i = 0) cond).flatten ++ [.text ")".toList]

/-- The parts of the keyword query. -/
def tsvParts (keyword : Text) : List Part :=
  [.text (",\n  tsv_oids (oid, tsv) AS\n    (SELECT oid, tsv FROM (SELECT oid, tsv FROM ".toList ++
    "hpssix_attr_document, PLAINTO_TSQUERY(".toList), .user false keyword false,
    .text ") AS q WHERE (tsv @@ q)) t1)".toList]

/-- The text from `SELECT` to the file table. -/
def selectText (q : SearchArgs) : Text :=
  (if q.countonly then "\nSELECT COUNT(f.path) FROM fattr_oids".toList
    else "\nSELECT f.oid, f.path FROM fattr_oids".toList) ++
    (if q.tags = [] then [] else " NATURAL JOIN tag_oids".toList) ++
    (if q.keyword.isSome then " NATURAL JOIN tsv_oids t".toList else []) ++
    " NATURAL JOIN hpssix_file f".toList

/-- The texts that `get_file_predicate` has a pattern for. -/
def patternOf (s : Option Text) : Option Text := s.filter fun s => escapeChar ∉ s

/-- A pattern without the escape character is kept. -/
theorem patternOf_eq_self {s : Option Text} (h : ∀ n ∈ s, escapeChar ∉ n) : patternOf s = s := by
  cases s with
  | none => rfl
  | some n => exact if_pos (decide_eq_true (h n rfl))

/-- The parts of the file predicate. -/
def predicateParts (name path : Option Text) : List Part :=
  match patternOf name, patternOf path with
  | some n, some p =>
    [.text " WHERE f.name LIKE ".toList, .user true n true, .text " AND f.path LIKE ".toList,
      .user true p true]
  | some n, none => [.text " WHERE f.name LIKE ".toList, .user true n true]
  | none, some p => [.text " WHERE f.path LIKE ".toList, .user true p true]
  | none, none => []

/-- The parts of the order. -/
def orderParts (keyword : Text) : List Part :=
  [.text " \nORDER BY TS_RANK_CD(t.tsv, PLAINTO_TSQUERY(".toList, .user false keyword false,
    .text ")) DESC".toList]

/-- The end of the statement. -/
def limitText (limit : UInt64) : Text :=
  ' ' :: (if limit = 0 then [] else " LIMIT ".toList ++ decimal limit.toNat ++ ";".toList)

/-- The parts of the statement, for the conditions on file attributes. -/
def SearchArgs.parts (q : SearchArgs) (conds : CondArg → Option FattrCond) : List Part :=
  .text ('\n' :: getSqlFattr q.fattr.removed conds) ::
    (tagParts (q.tags.map TagArg.cond) ++ q.keyword.elim [] tsvParts ++ [.text (selectText q)] ++
      predicateParts q.name q.path ++ q.keyword.elim [] orderParts ++ [.text (limitText q.limit)])

/-! ## the statement is its parts -/

/-- The text of a list of parts. -/
def raws (ps : List Part) : Text := ps.flatMap Part.raw

@[simp] theorem raws_nil : raws [] = [] := rfl

@[simp] theorem raws_append (ps qs : List Part) : raws (ps ++ qs) = raws ps ++ raws qs :=
  List.flatMap_append

@[simp] theorem raws_text (s : Text) (ps : List Part) : raws (.text s :: ps) = s ++ raws ps := rfl

/-- What a literal of the user puts into the statement. -/
theorem raws_verbatim (s : Text) (ps : List Part) :
    raws (.user false s false :: ps) = quoteChar :: (s ++ quoteChar :: raws ps) := by
  simp [raws, Part.raw, affix]

/-- What a pattern of the user puts into the statement. -/
theorem raws_pattern (s : Text) (ps : List Part) :
    raws (.user true s false :: ps) =
      quoteChar :: '%' :: '%' :: (s ++ '%' :: '%' :: quoteChar :: raws ps) := by
  simp [raws, Part.raw, affix, double_cons]

/-- What an escaped pattern puts into the statement. -/
theorem raws_escaped (s : Text) (ps : List Part) :
    raws (.user true s true :: ps) = quoteChar :: '%' :: '%' ::
      (double (· = quoteChar) s ++ '%' :: '%' :: quoteChar :: raws ps) := by
  simp [raws, Part.raw, affix, double_cons]

/-- The texts of blocks of parts. -/
theorem raws_flatten (l : List (List Part)) : raws l.flatten = (l.map raws).flatten := by
  induction l with
  | nil => rfl
  | cons ps l ih => rw [List.flatten_cons, raws_append, ih, List.map_cons, List.flatten_cons]

/-- The parts of a tag condition are its predicate. -/
theorem raws_condParts (first : Bool) (cond : TagCond) :
    raws (condParts first cond) =
      (if first then " WHERE ".toList else " AND ".toList) ++ writePredicate cond := by
  have hkey : "(kid=(SELECT kid FROM hpssix_attr_key WHERE name='".toList =
      "(kid=(SELECT kid FROM hpssix_attr_key WHERE name=".toList ++ [quoteChar] := by
    repeat rw [String.toList_ofList]
    rfl
  have hclose : "')".toList = [quoteChar, ')'] := by
    repeat rw [String.toList_ofList]
    rfl
  have hbetween : ") AND rval BETWEEN ".toList = ')' :: " AND rval BETWEEN ".toList := by
    repeat rw [String.toList_ofList]
  have hrval : ") AND rval ".toList = ')' :: " AND rval ".toList := by
    repeat rw [String.toList_ofList]
  have hsval : " AND sval LIKE '%%".toList = " AND sval LIKE ".toList ++ [quoteChar, '%', '%'] := by
    repeat rw [String.toList_ofList]
    rfl
  have hsval' : ") AND sval LIKE ".toList = ')' :: " AND sval LIKE ".toList := by
    repeat rw [String.toList_ofList]
  have hend : "%%')".toList = '%' :: '%' :: quoteChar :: ")".toList := by
    repeat rw [String.toList_ofList]
    rfl
  unfold condParts writePredicate
  rw [raws_text, raws_verbatim]
  match cond.op with
  | some .between =>
      show _ = _ ++ writeNumericPredicate cond .between
      unfold writeNumericPredicate writeKey
      simp only [raws_text, raws_nil, hkey, hclose, hbetween, List.append_assoc, List.cons_append,
        List.nil_append, List.append_nil]
  | some (.cmp c) =>
      show _ = _ ++ writeNumericPredicate cond (.cmp c)
      unfold writeNumericPredicate writeKey
      simp only [raws_text, raws_nil, hkey, hclose, hrval, List.append_assoc, List.cons_append,
        List.nil_append, List.append_nil]
  | none =>
      show _ = _ ++ writeStringPredicate cond
      unfold writeStringPredicate writeKey
      simp only [raws_text, raws_pattern, raws_nil, hkey, hclose, hend, hsval, hsval',
        List.append_assoc, List.cons_append, List.nil_append, List.append_nil]

/-- The parts of the tag conditions are the query on tags. -/
theorem raws_tagParts {conds : List TagCond} (h : conds ≠ []) :
    raws (tagParts conds) = ",\n".toList ++ tagSql conds := by
  have hhead : ",\n  tag_oids (oid) AS\n    (SELECT oid FROM hpssix_attr_val".toList =
      ",\n".toList ++ "  tag_oids (oid) AS\n    (SELECT oid FROM hpssix_attr_val".toList := by
    repeat rw [String.toList_ofList]
    rfl
  have hconds : raws (conds.mapIdx fun i cond => condParts (i = 0) cond).flatten =
      (conds.mapIdx fun i cond =>
        (if i = 0 then " WHERE ".toList else " AND ".toList) ++ writePredicate cond).flatten := by
    rw [raws_flatten]
    refine congrArg List.flatten (List.ext_getElem ?_ fun i hi _ => ?_)
    · rw [List.length_map, List.length_mapIdx, List.length_mapIdx]
    · rw [List.getElem_map, List.getElem_mapIdx, List.getElem_mapIdx, raws_condParts,
        if_congr decide_eq_true_iff rfl rfl]
  unfold tagParts tagSql
  rw [if_neg h, List.cons_append, raws_text, raws_append, hconds, hhead, raws_text, raws_nil,
    List.append_nil]
  simp only [List.append_assoc]

/-- The parts of the keyword are the query on documents. -/
theorem raws_tsvParts {k sql : Text} (h : hpssixSearchTsvGetSql k = some sql) :
    raws (tsvParts k) = ",\n".toList ++ sql := by
  have hhead :
      ",\n  tsv_oids (oid, tsv) AS\n    (SELECT oid, tsv FROM (SELECT oid, tsv FROM ".toList =
        ",\n".toList ++
          "  tsv_oids (oid, tsv) AS\n    (SELECT oid, tsv FROM (SELECT oid, tsv FROM ".toList := by
    repeat rw [String.toList_ofList]
    rfl
  have hopen : "hpssix_attr_document, PLAINTO_TSQUERY('".toList =
      "hpssix_attr_document, PLAINTO_TSQUERY(".toList ++ [quoteChar] := by
    repeat rw [String.toList_ofList]
    rfl
  have hclose : "') AS q WHERE (tsv @@ q)) t1)".toList =
      quoteChar :: ") AS q WHERE (tsv @@ q)) t1)".toList := by
    repeat rw [String.toList_ofList]
    rfl
  unfold hpssixSearchTsvGetSql sprintf at h
  obtain rfl := Option.some.inj (Option.ite_none_right_eq_some.mp h).2
  unfold tsvParts
  rw [raws_text, raws_verbatim, raws_text, raws_nil, hhead, hopen, hclose]
  simp only [List.append_assoc, List.cons_append, List.nil_append, List.append_nil]

/-- The parts of the ranking are its text. -/
theorem raws_orderParts (k : Text) :
    raws (orderParts k) ++ " ".toList =
      ' ' :: ("\nORDER BY TS_RANK_CD(t.tsv, PLAINTO_TSQUERY('".toList ++ k ++
        "')) DESC ".toList) := by
  have hopen : "\nORDER BY TS_RANK_CD(t.tsv, PLAINTO_TSQUERY('".toList =
      "\nORDER BY TS_RANK_CD(t.tsv, PLAINTO_TSQUERY(".toList ++ [quoteChar] := by
    repeat rw [String.toList_ofList]
    rfl
  have hhead : " \nORDER BY TS_RANK_CD(t.tsv, PLAINTO_TSQUERY(".toList =
      ' ' :: "\nORDER BY TS_RANK_CD(t.tsv, PLAINTO_TSQUERY(".toList := by
    repeat rw [String.toList_ofList]
  have hclose : "')) DESC ".toList = quoteChar :: (")) DESC".toList ++ " ".toList) := by
    repeat rw [String.toList_ofList]
    rfl
  unfold orderParts
  rw [raws_text, raws_verbatim, raws_text, raws_nil, hopen, hhead, hclose]
  simp only [List.append_assoc, List.cons_append, List.nil_append, List.append_nil]

/-- Any character but a percent sign is printed as it is. -/
theorem vasprintf_cons {c : Char} (hc : c ≠ '%') (s : Text) :
    vasprintf (c :: s) = (vasprintf s).map (c :: ·) := by
  cases s with
  | nil => exact if_neg hc
  | cons d s => exact if_neg hc

/-- The last stage undoes the doubling of percents, and does nothing else. -/
theorem vasprintf_eq_some_iff {buf s : Text} :
    vasprintf buf = some s ↔ buf = double (· = '%') s := by
  have hpercent : ∀ s : Text, double (· = '%') ('%' :: s) = '%' :: '%' :: double (· = '%') s :=
    fun s => double_cons_of_pos (p := (· = '%')) rfl s
  have hother : ∀ {c : Char} (s : Text), c ≠ '%' →
      double (· = '%') (c :: s) = c :: double (· = '%') s :=
    fun s hc => double_cons_of_neg (p := (· = '%')) hc s
  constructor
  · intro h
    fun_induction vasprintf buf generalizing s with
    | case1 => rw [← Option.some.inj h, double_nil]
    | case2 => contradiction
    | case3 c hc => rw [← Option.some.inj h, hother [] hc, double_nil]
    | case4 rest ih =>
        obtain ⟨t, ht, rfl⟩ := Option.map_eq_some_iff.mp h
        rw [hpercent, ← ih ht]
    | case5 => contradiction
    | case6 c d rest hc ih =>
        obtain ⟨t, ht, rfl⟩ := Option.map_eq_some_iff.mp h
        rw [hother t hc, ← ih ht]
  · rintro rfl
    induction s with
    | nil => rfl
    | cons c s ih =>
        by_cases hc : c = '%'
        · subst hc
          rw [hpercent, vasprintf, if_pos rfl, if_pos rfl, ih, Option.map_some]
        · rw [hother s hc, vasprintf_cons hc, ih, Option.map_some]

/-! ## the file predicate -/

/-- The escaped text, unless it is an escape literal. -/
theorem removeSingleQuote_pqEscapeLiteral (s : Text) :
    removeSingleQuote (pqEscapeLiteral s) =
      if escapeChar ∈ s then none else some (double (· = quoteChar) s) := by
  rw [pqEscapeLiteral]
  split_ifs with h
  · rw [removeSingleQuote, if_neg (by decide)]
  · have hlast : strrchr quoteChar (quote s) = some [quoteChar] := by
      rw [quote_eq, ← List.cons_append]
      exact strrchr_append List.not_mem_nil _
    rw [removeSingleQuote.eq_def, quote_eq]
    show (if quoteChar = quoteChar then _ else _) = _
    rw [if_pos rfl, ← quote_eq, hlast, Option.map_some, quote_eq]
    simp

/-- A text that was quoted and has lost its quotes is the pattern with its quotes doubled. -/
theorem bind_removeSingleQuote (s : Option Text) :
    (s.bind fun s => removeSingleQuote (pqEscapeLiteral s)) =
      (patternOf s).map (double (· = quoteChar)) := by
  cases s with
  | none => rfl
  | some s =>
      rw [Option.bind_some, removeSingleQuote_pqEscapeLiteral, patternOf, Option.filter_some]
      by_cases h : escapeChar ∈ s <;> simp [h]

/-- The parts of the predicates are their text. -/
theorem raws_predicateParts {name path : Option Text} {sql : Text}
    (h : getFilePredicate name path = some sql) :
    raws (predicateParts name path) ++ " ".toList = ' ' :: sql := by
  have hpattern : ∀ e : Text, likePattern e = "LIKE ".toList ++
      quoteChar :: '%' :: '%' :: (e ++ '%' :: '%' :: quoteChar :: " ".toList) := by
    intro e
    have hopen : "LIKE '%%".toList = "LIKE ".toList ++ [quoteChar, '%', '%'] := by
      repeat rw [String.toList_ofList]
      rfl
    have hclose : "%%' ".toList = '%' :: '%' :: quoteChar :: " ".toList := by
      repeat rw [String.toList_ofList]
      rfl
    unfold likePattern
    rw [hopen, hclose]
    simp only [List.append_assoc, List.cons_append, List.nil_append]
  have hname : " WHERE f.name LIKE ".toList =
      ' ' :: ("WHERE f.name ".toList ++ "LIKE ".toList) := by
    repeat rw [String.toList_ofList]
    rfl
  have hpath : " WHERE f.path LIKE ".toList =
      ' ' :: ("WHERE f.path ".toList ++ "LIKE ".toList) := by
    repeat rw [String.toList_ofList]
    rfl
  have hand : " AND f.path LIKE ".toList =
      " ".toList ++ ("AND f.path ".toList ++ "LIKE ".toList) := by
    repeat rw [String.toList_ofList]
    rfl
  unfold getFilePredicate at h
  simp only [bind_removeSingleQuote] at h
  unfold predicateParts
  split at h
  · obtain rfl := Option.some.inj h
    rfl
  · cases hn : patternOf name with
    | none =>
        cases hp : patternOf path with
        | none => simp [hn, hp] at h
        | some p =>
            simp only [hn, hp, Option.map_none, Option.map_some, Option.some.injEq] at h
            subst h
            simp only [raws_text, raws_escaped, raws_nil, hpattern, hpath, List.append_assoc,
              List.cons_append, List.nil_append]
    | some n =>
        cases hp : patternOf path with
        | none =>
            simp only [hn, hp, Option.map_none, Option.map_some, Option.some.injEq] at h
            subst h
            simp only [raws_text, raws_escaped, raws_nil, hpattern, hname, List.append_assoc,
              List.cons_append, List.nil_append]
        | some p =>
            simp only [hn, hp, Option.map_some, Option.some.injEq] at h
            subst h
            simp only [raws_text, raws_escaped, raws_nil, hpattern, hname, hand, List.append_assoc,
              List.cons_append, List.nil_append]

/-- The conditions that are read are those of the options. -/
theorem tagConds_eq_some {tags : List TagArg} {conds : List TagCond}
    (h : tagConds tags = some conds) : conds = tags.map TagArg.cond := by
  have hcond : ∀ (t : TagArg) (cond : TagCond),
      ((sprintf 1024 t.cond.tagName).map fun _ => t.cond) = some cond → id cond = t.cond := by
    intro t cond ht
    obtain ⟨_, _, heq⟩ := Option.map_eq_some_iff.mp ht
    exact heq.symm
  unfold tagConds at h
  have hmap := Rel.map_of_mapM (Option.ite_none_right_eq_some.mp h).2 hcond
  rwa [List.map_id] at hmap

theorem sprintf_eq_some {size : Nat} {s t : Text} (h : sprintf size s = some t) : s = t :=
  Option.some.inj (Option.ite_none_right_eq_some.mp h).2

/-- The query on tags that was written is what its parts are. -/
theorem raws_tagParts_of_sql {conds : List TagCond} {sql : Text} (h : tagGetSql conds = some sql) :
    raws (tagParts conds) = sql := by
  rw [tagGetSql] at h
  by_cases hne : conds = []
  · rw [if_pos hne] at h
    rw [tagParts, if_pos hne, ← Option.some.inj h, raws_nil]
  · rw [if_neg hne] at h
    obtain ⟨t, ht, rfl⟩ := Option.map_eq_some_iff.mp h
    rw [raws_tagParts hne, ← Option.some.inj (Option.ite_none_right_eq_some.mp ht).2]

/-- The query on documents that was written is what its parts are. -/
theorem raws_tsvParts_of_sql {keyword : Option Text} {sql : Text}
    (h : tsvGetSql keyword = some sql) : raws (keyword.elim [] tsvParts) = sql := by
  cases keyword with
  | none => exact Option.some.inj h
  | some k =>
      obtain ⟨t, ht, rfl⟩ := Option.map_eq_some_iff.mp h
      exact raws_tsvParts ht

/-- The ranking that was written is what its parts are. -/
theorem raws_order (keyword : Option Text) :
    raws (keyword.elim [] orderParts) ++ " ".toList = " ".toList ++ orderSql keyword := by
  cases keyword with
  | none => rfl
  | some k => exact raws_orderParts k

/-- The head of the statement, clause by clause. -/
theorem selectText_eq (q : SearchArgs) :
    selectText q ++ " ".toList =
      (if q.countonly then "\nSELECT COUNT(f.path) FROM fattr_oids ".toList
        else "\nSELECT f.oid, f.path FROM fattr_oids ".toList) ++
      (if q.tags = [] then [] else "NATURAL JOIN tag_oids ".toList) ++
      (if q.keyword.isSome then "NATURAL JOIN tsv_oids t ".toList else []) ++
      "NATURAL JOIN hpssix_file f ".toList := by
  unfold selectText
  by_cases hcount : q.countonly = true <;> by_cases htags : q.tags = [] <;>
    by_cases hk : q.keyword.isSome = true <;>
    simp only [hcount, htags, hk, if_true, if_false, Bool.false_eq_true] <;>
    (repeat rw [String.toList_ofList]) <;> rfl

/-- **The buffer** is the text of the parts. -/
theorem sqlbuf_eq {q : SearchArgs} {buf : Text} (h : q.sqlbuf = some buf) :
    ∃ conds, q.fattr.conds = some conds ∧ buf = raws (q.parts conds) := by
  unfold SearchArgs.sqlbuf at h
  obtain ⟨tags, htags, h⟩ := Option.bind_eq_some_iff.mp h
  obtain ⟨sqlFattr, hfattr, h⟩ := Option.bind_eq_some_iff.mp h
  obtain ⟨sqlTags, hsqlTags, h⟩ := Option.bind_eq_some_iff.mp h
  obtain ⟨sqlTsv, hsqlTsv, h⟩ := Option.bind_eq_some_iff.mp h
  obtain ⟨predicate, hpredicate, h⟩ := Option.bind_eq_some_iff.mp
    (Option.ite_none_left_eq_some.mp h).2
  obtain ⟨t, ht, hsize⟩ := Option.bind_eq_some_iff.mp hfattr
  obtain ⟨conds, hconds, rfl⟩ := Option.map_eq_some_iff.mp ht
  obtain rfl := sprintf_eq_some hsize
  obtain rfl := tagConds_eq_some htags
  refine ⟨conds, hconds, ?_⟩
  have hblank : " ".toList = [' '] := by repeat rw [String.toList_ofList]
  have hlimit : limitText q.limit = " ".toList ++
      (if q.limit = 0 then [] else " LIMIT ".toList ++ decimal q.limit.toNat ++ ";".toList) := by
    rw [hblank]
    rfl
  have hnl : "\n".toList = ['\n'] := by repeat rw [String.toList_ofList]
  -- the blank moves from the end to the front of the select text, part by part
  have hend : selectText q ++ (raws (predicateParts q.name q.path) ++
      (raws (q.keyword.elim [] orderParts) ++ limitText q.limit)) = selectText q ++ " ".toList ++
        (predicate ++ (orderSql q.keyword ++
          (if q.limit = 0 then [] else " LIMIT ".toList ++ decimal q.limit.toNat ++ ";".toList))) := by
    rw [hlimit, ← List.append_assoc (raws (q.keyword.elim [] orderParts)), raws_order,
      List.append_assoc " ".toList, ← List.append_assoc (raws (predicateParts q.name q.path)),
      raws_predicateParts hpredicate, hblank, List.append_assoc (selectText q)]
    rfl
  rw [selectText_eq] at hend
  rw [← sprintf_eq_some h, SearchArgs.parts, raws_text, raws_append, raws_append, raws_append,
    raws_append, raws_append, raws_text, raws_text, raws_nil, raws_tagParts_of_sql hsqlTags,
    raws_tsvParts_of_sql hsqlTsv, List.append_nil, List.append_nil]
  simp only [List.append_assoc, List.map_eq_nil_iff] at hend ⊢
  rw [hend, hnl]
  rfl

end Hpssix
