import Hpssix.Base.Select
import Hpssix.FileFilter
import Hpssix.UserText

/-!
# Hpssix.CountSearch

The whole search of `hpssix-search`: the query that the statement is, what
PostgreSQL returns for it, and what is printed (`print_result`), with and without
`--count-only`.

How PostgreSQL finds and ranks words in documents is left open.

* `statement_eq_sql` — for plain texts the statement is the query;
* `count_agrees_iff` — counting agrees with listing exactly if there is no keyword.
-/

namespace Hpssix

open CText Sql SqlLexer Doubling

/-! ## the query -/

/-- A row of `hpssix_attr_document`. -/
structure DocumentRow (Tsv : Type) where
  oid : Oid
  tsv : Option Tsv

/-- The tables that a search reads. -/
structure SearchDb (Tsv : Type) extends Db where
  document : List (DocumentRow Tsv) := []

/-- A statement of `hpssix-search`. -/
structure SearchQuery where
  removed : Bool
  conds : CondArg → Option FattrCond
  tags : List KeyPred
  keyword : Option Text
  countonly : Bool
  filter : List LikeCond
  limit : UInt64

/-- How `tsv_oids` is written. -/
def tsvSql (keyword : Text) : Text :=
  "  tsv_oids (oid, tsv) AS\n    (SELECT oid, tsv FROM (SELECT oid, tsv FROM ".toList ++
    ("hpssix_attr_document, PLAINTO_TSQUERY(".toList ++ (quote keyword ++
      ") AS q WHERE (tsv @@ q)) t1)".toList))

/-- How the order is written. -/
def rankSql (keyword : Text) : Text :=
  "\nORDER BY TS_RANK_CD(t.tsv, PLAINTO_TSQUERY(".toList ++ (quote keyword ++ ")) DESC ".toList)

/-- What is selected. -/
def targetSql (countonly : Bool) : Text :=
  if countonly then "\nSELECT COUNT(f.path) FROM fattr_oids ".toList
  else "\nSELECT f.oid, f.path FROM fattr_oids ".toList

/-- How the statement is written. -/
def SearchQuery.sql (q : SearchQuery) : Text :=
  "\n".toList ++ getSqlFattr q.removed q.conds ++
    (if q.tags = [] then [] else ",\n".toList ++ querySql q.tags) ++
    q.keyword.elim [] (fun k => ",\n".toList ++ tsvSql k) ++
    targetSql q.countonly ++
    (if q.tags = [] then [] else "NATURAL JOIN tag_oids ".toList) ++
    (if q.keyword.isSome then "NATURAL JOIN tsv_oids t ".toList else []) ++
    "NATURAL JOIN hpssix_file f ".toList ++ whereSql q.filter ++ q.keyword.elim [] rankSql ++
    (if q.limit = 0 then [] else " LIMIT ".toList ++ decimal q.limit.toNat ++ ";".toList)

/-- A row of the joined tables. -/
structure FoundRow (Tsv : Type) where
  tsv : Option Tsv
  file : FileRow

section Query
variable {Tsv : Type} (tsMatch : Tsv → Text → Bool) (tsRankCd : Tsv → Text → Rat)

/-- `fattr_oids`. -/
def SearchQuery.fattrOids (q : SearchQuery) (db : Db) : List Oid :=
  (db.object.filter fun r => r.valid = !q.removed &&
    CondArg.all.all fun a => (q.conds a).all fun c => c.holds (r.column a)).map (·.oid)

/-- `fattr_oids NATURAL JOIN tag_oids`. -/
def SearchQuery.taggedOids (q : SearchQuery) (db : Db) : List Oid :=
  if q.tags = [] then q.fattrOids db
  else (naturalJoin id id (q.fattrOids db) (db.select q.tags)).map Prod.fst

/-- `tsv_oids`: a document without a vector does not match. -/
def tsvOids (keyword : Text) (db : SearchDb Tsv) : List (DocumentRow Tsv) :=
  db.document.filter fun d => d.tsv.any fun v => tsMatch v keyword

/-- `… NATURAL JOIN tsv_oids t`. -/
def SearchQuery.documentOids (q : SearchQuery) (db : SearchDb Tsv) : List (Oid × Option Tsv) :=
  match q.keyword with
  | none => (q.taggedOids db.toDb).map (·, none)
  | some k =>
    (naturalJoin id DocumentRow.oid (q.taggedOids db.toDb) (tsvOids tsMatch k db)).map fun p =>
      (p.1, p.2.tsv)

/-- `… NATURAL JOIN hpssix_file f`, with the `WHERE` clause. -/
def SearchQuery.rows (q : SearchQuery) (db : SearchDb Tsv) : List (FoundRow Tsv) :=
  ((naturalJoin Prod.fst FileRow.oid (q.documentOids tsMatch db) db.file).map fun p =>
    { tsv := p.1.2, file := p.2 }).filter fun r =>
      Truth.all (q.filter.map (LikeCond.holds r.file)) = some true

/-- What the statement means. -/
def SearchQuery.select (q : SearchQuery) (db : SearchDb Tsv) : Select (FoundRow Tsv) where
  rows := q.rows tsMatch db
  target :=
    if q.countonly then .count fun r => some r.file.path
    else .cells fun r => [decimal r.file.oid.val, r.file.path]
  order := q.keyword.map fun k =>
    { columns := ["t.tsv".toList], key := fun r => (r.tsv.map (tsRankCd · k)).getD 0 }
  limit := if q.limit = 0 then none else some q.limit.toNat

/-! ## the command -/

/-- The condition on a tag, as it is sent. -/
def TagCond.sentPred (cond : TagCond) : KeyPred where
  name := cond.tagName
  value :=
    match cond.op with
    | some (.cmp c) => .rvalCmp c (.lf cond.val1)
    | some .between => .rvalBetween (.lf cond.val1) (.lf cond.val2)
    | none => .svalLike (contains cond.tagVal)

/-- The query of a command, for its conditions on file attributes. -/
def SearchArgs.query (q : SearchArgs) (conds : CondArg → Option FattrCond) : SearchQuery where
  removed := q.fattr.removed
  conds := conds
  tags := q.tags.map fun t => t.cond.sentPred
  keyword := q.keyword
  countonly := q.countonly
  filter := (keptConds q.name q.path).map containsCond
  limit := q.limit

/-- `PQgetvalue`. -/
def pqGetvalue (res : List (List Text)) (i j : Nat) : Text := ((res[i]?.getD [])[j]?).getD []

/-- `print_result`, one text for each `fprintf`. -/
def printResult (countonly showino : Bool) (mountpoint : Text) (res : List (List Text)) : List Text :=
  if countonly then [pqGetvalue res 0 0 ++ ['\n']]
  else (List.range res.length).map fun i =>
    let ino := decimal (strtoull (pqGetvalue res i 0))
    (if showino then List.replicate (10 - ino.length) ' ' ++ ino ++ ": ".toList else []) ++
      mountpoint ++ pqGetvalue res i 1 ++ ['\n']

/-- PostgreSQL takes the statement and returns a result. -/
def SearchArgs.Returns (q : SearchArgs) (db : SearchDb Tsv) (res : List (List Text)) : Prop :=
  ∃ conds, q.fattr.conds = some conds ∧ q.statement = some (q.query conds).sql ∧
    ((q.query conds).select tsMatch tsRankCd db).Returns res

/-- The command succeeds and prints a list of texts. -/
def SearchArgs.Prints (q : SearchArgs) (showino : Bool) (mountpoint : Text) (db : SearchDb Tsv)
    (out : List Text) : Prop :=
  ∃ res, q.Returns tsMatch tsRankCd db res ∧ out = printResult q.countonly showino mountpoint res

end Query

/-! ## the statement is the query -/

/-- Text of the program is formatted to itself. -/
theorem double_bare {s : Text} (h : Bare s) : double (· = '%') s = s :=
  double_of_forall fun c hc => (h c hc).2

/-- Percent signs may be doubled before or after a text is quoted. -/
theorem double_quote (s : Text) : double (· = '%') (quote s) = quote (double (· = '%') s) := by
  have hend : double (· = '%') [quoteChar] = [quoteChar] := rfl
  rw [quote_eq, quote_eq, double_cons_of_neg (p := (· = '%')) (by decide), double_append, hend,
    double_comm (by rintro c rfl; decide)]

/-- A text without percent signs is not changed. -/
theorem double_of_not_mem {s : Text} (h : '%' ∉ s) : double (· = '%') s = s := by
  refine double_of_forall fun c hc heq => ?_
  exact h (heq ▸ hc)

/-- A literal of verbatim text. -/
theorem double_quote_verbatim {s : Text} (h : Verbatim s) :
    double (· = '%') (quote s) = quoteChar :: (s ++ [quoteChar]) := by
  rw [double_quote, double_of_not_mem h.2, quote_of_plain, List.cons_append]
  intro c hc heq
  exact h.1 (heq ▸ hc)

/-- The texts of a condition as they should be. -/
structure TagCond.Verbatim (cond : TagCond) : Prop where
  tagName : Hpssix.Verbatim cond.tagName
  tagVal : cond.op = none → Hpssix.Verbatim cond.tagVal

/-- A condition that is printed as it is has no quote. -/
theorem TagCond.Verbatim.unquoted {cond : TagCond} (h : cond.Verbatim) : cond.Unquoted :=
  ⟨h.tagName.1, fun hop => (h.tagVal hop).1⟩

/-- The pattern of a text without percent signs. -/
theorem double_contains {v : Text} (h : '%' ∉ v) :
    double (· = '%') (contains v) = "%%".toList ++ v ++ "%%".toList := by
  have hpercents : "%%".toList = ['%', '%'] := by rw [String.toList_ofList]
  have hend : double (· = '%') ['%'] = ['%', '%'] := rfl
  rw [contains, List.cons_append, double_cons_of_pos (p := (· = '%')) rfl, double_append,
    double_of_not_mem h, hend, hpercents]
  rfl

/-- The value part of a condition. -/
theorem double_valuePred {cond : TagCond} (h : cond.Verbatim) :
    double (· = '%') cond.sentPred.value.sql = cond.keyPred.value.sql := by
  unfold TagCond.sentPred TagCond.keyPred
  match hop : cond.op with
  | some (.cmp c) =>
      have hrval : Bare "rval ".toList := of_literal (by decide)
      have hopstr : Bare (opstr c) := by
        cases c <;> unfold opstr <;> rw [String.toList_ofList] <;> decide
      have hblank : Bare " ".toList := of_literal (by decide)
      show double (· = '%') ("rval ".toList ++ opstr c ++ " ".toList ++ Decimal.lf cond.val1) = _
      simp only [double_append, double_bare hrval, double_bare hopstr, double_bare hblank,
        double_bare (plain_lf cond.val1).1]
      rfl
  | some .between =>
      have hrval : Bare "rval BETWEEN ".toList := of_literal (by decide)
      have hand : Bare " AND ".toList := of_literal (by decide)
      show double (· = '%') ("rval BETWEEN ".toList ++ Decimal.lf cond.val1 ++ " AND ".toList ++
        Decimal.lf cond.val2) = _
      simp only [double_append, double_bare hrval, double_bare hand,
        double_bare (plain_lf cond.val1).1, double_bare (plain_lf cond.val2).1]
      rfl
  | none =>
      have hlike : Bare "sval LIKE ".toList := of_literal (by decide)
      show double (· = '%') ("sval LIKE ".toList ++ quote (contains cond.tagVal)) = _
      rw [double_append, double_bare hlike, double_quote, double_contains (h.tagVal hop).2]
      rfl

/-- The predicate that is sent, with its percent signs doubled, is the one that is written. -/
theorem double_keyPred {cond : TagCond} (h : cond.Verbatim) :
    double (· = '%') cond.sentPred.sql = cond.keyPred.sql := by
  have hopen : Bare "(kid=(SELECT kid FROM hpssix_attr_key WHERE name=".toList := of_literal (by decide)
  have hand : Bare ") AND ".toList := of_literal (by decide)
  have hclose : Bare ")".toList := of_literal (by decide)
  have hname : double (· = '%') cond.sentPred.name = cond.keyPred.name :=
    double_of_not_mem h.tagName.2
  unfold KeyPred.sql
  simp only [double_append, double_bare hopen, double_bare hand, double_bare hclose, double_quote,
    double_valuePred h, hname]

/-- So is the query on tags. -/
theorem double_querySql {conds : List TagCond} (h : ∀ c ∈ conds, c.Verbatim) :
    double (· = '%') (querySql (conds.map TagCond.sentPred)) =
      querySql (conds.map TagCond.keyPred) := by
  have hhead : Bare "  tag_oids (oid) AS\n    (SELECT oid FROM hpssix_attr_val".toList := of_literal (by decide)
  have hwhere : Bare " WHERE ".toList := of_literal (by decide)
  have hand : Bare " AND ".toList := of_literal (by decide)
  have hclose : Bare ")".toList := of_literal (by decide)
  have hrest : ∀ l : List TagCond, (∀ c ∈ l, c.Verbatim) →
      double (· = '%') ((l.map TagCond.sentPred).flatMap fun p => " AND ".toList ++ p.sql) =
        (l.map TagCond.keyPred).flatMap fun p => " AND ".toList ++ p.sql := by
    intro l hl
    induction l with
    | nil => rfl
    | cons c l ih =>
        simp only [List.map_cons, List.flatMap_cons, double_append, double_bare hand,
          double_keyPred (hl c List.mem_cons_self), ih fun d hd => hl d (List.mem_cons_of_mem c hd)]
  unfold querySql
  cases conds with
  | nil => simp only [List.map_nil, double_append, double_bare hhead, double_bare hclose, double_nil]
  | cons c cs =>
      simp only [List.map_cons, double_append, double_bare hhead, double_bare hwhere,
        double_bare hclose, double_keyPred (h c List.mem_cons_self),
        hrest cs fun d hd => h d (List.mem_cons_of_mem c hd)]

/-- The query on tags that was written. -/
theorem double_tags {tags : List TagArg} {sql : Text} (h : ∀ t ∈ tags, t.cond.Verbatim)
    (hsql : tagGetSql (tags.map TagArg.cond) = some sql) :
    double (· = '%') (if tags.map (fun t => t.cond.sentPred) = [] then []
      else ",\n".toList ++ querySql (tags.map fun t => t.cond.sentPred)) = sql := by
  have hcomma : Bare ",\n".toList := of_literal (by decide)
  have hconds : ∀ c ∈ tags.map TagArg.cond, c.Verbatim := List.forall_mem_map.mpr h
  have hmap : tags.map (fun t => t.cond.sentPred) = (tags.map TagArg.cond).map TagCond.sentPred := by
    rw [List.map_map]
    rfl
  rw [tagGetSql] at hsql
  by_cases hnil : tags = []
  · subst hnil
    exact Option.some.inj hsql
  · rw [if_neg (by simpa using hnil)] at hsql ⊢
    obtain ⟨t, ht, rfl⟩ := Option.map_eq_some_iff.mp hsql
    rw [double_append, double_bare hcomma, hmap, double_querySql hconds,
      ← tagSql_eq fun c hc => (hconds c hc).unquoted,
      Option.some.inj (Option.ite_none_right_eq_some.mp ht).2]

/-- The query on documents that was written. -/
theorem double_tsv {keyword : Option Text} {sql : Text} (h : ∀ k ∈ keyword, Verbatim k)
    (hsql : tsvGetSql keyword = some sql) :
    double (· = '%') (keyword.elim [] fun k => ",\n".toList ++ tsvSql k) = sql := by
  have hcomma : Bare ",\n".toList := of_literal (by decide)
  have hhead :
      Bare "  tsv_oids (oid, tsv) AS\n    (SELECT oid, tsv FROM (SELECT oid, tsv FROM ".toList := of_literal (by decide)
  have hopen : Bare "hpssix_attr_document, PLAINTO_TSQUERY(".toList := of_literal (by decide)
  have hend : Bare ") AS q WHERE (tsv @@ q)) t1)".toList := of_literal (by decide)
  have hopen' : "hpssix_attr_document, PLAINTO_TSQUERY('".toList =
      "hpssix_attr_document, PLAINTO_TSQUERY(".toList ++ [quoteChar] := by
    repeat rw [String.toList_ofList]
    rfl
  have hend' : "') AS q WHERE (tsv @@ q)) t1)".toList =
      quoteChar :: ") AS q WHERE (tsv @@ q)) t1)".toList := by
    repeat rw [String.toList_ofList]
    rfl
  cases keyword with
  | none => exact Option.some.inj hsql
  | some k =>
      obtain ⟨t, ht, rfl⟩ := Option.map_eq_some_iff.mp hsql
      show double (· = '%') (",\n".toList ++ tsvSql k) = _
      unfold hpssixSearchTsvGetSql at ht
      unfold tsvSql
      rw [← sprintf_eq_some ht]
      simp only [double_append, double_bare hcomma, double_bare hhead, double_bare hopen,
        double_bare hend, double_quote_verbatim (h k rfl), hopen', hend', List.append_assoc,
        List.cons_append, List.nil_append]

/-- The ranking that was written. -/
theorem double_order {keyword : Option Text} (h : ∀ k ∈ keyword, Verbatim k) :
    double (· = '%') (keyword.elim [] rankSql) = orderSql keyword := by
  have hopen : Bare "\nORDER BY TS_RANK_CD(t.tsv, PLAINTO_TSQUERY(".toList := of_literal (by decide)
  have hend : Bare ")) DESC ".toList := of_literal (by decide)
  have hopen' : "\nORDER BY TS_RANK_CD(t.tsv, PLAINTO_TSQUERY('".toList =
      "\nORDER BY TS_RANK_CD(t.tsv, PLAINTO_TSQUERY(".toList ++ [quoteChar] := by
    repeat rw [String.toList_ofList]
    rfl
  have hend' : "')) DESC ".toList = quoteChar :: ")) DESC ".toList := by
    repeat rw [String.toList_ofList]
    rfl
  cases keyword with
  | none => rfl
  | some k =>
      show double (· = '%') (rankSql k) = _
      unfold rankSql orderSql
      simp only [Option.elim_some, double_append, double_bare hopen, double_bare hend,
        double_quote_verbatim (h k rfl), hopen', hend', List.append_assoc, List.cons_append,
        List.nil_append]

/-- The predicates that were written. -/
theorem double_filter {name path : Option Text} {predicate : Text}
    (hname : ∀ n ∈ name, Escapable n) (hpath : ∀ p ∈ path, Escapable p)
    (h : getFilePredicate name path = some predicate) :
    double (· = '%') (whereSql ((keptConds name path).map containsCond)) = predicate := by
  have hkept : (keptConds name path).map (fun c => (c.1, double (· = '%') c.2)) =
      keptConds name path := by
    refine (List.map_congr_left fun c hc => ?_).trans (List.map_id _)
    have hpercent : '%' ∉ c.2 := by
      obtain ⟨⟨-, hn⟩ | ⟨-, hp⟩, -⟩ := mem_keptConds.mp hc
      · exact (hname _ hn).1
      · exact (hpath _ hp).1
    rw [double_of_not_mem hpercent]
    rfl
  rw [double_whereSql, hkept]
  rw [getFilePredicate_eq] at h
  split at h
  · next hnone =>
      rw [Option.isNone_iff_eq_none.mp hnone.1, Option.isNone_iff_eq_none.mp hnone.2]
      exact Option.some.inj h
  · exact Option.some.inj (Option.ite_none_left_eq_some.mp h).2

/-- What is selected is text of the program. -/
theorem double_targetSql (countonly : Bool) : double (· = '%') (targetSql countonly) = targetSql countonly := by
  refine double_bare ?_
  unfold targetSql
  repeat rw [String.toList_ofList]
  cases countonly <;> decide

/-- A limit has no percent sign. -/
theorem double_limit (limit : UInt64) :
    double (· = '%') (if limit = 0 then [] else " LIMIT ".toList ++ decimal limit.toNat ++ ";".toList) =
      if limit = 0 then [] else " LIMIT ".toList ++ decimal limit.toNat ++ ";".toList := by
  have hlimit : Bare " LIMIT ".toList := of_literal (by decide)
  have hend : Bare ";".toList := of_literal (by decide)
  split
  · rfl
  · simp only [double_append, double_bare hlimit, double_bare (plain_decimal _).1, double_bare hend]

/-- **The statement** of a command with plain texts is its query. -/
theorem statement_eq_sql {q : SearchArgs} (htexts : q.Texts Verbatim Escapable)
    (h : q.sqlbuf.isSome) : ∃ conds, q.fattr.conds = some conds ∧
      q.statement = some (q.query conds).sql := by
  obtain ⟨buf, hbuf⟩ := Option.isSome_iff_exists.mp h
  rw [SearchArgs.statement, hbuf, Option.bind_some]
  unfold SearchArgs.sqlbuf at hbuf
  obtain ⟨tags, htags, hbuf⟩ := Option.bind_eq_some_iff.mp hbuf
  obtain ⟨sqlFattr, hfattr, hbuf⟩ := Option.bind_eq_some_iff.mp hbuf
  obtain ⟨sqlTags, hsqlTags, hbuf⟩ := Option.bind_eq_some_iff.mp hbuf
  obtain ⟨sqlTsv, hsqlTsv, hbuf⟩ := Option.bind_eq_some_iff.mp hbuf
  obtain ⟨predicate, hpredicate, hbuf⟩ := Option.bind_eq_some_iff.mp
    (Option.ite_none_left_eq_some.mp hbuf).2
  obtain ⟨t, ht, hsize⟩ := Option.bind_eq_some_iff.mp hfattr
  obtain ⟨conds, hconds, rfl⟩ := Option.map_eq_some_iff.mp ht
  obtain rfl := sprintf_eq_some hsize
  obtain rfl := tagConds_eq_some htags
  refine ⟨conds, hconds, ?_⟩
  have hnewline : Bare "\n".toList := of_literal (by decide)
  have hfattrs : Bare (getSqlFattr q.fattr.removed conds) := fun c hc =>
    (fixed_getSqlFattr q.fattr.removed conds).1 c (List.mem_cons_of_mem _ hc)
  have htag : Bare "NATURAL JOIN tag_oids ".toList := of_literal (by decide)
  have htsv : Bare "NATURAL JOIN tsv_oids t ".toList := of_literal (by decide)
  have hfile : Bare "NATURAL JOIN hpssix_file f ".toList := of_literal (by decide)
  have hverbatim : ∀ t ∈ q.tags, t.cond.Verbatim := fun t ht =>
    ⟨(verbatim_tagName t).mpr (htexts.tagName t ht), htexts.tagVal t ht⟩
  have hnil : q.tags.map TagArg.cond = [] ↔ (q.query conds).tags = [] := by
    rw [List.map_eq_nil_iff]
    exact List.map_eq_nil_iff.symm
  have htags' : double (· = '%') (if (q.query conds).tags = [] then []
      else ",\n".toList ++ querySql (q.query conds).tags) = sqlTags :=
    double_tags hverbatim hsqlTags
  have hjoin : ∀ b : Prop, ∀ [Decidable b], ∀ s t : Text, double (· = '%') (if b then s else t) =
      if b then double (· = '%') s else double (· = '%') t := fun b _ s t =>
    apply_ite (double (· = '%')) b s t
  rw [vasprintf_eq_some_iff, ← sprintf_eq_some hbuf]
  unfold SearchQuery.sql
  rw [if_congr hnil rfl rfl]
  simp only [double_append]
  rw [htags', hjoin, hjoin, double_nil, double_bare htag, double_bare htsv, double_bare hnewline,
    double_bare hfile]
  show _ = _ ++ double _ (getSqlFattr q.fattr.removed conds) ++ _ ++ double _ (q.keyword.elim [] _) ++
    double _ (targetSql q.countonly) ++ _ ++ _ ++ _ ++
    double _ (whereSql ((keptConds q.name q.path).map containsCond)) ++
    double _ (q.keyword.elim [] _) ++ double _ (if (q.query conds).limit = 0 then [] else _)
  rw [double_bare hfattrs, double_tsv htexts.keyword hsqlTsv, double_targetSql,
    double_filter htexts.name htexts.path hpredicate, double_order htexts.keyword, double_limit]
  rfl

/-! ## counting -/

theorem isSome_bind_congr {α β γ : Type} {o : Option α} {f : α → Option β} {g : α → Option γ}
    (h : ∀ a, (f a).isSome = (g a).isSome) : (o.bind f).isSome = (o.bind g).isSome := by
  cases o with
  | none => rfl
  | some a => exact h a

/-- Whether a text fits depends on its length. -/
theorem isSome_sprintf_congr {size : Nat} {s t : Text} (h : s.length = t.length) :
    (sprintf size s).isSome = (sprintf size t).isSome := by
  unfold sprintf
  rw [h]
  split <;> rfl

/-- What is selected takes the same room. -/
theorem isSome_sqlbuf_countonly (q : SearchArgs) (b : Bool) :
    { q with countonly := b }.sqlbuf.isSome = q.sqlbuf.isSome := by
  have htarget : "\nSELECT COUNT(f.path) FROM fattr_oids ".toList.length =
      "\nSELECT f.oid, f.path FROM fattr_oids ".toList.length := by
    repeat rw [String.toList_ofList]
    rfl
  have hlength : ∀ c : Bool, (if c = true then "\nSELECT COUNT(f.path) FROM fattr_oids ".toList
      else "\nSELECT f.oid, f.path FROM fattr_oids ".toList).length =
      "\nSELECT f.oid, f.path FROM fattr_oids ".toList.length := by
    rintro (_ | _)
    · rfl
    · exact htarget
  unfold SearchArgs.sqlbuf
  refine isSome_bind_congr fun tags => isSome_bind_congr fun fattr => isSome_bind_congr fun t =>
    isSome_bind_congr fun tsv => ?_
  split
  · rfl
  · refine isSome_bind_congr fun predicate => isSome_sprintf_congr ?_
    simp only [List.length_append, hlength]

section Count
variable {Tsv : Type} {tsMatch : Tsv → Text → Bool} {tsRankCd : Tsv → Text → Rat}
variable {q : SearchArgs} {db : SearchDb Tsv} {res : List (List Text)} {out : List Text}
variable {showino : Bool} {mountpoint : Text}

/-- A search that returns has sent a statement. -/
theorem SearchArgs.Returns.isSome_sqlbuf (h : q.Returns tsMatch tsRankCd db res) :
    q.sqlbuf.isSome := by
  obtain ⟨conds, -, hstatement, -⟩ := h
  obtain ⟨buf, hbuf, -⟩ := Option.bind_eq_some_iff.mp hstatement
  rw [hbuf]
  rfl

/-- A command with plain texts returns what its query returns. -/
theorem returns_iff {conds : CondArg → Option FattrCond} (htexts : q.Texts Verbatim Escapable)
    (h : q.sqlbuf.isSome) (hconds : q.fattr.conds = some conds) :
    q.Returns tsMatch tsRankCd db res ↔
      ((q.query conds).select tsMatch tsRankCd db).Returns res := by
  obtain ⟨conds', hconds', hstatement⟩ := statement_eq_sql htexts h
  obtain rfl : conds = conds' := Option.some.inj (hconds.symm.trans hconds')
  constructor
  · rintro ⟨conds', hconds', -, hres⟩
    obtain rfl : conds = conds' := Option.some.inj (hconds.symm.trans hconds')
    exact hres
  · intro hres
    exact ⟨conds, hconds, hstatement, hres⟩

/-- What is found: files of the selected objects, with all the tags, a document that
matches and a path that is accepted. -/
theorem mem_rows {q : SearchQuery} {f : FileRow} : (∃ r ∈ q.rows tsMatch db, r.file = f) ↔
    f ∈ db.file ∧ f.oid ∈ q.fattrOids db.toDb ∧ (q.tags = [] ∨ f.oid ∈ db.select q.tags) ∧
      (∀ k ∈ q.keyword, ∃ d ∈ tsvOids tsMatch k db, d.oid = f.oid) ∧
      Truth.all (q.filter.map (LikeCond.holds f)) = some true := by
  have htagged : ∀ o : Oid, o ∈ q.taggedOids db.toDb ↔
      o ∈ q.fattrOids db.toDb ∧ (q.tags = [] ∨ o ∈ db.select q.tags) := by
    intro o
    unfold SearchQuery.taggedOids
    split
    · next hnil => simp [hnil]
    · next hne => simp [mem_naturalJoin, hne]
  have hdocument : ∀ o : Oid, (∃ v, (o, v) ∈ q.documentOids tsMatch db) ↔
      o ∈ q.taggedOids db.toDb ∧ ∀ k ∈ q.keyword, ∃ d ∈ tsvOids tsMatch k db, d.oid = o := by
    intro o
    unfold SearchQuery.documentOids
    cases q.keyword with
    | none => simp
    | some k =>
        simp only [List.mem_map, mem_naturalJoin, Prod.mk.injEq, Prod.exists, id_eq]
        constructor
        · rintro ⟨v, _, d, ⟨ho, hd, hkey⟩, rfl, -⟩
          refine ⟨ho, fun k' hk' => ?_⟩
          obtain rfl := Option.some.inj hk'
          exact ⟨d, hd, hkey.symm⟩
        · rintro ⟨ho, hall⟩
          obtain ⟨d, hd, hkey⟩ := hall k rfl
          exact ⟨d.tsv, o, d, ⟨ho, hd, hkey.symm⟩, rfl, rfl⟩
  rw [← and_assoc (a := f.oid ∈ _), ← htagged, ← and_assoc (a := f.oid ∈ _), ← hdocument]
  simp only [SearchQuery.rows, List.mem_filter, List.mem_map, mem_naturalJoin, Prod.exists,
    decide_eq_true_eq]
  constructor
  · rintro ⟨_, ⟨⟨o, v, g, ⟨ho, hg, hkey⟩, rfl⟩, hholds⟩, rfl⟩
    obtain rfl : o = g.oid := hkey
    exact ⟨hg, ⟨v, ho⟩, hholds⟩
  · rintro ⟨hf, ⟨v, ho⟩, hholds⟩
    exact ⟨⟨v, f⟩, ⟨⟨f.oid, v, f, ⟨ho, hf, rfl⟩, rfl⟩, hholds⟩, rfl⟩

/-- **Listing** prints the path of every row that is found, those that rank higher
first. -/
theorem prints_listing_iff {conds : CondArg → Option FattrCond}
    (htexts : q.Texts Verbatim Escapable) (hfits : q.sqlbuf.isSome)
    (hconds : q.fattr.conds = some conds) (hcount : q.countonly = false) (hlimit : q.limit = 0) :
    q.Prints tsMatch tsRankCd false mountpoint db out ↔
      ∃ rows : List (FoundRow Tsv), rows.Perm ((q.query conds).rows tsMatch db) ∧
        (∀ o ∈ ((q.query conds).select tsMatch tsRankCd db).order,
          rows.Pairwise fun a b => o.key b ≤ o.key a) ∧
        out = rows.map fun r => mountpoint ++ r.file.path ++ ['\n'] := by
  have htarget : ((q.query conds).select tsMatch tsRankCd db).target =
      .cells fun r => [decimal r.file.oid.val, r.file.path] :=
    if_neg (by simp [SearchArgs.query, hcount])
  have hlimited : ∀ l, ((q.query conds).select tsMatch tsRankCd db).limited l = l := by
    intro l
    have hnone : ((q.query conds).select tsMatch tsRankCd db).limit = none := if_pos hlimit
    rw [Select.limited, hnone, Option.elim_none]
  have hline : ∀ rows : List (FoundRow Tsv), printResult false false mountpoint
      (rows.map fun r => [decimal r.file.oid.val, r.file.path]) =
        rows.map fun r => mountpoint ++ r.file.path ++ ['\n'] := by
    intro rows
    refine List.ext_getElem (by simp [printResult]) fun i hi hi' => ?_
    simp at hi'
    simp [printResult, pqGetvalue, hi']
  simp only [SearchArgs.Prints, returns_iff htexts hfits hconds, hcount, Select.Returns, htarget,
    hlimited]
  constructor
  · rintro ⟨_, ⟨rows, hperm, horder, rfl⟩, rfl⟩
    exact ⟨rows, hperm, horder, hline rows⟩
  · rintro ⟨rows, hperm, horder, rfl⟩
    exact ⟨_, ⟨rows, hperm, horder, rfl⟩, (hline rows).symm⟩

/-- With a keyword the order mentions a column, so that nothing can be counted. -/
theorem not_prints_of_keyword (hcount : q.countonly = true) (hkeyword : q.keyword ≠ none) :
    ¬ q.Prints tsMatch tsRankCd showino mountpoint db out := by
  rintro ⟨res, ⟨conds, -, -, hres⟩, -⟩
  obtain ⟨k, hk⟩ := Option.ne_none_iff_exists'.mp hkeyword
  have htarget : ((q.query conds).select tsMatch tsRankCd db).target =
      .count fun r => some r.file.path := if_pos hcount
  unfold Select.Returns at hres
  rw [htarget] at hres
  have hcolumns := hres.1 _ (Option.mem_map_of_mem _ hk)
  exact absurd hcolumns (List.cons_ne_nil _ _)

/-- **Counting agrees with listing**, for a search without limit with alphanumeric
texts, exactly if there is no keyword. -/
theorem count_agrees_iff {listing : List Text} (htexts : q.Texts Alphanumeric Alphanumeric)
    (hlimit : q.limit = 0) (h : { q with countonly := false }.Prints tsMatch tsRankCd showino
      mountpoint db listing) :
    (∀ out, { q with countonly := true }.Prints tsMatch tsRankCd showino mountpoint db out ↔
      out = [decimal listing.length ++ ['\n']]) ↔ q.keyword = none := by
  constructor
  · intro hall
    by_contra hkeyword
    exact not_prints_of_keyword (q := { q with countonly := true }) rfl hkeyword ((hall _).mpr rfl)
  · intro hkeyword
    obtain ⟨res, hres, rfl⟩ := h
    have hbuf : { q with countonly := false }.sqlbuf.isSome := hres.isSome_sqlbuf
    obtain ⟨conds, hconds, -, hlist⟩ := hres
    have hplain : { q with countonly := true }.Texts Verbatim Escapable :=
      ⟨htexts.plain.tagName, htexts.plain.tagVal, htexts.plain.keyword, htexts.plain.name,
        htexts.plain.path⟩
    have hfits : { q with countonly := true }.sqlbuf.isSome :=
      (isSome_sqlbuf_countonly q true).trans ((isSome_sqlbuf_countonly q false).symm.trans hbuf)
    have hlimit' : (({ q with countonly := false }.query conds).select tsMatch tsRankCd db).limit =
        none := if_pos hlimit
    have horder : ∀ o ∈ (({ q with countonly := false }.query conds).select tsMatch tsRankCd db).order,
        o.columns = [] := by
      intro o ho
      obtain ⟨k, hk, -⟩ := Option.map_eq_some_iff.mp ho
      exact absurd (hkeyword.symm.trans hk) (Option.some_ne_none k).symm
    have hcounts := (Select.count_returns_iff (g := fun r : FoundRow Tsv => some r.file.path) rfl hlimit'
      (fun r _ => rfl) hlist).mpr horder
    have hreturns : ∀ res', { q with countonly := true }.Returns tsMatch tsRankCd db res' ↔
        res' = [[decimal res.length]] := fun res' =>
      (returns_iff hplain hfits hconds).trans (hcounts res')
    have hlength : (printResult false showino mountpoint res).length = res.length := by
      rw [printResult, if_neg Bool.false_ne_true, List.length_map, List.length_range]
    intro out
    rw [SearchArgs.Prints]
    simp only [hreturns, exists_eq_left, hlength]
    rfl

end Count

/-- A file with one document, whose vector is the list of its words. -/
def climateDb : SearchDb (List Text) where
  object := [{ toObjectCols := fileTenCols, valid := true }]
  file := [{ oid := .of 10, path := "/a".toList, name := "a".toList }]
  document := [{ oid := .of 10, tsv := some ["climate".toList] }]

/-- Two files whose names have an `a`, and one whose name has none. -/
def threeFilesDb : SearchDb (List Text) where
  object := [{ toObjectCols := fileTenCols, valid := true },
    { toObjectCols := { fileTenCols with oid := .of 11 }, valid := true },
    { toObjectCols := { fileTenCols with oid := .of 12 }, valid := true }]
  file := [{ oid := .of 10, path := "/a".toList, name := "a".toList },
    { oid := .of 11, path := "/b".toList, name := "b".toList },
    { oid := .of 12, path := "/b/ca".toList, name := "ca".toList }]

/-- The words are in the vector. -/
def hasWord (v : List Text) (k : Text) : Bool := v.contains k

/-- Two of three files have the name. -/
theorem count_agrees_iff_name :
    SearchArgs.Prints hasWord (fun _ _ => 1) { name := some "a".toList, countonly := true } false
      "/hpss".toList threeFilesDb ["2\n".toList] := by
  have htexts : SearchArgs.Texts Alphanumeric Alphanumeric { name := some "a".toList } :=
    { tagName := fun t ht => absurd ht List.not_mem_nil
      tagVal := fun t ht => absurd ht List.not_mem_nil
      keyword := fun k hk => absurd hk (Option.not_mem_none k)
      name := fun n hn => by
        obtain rfl := Option.some.inj hn
        rw [String.toList_ofList]
        exact List.all_eq_true.mp (by decide)
      path := fun p hp => absurd hp (Option.not_mem_none p) }
  have hlisting : SearchArgs.Prints hasWord (fun _ _ => 1) { name := some "a".toList } false
      "/hpss".toList threeFilesDb ["/hpss/a\n".toList, "/hpss/b/ca\n".toList] := by
    refine (prints_listing_iff htexts.plain (by decide +kernel) rfl rfl rfl).mpr ?_
    exact ⟨_, .refl _, fun o ho => absurd ho (Option.not_mem_none o), by decide +kernel⟩
  have htwo : decimal ["/hpss/a\n".toList, "/hpss/b/ca\n".toList].length ++ ['\n'] =
      "2\n".toList := by decide +kernel
  exact ((count_agrees_iff htexts rfl hlisting).mpr rfl _).mpr (congrArg (fun t => [t]) htwo.symm)

/-- The document is listed, but not counted. -/
theorem keyword_not_counted :
    ¬ ∀ (Tsv : Type) (tsMatch : Tsv → Text → Bool) (tsRankCd : Tsv → Text → Rat) (q : SearchArgs)
      (showino : Bool) (mountpoint : Text) (db : SearchDb Tsv) (listing : List Text),
      q.Texts Alphanumeric Alphanumeric → q.limit = 0 →
      { q with countonly := false }.Prints tsMatch tsRankCd showino mountpoint db listing →
      ∀ out, { q with countonly := true }.Prints tsMatch tsRankCd showino mountpoint db out ↔
        out = [decimal listing.length ++ ['\n']] := by
  intro h
  have htexts : (keywordArgs "climate".toList).Texts Alphanumeric Alphanumeric :=
    { tagName := fun t ht => absurd ht List.not_mem_nil
      tagVal := fun t ht => absurd ht List.not_mem_nil
      keyword := fun k hk => by
        obtain rfl := Option.some.inj hk
        rw [String.toList_ofList]
        exact List.all_eq_true.mp (by decide)
      name := fun n hn => absurd hn (Option.not_mem_none n)
      path := fun p hp => absurd hp (Option.not_mem_none p) }
  have hlisting : (keywordArgs "climate".toList).Prints hasWord (fun _ _ => 1) false
      "/hpss".toList climateDb ["/hpss/a\n".toList] := by
    refine (prints_listing_iff htexts.plain (by decide +kernel) rfl rfl rfl).mpr ?_
    refine ⟨[⟨some ["climate".toList], { oid := .of 10, path := "/a".toList, name := "a".toList }⟩],
      .of_eq ?_, fun o ho => List.pairwise_singleton _ _, ?_⟩
    · rfl
    · decide +kernel
  have hcount := (h _ _ _ _ _ _ _ _ htexts rfl hlisting _).mpr rfl
  exact not_prints_of_keyword (q := { keywordArgs "climate".toList with countonly := true }) rfl
    (Option.some_ne_none _) hcount

end Hpssix
