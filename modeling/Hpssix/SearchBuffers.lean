import Hpssix.Base.Double
import Hpssix.Base.Stores
import Hpssix.FattrQuery
import Hpssix.NumericOperands
import Hpssix.SearchStatement

/-!
# Hpssix.SearchBuffers

The stores of `hpssix-search` to its fixed buffers
(`utils/hpssix-search/src/hpssix-search.c`, `hpssix-search-tag.c` and
`hpssix-search-tsv.c`), for a command line that it accepts.

No store is checked.  Texts go behind one another with `sprintf`, and the buffers of the
queries are smaller than what their conditions may need.

* `search_stores_in_bounds_iff` — for which command lines all stores stay in their
  buffers;
* `isSome_sqlbuf_iff` — these are the command lines that there is a statement for.
-/

namespace Hpssix

open CText Fate Sql Stores Doubling Double

/-! ## the command line -/

/-- The argument of a `-T` option that `add_tag_cond` accepts, and what it reads there. -/
structure TagOption where
  str : Text
  name : Text
  val : Text
  parsed : ParsedOp
  read : addTagCondStr str = done (some (name, val, parsed))

namespace TagOption
variable (t : TagOption)

/-- `cond->op`; none for a search for text. -/
def op : Option CondOp := t.parsed.op.bind FattrOp.condOp

/-- `cond->tag_name`. -/
def tagName : Text := "user.hpssix.".toList ++ t.name

/-- What `%lf` prints for `cond->val1` and `cond->val2`. -/
def lf1 : Text := t.parsed.val1.elim (Decimal.lf 0) lfText

def lf2 : Text := t.parsed.val2.elim (Decimal.lf 0) lfText

end TagOption

/-- A command line that `main` accepts: the options, the conditions on file attributes that
come of them, and the predicate on the file. -/
structure SearchLine where
  fattr : FattrOptions
  conds : CondArg → Option FattrCond
  tags : List TagOption
  keyword : Option Text
  countonly : Bool
  limit : UInt64
  name : Option Text
  path : Option Text
  predicate : Text
  condsRead : fattr.conds = some conds
  oneType : (fattr.directoryOnly && fattr.fileOnly) = false
  escaped : getFilePredicate name path = some predicate

/-! ## the stores -/

/-- The objects that are written. -/
inductive Buffer where
  | tagConds
  | tagName (i : Nat)
  | sqlFattr
  | sqlTags
  | sqlTsv
  | sqlbuf
deriving DecidableEq

/-- The numbers of elements: `MAX_TAG_CONDS` conditions, and characters. -/
def Buffer.size : Buffer → Nat
  | .tagConds => 128
  | .tagName _ => 1024
  | .sqlFattr => 4096
  | .sqlTags => tagSqlbufSize
  | .sqlTsv => 8192
  | .sqlbuf => 2 ^ 20

/-- `add_tag_cond` for the options in turn, with `n_tag_conds`. -/
def addTagConds : Nat → List TagOption → List (Store Buffer)
  | _, [] => []
  | nTagConds, t :: ts =>
    ⟨.tagConds, nTagConds + 1⟩ :: print (.tagName nTagConds) 0 t.tagName ::
      addTagConds (nTagConds + 1) ts

/-- The calls of `sprintf` in `get_sql_fattr`. -/
def sqlFattrPieces (removed : Bool) (conds : CondArg → Option FattrCond) : List Text :=
  ("WITH\n  fattr_oids AS\n    (SELECT oid FROM hpssix_object WHERE valid=".toList ++
    (if removed then "false".toList else "true".toList)) ::
    CondArg.all.filterMap (fun a => (conds a).map fun c => c.sql a) ++ [")".toList]

/-- The calls of `write_numeric_predicate` and `write_string_predicate`. -/
def TagOption.pieces (t : TagOption) : List Text :=
  ["(kid=(SELECT kid FROM hpssix_attr_key WHERE name='".toList ++ t.tagName ++ "')".toList,
    match t.op with
    | some .between => " AND rval BETWEEN ".toList ++ t.lf1 ++ " AND ".toList ++ t.lf2 ++ ")".toList
    | some (.cmp c) => " AND rval ".toList ++ opstr c ++ " ".toList ++ t.lf1 ++ ")".toList
    | none => " AND sval LIKE '%%".toList ++ t.parsed.str ++ "%%')".toList]

/-- The calls of `get_sql_tag`. -/
def sqlTagPieces (tags : List TagOption) : List Text :=
  "  tag_oids (oid) AS\n    (SELECT oid FROM hpssix_attr_val".toList ::
    (tags.mapIdx fun i t => (if i = 0 then " WHERE ".toList else " AND ".toList) :: t.pieces).flatten ++
    [")".toList]

/-- The text of `hpssix_search_tsv_get_sql`. -/
def sqlTsvText (keyword : Text) : Text :=
  "  tsv_oids (oid, tsv) AS\n    (SELECT oid, tsv FROM (SELECT oid, tsv FROM ".toList ++
    "hpssix_attr_document, PLAINTO_TSQUERY('".toList ++ keyword ++
    "') AS q WHERE (tsv @@ q)) t1)".toList

namespace SearchLine
variable (q : SearchLine)

/-- The calls of `main`. -/
def pieces : List Text :=
  ("\n".toList ++ (sqlFattrPieces q.fattr.removed q.conds).flatten) ::
    (if q.tags = [] then [] else [",\n".toList ++ (sqlTagPieces q.tags).flatten]) ++
    q.keyword.elim [] (fun k => [",\n".toList ++ sqlTsvText k]) ++
    [if q.countonly then "\nSELECT COUNT(f.path) FROM fattr_oids ".toList
      else "\nSELECT f.oid, f.path FROM fattr_oids ".toList] ++
    (if q.tags = [] then [] else ["NATURAL JOIN tag_oids ".toList]) ++
    (if q.keyword.isSome then ["NATURAL JOIN tsv_oids t ".toList] else []) ++
    ["NATURAL JOIN hpssix_file f ".toList] ++
    (if q.name = none ∧ q.path = none then [] else [q.predicate]) ++
    q.keyword.elim [] (fun k => [orderSql (some k)]) ++
    (if q.limit = 0 then [] else [" LIMIT ".toList ++ decimal q.limit.toNat ++ ";".toList])

/-- All stores. -/
def stores : List (Store Buffer) :=
  addTagConds 0 q.tags ++ appends .sqlFattr 0 (sqlFattrPieces q.fattr.removed q.conds) ++
    (if q.tags = [] then [] else appends .sqlTags 0 (sqlTagPieces q.tags)) ++
    q.keyword.elim [] (fun k => [print .sqlTsv 0 (sqlTsvText k)]) ++
    appends .sqlbuf 0 q.pieces

end SearchLine

/-! ## what the texts need -/

/-- The length of a condition on a tag. -/
def TagOption.room (t : TagOption) : Nat :=
  64 + t.name.length +
    match t.op with
    | some .between => 24 + t.lf1.length + t.lf2.length
    | some (.cmp c) => 12 + (opstr c).length + t.lf1.length
    | none => 22 + t.parsed.str.length

def tagsRoom (tags : List TagOption) : Nat := 59 + (tags.map fun t => 5 + t.room).sum

/-- An escaped text has each quote twice. -/
def escapedRoom (s : Text) : Nat := s.length + s.countP fun c => c = quoteChar

def predicateRoom (name path : Option Text) : Nat :=
  match patternOf name, patternOf path with
  | some n, some p => 48 + escapedRoom n + escapedRoom p
  | some n, none => 25 + escapedRoom n
  | none, some p => 25 + escapedRoom p
  | none, none => 0

/-- The length of the statement. -/
def SearchLine.room (q : SearchLine) : Nat :=
  66 + fattrRoom q.fattr.removed q.conds + (if q.tags = [] then 0 else 24 + tagsRoom q.tags) +
    q.keyword.elim 0 (fun k => 221 + 2 * k.length) + predicateRoom q.name q.path +
    (if q.limit = 0 then 0 else 8 + (decimal q.limit.toNat).length)

/-- The command line leaves room for all its texts. -/
structure SearchLine.Fits (q : SearchLine) : Prop where
  tags : q.tags.length ≤ 128
  tagName : ∀ t ∈ q.tags, t.name.length < 1012
  sqlTags : q.tags ≠ [] → tagsRoom q.tags < 8192
  sqlTsv : ∀ k ∈ q.keyword, 141 + k.length < 8192
  sqlbuf : q.room < 2 ^ 20

/-! ## the lengths -/

theorem length_tagName (t : TagOption) : t.tagName.length = 12 + t.name.length := by
  have hprefix : "user.hpssix.".toList.length = 12 := by decide +kernel
  unfold TagOption.tagName
  simp only [List.length_append, hprefix]

/-- The pieces of the query on attributes are its text. -/
theorem flatten_sqlFattrPieces (removed : Bool) (conds : CondArg → Option FattrCond) :
    (sqlFattrPieces removed conds).flatten = getSqlFattr removed conds := by
  have hconds : (CondArg.all.filterMap fun a => (conds a).map fun c => c.sql a).flatten =
      CondArg.all.flatMap fun a => (conds a).elim [] fun c => c.sql a := by
    induction CondArg.all with
    | nil => rfl
    | cons a as ih =>
        rw [List.flatMap_cons, ← ih]
        cases h : conds a <;> simp [h]
  unfold sqlFattrPieces getSqlFattr
  rw [List.cons_append, List.flatten_cons, List.flatten_append, hconds]
  simp only [List.flatten_cons, List.flatten_nil, List.append_nil, List.append_assoc]

/-- The pieces of a tag option are as long as its room says. -/
theorem total_tagPieces (t : TagOption) : total t.pieces = t.room := by
  have hopen : "(kid=(SELECT kid FROM hpssix_attr_key WHERE name='".toList.length = 50 := by
    decide +kernel
  have hkey : "')".toList.length = 2 := by decide +kernel
  have hand : " AND ".toList.length = 5 := by decide +kernel
  have hclose : ")".toList.length = 1 := by decide +kernel
  unfold TagOption.pieces TagOption.room
  cases t.op with
  | none =>
      have hlike : " AND sval LIKE '%%".toList.length = 18 := by decide +kernel
      have hend : "%%')".toList.length = 4 := by decide +kernel
      simp only [total_cons, total_nil, List.length_append, length_tagName, hopen, hkey, hlike, hend]
      omega
  | some op =>
      cases op with
      | between =>
          have hbetween : " AND rval BETWEEN ".toList.length = 18 := by decide +kernel
          simp only [total_cons, total_nil, List.length_append, length_tagName, hopen, hkey,
            hbetween, hand, hclose]
          omega
      | cmp c =>
          have hrval : " AND rval ".toList.length = 10 := by decide +kernel
          have hblank : " ".toList.length = 1 := by decide +kernel
          simp only [total_cons, total_nil, List.length_append, length_tagName, hopen, hkey, hrval,
            hblank, hclose]
          omega

/-- So are those of all tag options. -/
theorem total_sqlTagPieces {tags : List TagOption} (hne : tags ≠ []) :
    total (sqlTagPieces tags) = tagsRoom tags := by
  obtain ⟨t, ts, rfl⟩ := List.exists_cons_of_ne_nil hne
  have hhead : "  tag_oids (oid) AS\n    (SELECT oid FROM hpssix_attr_val".toList.length = 56 := by
    decide +kernel
  have hwhere : " WHERE ".toList.length = 7 := by decide +kernel
  have hand : " AND ".toList.length = 5 := by decide +kernel
  have hclose : ")".toList.length = 1 := by decide +kernel
  -- all conditions but the first are behind an `AND`
  have hrest : total (ts.mapIdx fun i t =>
      (if i + 1 = 0 then " WHERE ".toList else " AND ".toList) :: t.pieces).flatten =
      (ts.map fun t => 5 + t.room).sum := by
    clear hne
    induction ts with
    | nil => rfl
    | cons t ts ih =>
        simp only [Nat.add_eq_zero_iff, one_ne_zero, and_false, if_false] at ih ⊢
        rw [List.mapIdx_cons, List.flatten_cons, total_append, total_cons, hand, total_tagPieces, ih,
          List.map_cons, List.sum_cons]
  unfold sqlTagPieces tagsRoom
  simp only [List.mapIdx_cons, List.flatten_cons, total_append, total_cons, total_nil, if_true,
    List.cons_append, hhead, hwhere, hclose, hrest, total_tagPieces, List.map_cons, List.sum_cons]
  omega

theorem length_sqlTsvText (k : Text) : (sqlTsvText k).length = 141 + k.length := by
  have hopen : "  tsv_oids (oid, tsv) AS\n    (SELECT oid, tsv FROM (SELECT oid, tsv FROM ".toList.length =
      73 := by decide +kernel
  have hquery : "hpssix_attr_document, PLAINTO_TSQUERY('".toList.length = 39 := by decide +kernel
  have hclose : "') AS q WHERE (tsv @@ q)) t1)".toList.length = 29 := by decide +kernel
  unfold sqlTsvText
  simp only [List.length_append, hopen, hquery, hclose]
  omega

theorem length_likePattern (s : Text) :
    (likePattern (double (· = quoteChar) s)).length = 12 + escapedRoom s := by
  have hopen : "LIKE '%%".toList.length = 8 := by decide +kernel
  have hclose : "%%' ".toList.length = 4 := by decide +kernel
  unfold likePattern escapedRoom
  simp only [List.length_append, hopen, hclose, length_double]
  omega

/-- The predicate on names and paths is as long as its room says. -/
theorem length_predicate {name path : Option Text} {sql : Text}
    (h : getFilePredicate name path = some sql) : sql.length = predicateRoom name path := by
  have hname : "WHERE f.name ".toList.length = 13 := by decide +kernel
  have hpath : "WHERE f.path ".toList.length = 13 := by decide +kernel
  have hand : "AND f.path ".toList.length = 11 := by decide +kernel
  unfold getFilePredicate at h
  simp only [bind_removeSingleQuote] at h
  unfold predicateRoom
  split at h
  · obtain rfl := Option.some.inj h
    rfl
  · cases hn : patternOf name with
    | none =>
        cases hp : patternOf path with
        | none => simp [hn, hp] at h
        | some p =>
            simp only [hn, hp, Option.map_none, Option.map_some, Option.some.injEq] at h
            subst h
            simp only [List.length_append, hpath, length_likePattern]
            omega
    | some n =>
        cases hp : patternOf path with
        | none =>
            simp only [hn, hp, Option.map_none, Option.map_some, Option.some.injEq] at h
            subst h
            simp only [List.length_append, hname, length_likePattern]
            omega
        | some p =>
            simp only [hn, hp, Option.map_some, Option.some.injEq] at h
            subst h
            simp only [List.length_append, hname, hand, length_likePattern]
            omega

theorem length_orderSql (k : Text) : (orderSql (some k)).length = 54 + k.length := by
  have hopen : "\nORDER BY TS_RANK_CD(t.tsv, PLAINTO_TSQUERY('".toList.length = 45 := by decide +kernel
  have hclose : "')) DESC ".toList.length = 9 := by decide +kernel
  show ("\nORDER BY TS_RANK_CD(t.tsv, PLAINTO_TSQUERY('".toList ++ k ++ "')) DESC ".toList).length = _
  simp only [List.length_append, hopen, hclose]
  omega

/-- The whole statement is as long as its room says. -/
theorem total_pieces (q : SearchLine) : total q.pieces = q.room := by
  have hnl : "\n".toList.length = 1 := by decide +kernel
  have hcomma : ",\n".toList.length = 2 := by decide +kernel
  have hselect : (if q.countonly then "\nSELECT COUNT(f.path) FROM fattr_oids ".toList
      else "\nSELECT f.oid, f.path FROM fattr_oids ".toList).length = 38 := by
    cases q.countonly <;> decide +kernel
  have hjoin : "NATURAL JOIN tag_oids ".toList.length = 22 := by decide +kernel
  have hjoin' : "NATURAL JOIN tsv_oids t ".toList.length = 24 := by decide +kernel
  have hfile : "NATURAL JOIN hpssix_file f ".toList.length = 27 := by decide +kernel
  have hlimit : " LIMIT ".toList.length = 7 := by decide +kernel
  have hend : ";".toList.length = 1 := by decide +kernel
  -- the parts that are there for some command lines only
  have htags : total (if q.tags = [] then [] else [",\n".toList ++ (sqlTagPieces q.tags).flatten]) +
      total (if q.tags = [] then [] else ["NATURAL JOIN tag_oids ".toList]) =
      if q.tags = [] then 0 else 24 + tagsRoom q.tags := by
    by_cases h : q.tags = []
    · simp only [if_pos h, total_nil]
    · simp only [if_neg h, total_cons, total_nil, List.length_append, hcomma, hjoin,
        total_flatten, total_sqlTagPieces h]
      omega
  have hkeyword : total (q.keyword.elim [] fun k => [",\n".toList ++ sqlTsvText k]) +
      total (if q.keyword.isSome then ["NATURAL JOIN tsv_oids t ".toList] else []) +
      total (q.keyword.elim [] fun k => [orderSql (some k)]) =
      q.keyword.elim 0 fun k => 221 + 2 * k.length := by
    cases q.keyword with
    | none => rfl
    | some k =>
        simp only [Option.elim_some, Option.isSome_some, if_true, total_cons, total_nil,
          List.length_append, hcomma, hjoin', length_sqlTsvText, length_orderSql]
        omega
  have hpredicate : total (if q.name = none ∧ q.path = none then [] else [q.predicate]) =
      predicateRoom q.name q.path := by
    split
    · next h =>
        rw [h.1, h.2]
        rfl
    · rw [total_cons, total_nil, length_predicate q.escaped, add_zero]
  have hend : total (if q.limit = 0 then []
      else [" LIMIT ".toList ++ decimal q.limit.toNat ++ ";".toList]) =
      if q.limit = 0 then 0 else 8 + (decimal q.limit.toNat).length := by
    split
    · rfl
    · simp only [total_cons, total_nil, List.length_append, hlimit, hend]
      omega
  unfold SearchLine.pieces SearchLine.room
  simp only [total_append, total_cons, total_nil, List.length_append, List.cons_append, hnl, hselect,
    hfile, flatten_sqlFattrPieces, length_getSqlFattr_eq]
  omega

/-! ## bounds -/

theorem sqlFattrPieces_ne_nil (removed : Bool) (conds : CondArg → Option FattrCond) :
    sqlFattrPieces removed conds ≠ [] := List.cons_ne_nil _ _

theorem sqlTagPieces_ne_nil (tags : List TagOption) : sqlTagPieces tags ≠ [] :=
  List.cons_ne_nil _ _

theorem pieces_ne_nil (q : SearchLine) : q.pieces ≠ [] := by
  unfold SearchLine.pieces
  simp only [List.cons_append]
  exact List.cons_ne_nil _ _

/-- Each option needs an element of `tag_conds`, and room for the name in it. -/
theorem addTagConds_inBounds_iff (n : Nat) (tags : List TagOption) :
    (∀ s ∈ addTagConds n tags, s.InBounds Buffer.size) ↔
      tags.length ≤ 128 - n ∧ ∀ t ∈ tags, t.name.length < 1012 := by
  induction tags generalizing n with
  | nil => simp [addTagConds]
  | cons t ts ih =>
      have hindex : (⟨.tagConds, n + 1⟩ : Store Buffer).InBounds Buffer.size ↔ n + 1 ≤ 128 := Iff.rfl
      have hname : (print (.tagName n) 0 t.tagName).InBounds Buffer.size ↔ t.name.length < 1012 := by
        rw [print_inBounds_iff, length_tagName, Buffer.size]
        omega
      rw [addTagConds, List.forall_mem_cons, List.forall_mem_cons, List.forall_mem_cons, ih, hindex,
        hname, List.length_cons]
      constructor
      · rintro ⟨hn, ht, hlen, hts⟩
        exact ⟨by omega, ht, hts⟩
      · rintro ⟨hlen, ht, hts⟩
        exact ⟨by omega, ht, by omega, hts⟩

/-- The conditions on file attributes always fit. -/
theorem sqlFattr_inBounds (removed : Bool) (conds : CondArg → Option FattrCond) :
    ∀ s ∈ appends Buffer.sqlFattr 0 (sqlFattrPieces removed conds), s.InBounds Buffer.size := by
  have hlen := length_getSqlFattr removed conds
  rw [appends_inBounds_iff (sqlFattrPieces_ne_nil _ _), ← total_flatten, flatten_sqlFattrPieces,
    Buffer.size]
  omega

/-- The query on tags stays inside its buffer exactly if its room fits. -/
theorem sqlTags_inBounds_iff (tags : List TagOption) :
    (∀ s ∈ if tags = [] then [] else appends Buffer.sqlTags 0 (sqlTagPieces tags),
      s.InBounds Buffer.size) ↔ (tags ≠ [] → tagsRoom tags < 8192) := by
  by_cases h : tags = []
  · simp [h]
  · rw [if_neg h, appends_inBounds_iff (sqlTagPieces_ne_nil _), total_sqlTagPieces h, Buffer.size,
      tagSqlbufSize]
    simp [h]

/-- The query on documents stays inside its buffer exactly if the keyword leaves room. -/
theorem sqlTsv_inBounds_iff (keyword : Option Text) :
    (∀ s ∈ keyword.elim [] fun k => [print Buffer.sqlTsv 0 (sqlTsvText k)],
      s.InBounds Buffer.size) ↔ ∀ k ∈ keyword, 141 + k.length < 8192 := by
  cases keyword with
  | none => simp
  | some k =>
      have hprint : (print Buffer.sqlTsv 0 (sqlTsvText k)).InBounds Buffer.size ↔
          141 + k.length < 8192 := by
        rw [print_inBounds_iff, length_sqlTsvText, Buffer.size, zero_add]
      simp [hprint]

/-- **The buffers**: all stores stay in their objects exactly if there are no more than 128
tags, each name fits, the texts for tags and for the keyword fit their buffers, and the
statement fits its own. -/
theorem search_stores_in_bounds_iff (q : SearchLine) :
    (∀ s ∈ q.stores, s.InBounds Buffer.size) ↔ q.Fits := by
  have hsqlbuf : (∀ s ∈ appends Buffer.sqlbuf 0 q.pieces, s.InBounds Buffer.size) ↔
      q.room < 2 ^ 20 := by
    rw [appends_inBounds_iff (pieces_ne_nil q), total_pieces, Buffer.size, zero_add]
  rw [SearchLine.stores, List.forall_mem_append, List.forall_mem_append, List.forall_mem_append,
    List.forall_mem_append, addTagConds_inBounds_iff, sqlTags_inBounds_iff, sqlTsv_inBounds_iff,
    hsqlbuf]
  constructor
  · rintro ⟨⟨⟨⟨⟨hcount, hname⟩, -⟩, htags⟩, htsv⟩, hroom⟩
    exact ⟨hcount, hname, htags, htsv, hroom⟩
  · rintro ⟨hcount, hname, htags, htsv, hroom⟩
    exact ⟨⟨⟨⟨⟨hcount, hname⟩, sqlFattr_inBounds _ _⟩, htags⟩, htsv⟩, hroom⟩

/-- `--tag=a:b`. -/
def tagAb : TagOption where
  str := [ 'a', ':', 'b' ]
  name := [ 'a' ]
  val := [ 'b' ]
  parsed := { op := none, str := [ 'b' ] }
  read := by decide +kernel

/-- The same tag, again and again. -/
def repeatedTag (n : Nat) : SearchLine where
  fattr := {}
  conds := fun _ => none
  tags := List.replicate n tagAb
  keyword := none
  countonly := false
  limit := 0
  name := none
  path := none
  predicate := []
  condsRead := rfl
  oneType := rfl
  escaped := rfl

/-- The 129th tag is stored behind `tag_conds`. -/
theorem tag_conds_overrun : ¬ ∀ q : SearchLine, ∀ s ∈ q.stores, s.InBounds Buffer.size := by
  intro h
  have hmem : ∀ s ∈ addTagConds 0 (repeatedTag 129).tags, s ∈ (repeatedTag 129).stores := by
    intro s hs
    simp only [SearchLine.stores, List.append_assoc]
    exact List.mem_append_left _ hs
  have hbound := (addTagConds_inBounds_iff 0 (repeatedTag 129).tags).mp fun s hs =>
    h (repeatedTag 129) s (hmem s hs)
  have hcount : (repeatedTag 129).tags.length = 129 := List.length_replicate
  omega

/-! ## the statement -/

/-- A condition of the statement is the one of an option. -/
structure TagOption.Describes (t : TagOption) (a : TagArg) : Prop where
  name : a.name = t.name
  op : a.op = t.op
  val : t.op = none → a.val = t.parsed.str
  val1 : t.op ≠ none → Decimal.lf a.val1 = t.lf1
  val2 : t.op = some .between → Decimal.lf a.val2 = t.lf2

/-- The arguments of a statement are those of a command line. -/
structure SearchLine.Describes (q : SearchLine) (a : SearchArgs) : Prop where
  fattr : a.fattr = q.fattr
  tags : List.Forall₂ TagOption.Describes q.tags a.tags
  keyword : a.keyword = q.keyword
  countonly : a.countonly = q.countonly
  limit : a.limit = q.limit
  name : a.name = q.name
  path : a.path = q.path

theorem TagOption.Describes.tagName {t : TagOption} {a : TagArg} (h : t.Describes a) :
    a.cond.tagName = t.tagName := by
  unfold TagArg.cond addTagCond TagOption.tagName
  rw [h.name]

/-- Options that are described have the names of their descriptions. -/
theorem map_tagName {ts : List TagOption} {as : List TagArg}
    (h : List.Forall₂ TagOption.Describes ts as) :
    as.map (fun a => a.cond.tagName) = ts.map TagOption.tagName := by
  induction h with
  | nil => rfl
  | cons ht _ ih => rw [List.map_cons, List.map_cons, ih, ht.tagName]

/-- The pieces of a tag option are its predicate. -/
theorem flatten_tagPieces {t : TagOption} {a : TagArg} (h : t.Describes a) :
    t.pieces.flatten = writePredicate a.cond := by
  have hkey : writeKey a.cond =
      "(kid=(SELECT kid FROM hpssix_attr_key WHERE name='".toList ++ t.tagName ++ "')".toList := by
    unfold writeKey
    rw [h.tagName]
  have hcond : a.cond.op = t.op ∧ a.cond.tagVal = a.val ∧ a.cond.val1 = a.val1 ∧
      a.cond.val2 = a.val2 := ⟨h.op, rfl, rfl, rfl⟩
  obtain ⟨hop, hval, hval1, hval2⟩ := hcond
  unfold TagOption.pieces writePredicate
  rw [hop]
  cases ht : t.op with
  | none =>
      simp only [List.flatten_cons, List.flatten_nil, List.append_nil, List.append_assoc,
        writeStringPredicate, hkey, hval, h.val ht]
  | some op =>
      have hne : t.op ≠ none := by simp [ht]
      cases op with
      | between =>
          simp only [List.flatten_cons, List.flatten_nil, List.append_nil, List.append_assoc,
            writeNumericPredicate, hkey, hval1, hval2, h.val1 hne, h.val2 ht]
      | cmp c =>
          simp only [List.flatten_cons, List.flatten_nil, List.append_nil, List.append_assoc,
            writeNumericPredicate, hkey, hval1, h.val1 hne]

/-- Pieces behind a word that depends on the position. -/
theorem flatten_mapIdx {α β : Type} {ts : List α} {cs : List β} {f : α → List Text} {g : β → Text}
    (word : Nat → Text) (h : cs.map g = ts.map fun t => (f t).flatten) :
    (ts.mapIdx fun i t => word i :: f t).flatten.flatten =
      (cs.mapIdx fun i c => word i ++ g c).flatten := by
  have hlen : cs.length = ts.length := by simpa using congrArg List.length h
  rw [List.flatten_flatten]
  congr 1
  refine List.ext_getElem (by simp [hlen]) fun i hi hi' => ?_
  rw [List.length_mapIdx] at hi'
  have hget := @List.getElem_of_eq _ _ _ h i (by simpa using hi')
  rw [List.getElem_map, List.getElem_map] at hget
  rw [List.getElem_map, List.getElem_mapIdx, List.getElem_mapIdx, List.flatten_cons, hget]

/-- The pieces of all tag options are the query on tags. -/
theorem flatten_sqlTagPieces {ts : List TagOption} {as : List TagArg}
    (h : List.Forall₂ TagOption.Describes ts as) :
    (sqlTagPieces ts).flatten = tagSql (as.map TagArg.cond) := by
  have hmap : (as.map TagArg.cond).map writePredicate = ts.map fun t => t.pieces.flatten := by
    rw [List.map_map]
    induction h with
    | nil => rfl
    | cons ht _ ih => rw [List.map_cons, List.map_cons, ih, flatten_tagPieces ht, Function.comp]
  unfold sqlTagPieces tagSql
  rw [List.cons_append, List.flatten_cons, List.flatten_append, List.flatten_singleton,
    List.append_assoc, flatten_mapIdx (fun i => if i = 0 then " WHERE ".toList else " AND ".toList) hmap]

/-- A step that gives up unless something holds, and the rest. -/
theorem isSome_ite_bind {α β : Type} {p : Prop} [Decidable p] {x : α} {f : α → Option β} :
    ((if p then some x else none).bind f).isSome ↔ p ∧ (f x).isSome := by
  by_cases h : p <;> simp [h]

/-- The conditions are read if there are at most 128 and each name fits. -/
theorem tagConds_eq (tags : List TagArg) :
    tagConds tags =
      if tags.length ≤ 128 ∧ ∀ t ∈ tags, t.cond.tagName.length < 1024 then
        some (tags.map TagArg.cond)
      else none := by
  have hmap : (tags.mapM fun t => (sprintf 1024 t.cond.tagName).map fun _ => t.cond) =
      if ∀ t ∈ tags, t.cond.tagName.length < 1024 then some (tags.map TagArg.cond) else none := by
    refine Rel.mapM_eq_ite fun t _ => ?_
    unfold sprintf
    split <;> rfl
  rw [tagConds, hmap]
  by_cases h : tags.length ≤ 128
  · simp only [h, true_and, if_true]
  · rw [if_neg h, if_neg fun h' => h h'.1]

/-- The query on tags is written if it fits. -/
theorem tagGetSql_eq (conds : List TagCond) :
    tagGetSql conds =
      if conds ≠ [] → (tagSql conds).length < 8192 then
        some (if conds = [] then [] else ",\n".toList ++ tagSql conds)
      else none := by
  unfold tagGetSql getSqlTag tagSqlbufSize
  by_cases h : conds = []
  · simp [h]
  · by_cases hlen : (tagSql conds).length < 8192
    · simp only [if_neg h, if_pos hlen, Option.map_some, if_pos fun _ : conds ≠ [] => hlen]
    · rw [if_neg h, if_neg hlen, if_neg fun h' => hlen (h' h), Option.map_none]

/-- The query on documents is written if it fits. -/
theorem tsvGetSql_eq (keyword : Option Text) :
    tsvGetSql keyword =
      if ∀ k ∈ keyword, (sqlTsvText k).length < 8192 then
        some (keyword.elim [] fun k => ",\n".toList ++ sqlTsvText k)
      else none := by
  cases keyword with
  | none => exact (if_pos (by simp)).symm
  | some k =>
      have htext : hpssixSearchTsvGetSql k = sprintf 8192 (sqlTsvText k) := rfl
      rw [tsvGetSql, Option.elim_some, Option.elim_some, htext, sprintf]
      by_cases hlen : (sqlTsvText k).length < 8192
      · rw [if_pos hlen, if_pos (by simpa using hlen), Option.map_some]
      · rw [if_neg hlen, if_neg fun h => hlen (h k rfl), Option.map_none]

theorem isSome_sprintf_iff {size : Nat} {s : Text} : (sprintf size s).isSome ↔ s.length < size := by
  unfold sprintf
  by_cases h : s.length < size <;> simp [h]

/-- What `main` prints is the buffer of the statement. -/
theorem flatten_pieces {q : SearchLine} {a : SearchArgs} (h : q.Describes a) :
    q.pieces.flatten = "\n".toList ++ getSqlFattr q.fattr.removed q.conds ++
      (if a.tags.map TagArg.cond = [] then []
        else ",\n".toList ++ tagSql (a.tags.map TagArg.cond)) ++
      (a.keyword.elim [] fun k => ",\n".toList ++ sqlTsvText k) ++
      (if a.countonly then "\nSELECT COUNT(f.path) FROM fattr_oids ".toList
        else "\nSELECT f.oid, f.path FROM fattr_oids ".toList) ++
      (if a.tags.map TagArg.cond = [] then [] else "NATURAL JOIN tag_oids ".toList) ++
      (if a.keyword.isSome then "NATURAL JOIN tsv_oids t ".toList else []) ++
      "NATURAL JOIN hpssix_file f ".toList ++ q.predicate ++ orderSql a.keyword ++
      (if a.limit = 0 then [] else " LIMIT ".toList ++ decimal a.limit.toNat ++ ";".toList) := by
  have hnil : a.tags.map TagArg.cond = [] ↔ q.tags = [] := by
    rw [List.map_eq_nil_iff, ← List.length_eq_zero_iff, ← List.length_eq_zero_iff,
      h.tags.length_eq]
  have hpredicate : (if q.name = none ∧ q.path = none then [] else q.predicate) = q.predicate := by
    split
    · next hnone =>
        have hescaped := q.escaped
        rw [hnone.1, hnone.2] at hescaped
        exact Option.some.inj hescaped
    · rfl
  have hone : ∀ (p : Prop) [Decidable p] (s : Text),
      (if p then [] else [s]).flatten = if p then [] else s := by
    intro p _ s
    split
    · rfl
    · rw [List.flatten_singleton]
  have helim : ∀ f : Text → Text, (q.keyword.elim [] fun k => [f k]).flatten = q.keyword.elim [] f := by
    intro f
    cases q.keyword with
    | none => rfl
    | some k => exact List.flatten_singleton
  have hjoin : (if q.keyword.isSome then ["NATURAL JOIN tsv_oids t ".toList] else []).flatten =
      if q.keyword.isSome then "NATURAL JOIN tsv_oids t ".toList else [] := by
    cases q.keyword with
    | none => rfl
    | some k => exact List.flatten_singleton
  have horder : (q.keyword.elim [] fun k => orderSql (some k)) = orderSql q.keyword := by
    cases q.keyword <;> rfl
  unfold SearchLine.pieces
  simp only [hnil, h.keyword, h.countonly, h.limit, List.flatten_append, List.cons_append,
    List.flatten_cons, List.nil_append, hone, helim, hjoin, horder, hpredicate,
    flatten_sqlFattrPieces, flatten_sqlTagPieces h.tags, List.append_assoc]

/-- **The statement** is there exactly where the stores stay in their buffers. -/
theorem isSome_sqlbuf_iff {q : SearchLine} {a : SearchArgs} (h : q.Describes a) :
    a.sqlbuf.isSome ↔ q.Fits := by
  have hfattr : a.fattr.sql.bind (sprintf 4096) = some (getSqlFattr q.fattr.removed q.conds) := by
    rw [h.fattr, FattrOptions.sql, q.condsRead, Option.map_some, Option.bind_some, sprintf,
      if_pos (length_getSqlFattr _ _)]
  have hescaped : getFilePredicate a.name a.path = some q.predicate := by
    rw [h.name, h.path, q.escaped]
  have htype : ¬ (a.fattr.directoryOnly && a.fattr.fileOnly) = true := by
    rw [h.fattr, q.oneType]
    exact Bool.false_ne_true
  have hne : a.tags.map TagArg.cond ≠ [] ↔ q.tags ≠ [] := by
    rw [Ne, Ne, List.map_eq_nil_iff, ← List.length_eq_zero_iff, ← List.length_eq_zero_iff,
      h.tags.length_eq]
  have hname : (∀ t ∈ a.tags, t.cond.tagName.length < 1024) ↔ ∀ t ∈ q.tags, t.name.length < 1012 := by
    have hall : (∀ n ∈ a.tags.map fun t => t.cond.tagName, n.length < 1024) ↔
        ∀ n ∈ q.tags.map TagOption.tagName, n.length < 1024 := by
      rw [map_tagName h.tags]
    rw [List.forall_mem_map, List.forall_mem_map] at hall
    rw [hall]
    refine forall₂_congr fun t _ => ?_
    rw [length_tagName]
    omega
  have hlen := congrArg List.length (flatten_pieces h)
  rw [total_flatten, total_pieces] at hlen
  have htags : (a.tags.map TagArg.cond ≠ [] → (tagSql (a.tags.map TagArg.cond)).length < 8192) ↔
      (q.tags ≠ [] → tagsRoom q.tags < 8192) := by
    rw [hne]
    refine imp_congr_right fun hq => ?_
    rw [← flatten_sqlTagPieces h.tags, total_flatten, total_sqlTagPieces hq]
  have htsv : (∀ k ∈ a.keyword, (sqlTsvText k).length < 8192) ↔
      ∀ k ∈ q.keyword, 141 + k.length < 8192 := by
    simp only [h.keyword, length_sqlTsvText]
  unfold SearchArgs.sqlbuf
  simp only [Option.bind_eq_bind]
  rw [tagConds_eq, isSome_ite_bind, hfattr, Option.bind_some, tagGetSql_eq, isSome_ite_bind,
    tsvGetSql_eq, isSome_ite_bind, if_neg htype, hescaped, Option.bind_some, isSome_sprintf_iff,
    ← hlen, h.tags.length_eq.symm, hname, htags, htsv]
  constructor
  · rintro ⟨⟨hcount, hnames⟩, hsqlTags, hsqlTsv, hroom⟩
    exact ⟨hcount, hnames, hsqlTags, hsqlTsv, hroom⟩
  · rintro ⟨hcount, hnames, hsqlTags, hsqlTsv, hroom⟩
    exact ⟨⟨hcount, hnames⟩, hsqlTags, hsqlTsv, hroom⟩

end Hpssix
