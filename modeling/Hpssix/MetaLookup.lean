import Hpssix.Base.EscapeString
import Hpssix.Base.Stores
import Hpssix.SearchStatement

/-!
# Hpssix.MetaLookup

The file that `hpssix-meta` asks the database for (`main`, `do_meta` and
`get_sql` in `utils/hpssix-meta/src/hpssix-meta.c`, `hpssix_db_psql_query`).

With `--auto-prefix` the mountpoint and the argument are printed one behind the
other; `do_meta` takes the mountpoint off again, and the statement with the rest
in it is a format.

* `lex_sqlText` — the statement is one comparison, with the path as a constant.
* `vasprintf_sqlText` — as a format it asks for the path as formatted.
* `meta_lookup` — what holds of a lookup, and what never does.
-/

namespace Hpssix

open CText Sql SqlLexer Doubling Stores

namespace MetaLookup

/-! ## the filename -/

/-- `malloc(strlen(hpssmnt)+strlen(path))`, the one object that is written. -/
def filenameSize (hpssmnt path : Text) : Unit → Nat := fun _ => hpssmnt.length + path.length

/-- What is printed into `filename` with `--auto-prefix`. -/
def filenamePieces (hpssmnt path : Text) : List Text :=
  hpssmnt :: ((if path.head? ≠ some '/' then [[ '/' ]] else []) ++ [path])

def filenameStores (hpssmnt path : Text) : List (Store Unit) :=
  appends () 0 (filenamePieces hpssmnt path)

/-- `filename` in `main`, if the mountpoint is found and the path is resolved; it is what was
printed also where that left the memory. -/
def metaFilename (autoPrefix : Bool) (hpssmnt : Option Text) (realpath : Text → Option Text)
    (path : Text) : Option Text :=
  if autoPrefix then hpssmnt.map fun hpssmnt => (filenamePieces hpssmnt path).flatten
  else realpath path

/-! ## the statement -/

/-- The format of `get_sql`, up to its `%s`. -/
def sqlHead : Text :=
  "select meta, text from hpssix_attr_document where oid=(select oid from hpssix_file where path=".toList

/-- The format behind it. -/
def sqlTail : Text := " limit 1)".toList

/-- The text that `get_sql` prints. -/
def sqlText (path : Text) : Text := sqlHead ++ (pqEscapeLiteral path ++ sqlTail)

/-- `get_sql`, with `sqlbuf`. -/
def getSql (path : Text) : Option Text := sprintf 8192 (sqlText path)

/-- What `do_meta` comes to: it gives up, or it has the path and the text that reaches
`PQexec`, if there is one. -/
inductive Outcome where
  | returns (ret : Int)
  | queries (path : Text) (sql : Option Text)
deriving DecidableEq

/-- `do_meta`, up to the query.  The statement is the format of `hpssix_db_psql_query`, which
gets no arguments. -/
def doMeta (mountpoint : Option Text) (filename : Text) : Outcome :=
  match mountpoint with
  | none => .returns 2
  | some mountpoint =>
    if ¬ mountpoint.isPrefixOf filename then .returns 22
    else
      let path := filename.drop mountpoint.length
      .queries path ((getSql path).bind vasprintf)

/-! ## what is asked for -/

/-- A mountpoint: no slash at its end. -/
structure Mountpoint where
  text : Text
  noSlash : text.getLast? ≠ some '/'
  noNul : Char.ofNat 0 ∉ text

/-- A path as it is stored: below the root, shorter than `PATH_MAX`. -/
structure StoredPath where
  text : Text
  rooted : text.head? = some '/'
  noNul : Char.ofNat 0 ∉ text
  short : text.length < 4096

/-- The tokens of the lookup of a file by a constant. -/
def lookupTokens (path : Tok) : List Tok :=
  [.word "select".toList, .word "meta".toList, .op [ ',' ], .word "text".toList, .word "from".toList,
    .word "hpssix_attr_document".toList, .word "where".toList, .word "oid".toList, .op [ '=' ],
    .op [ '(' ], .word "select".toList, .word "oid".toList, .word "from".toList,
    .word "hpssix_file".toList, .word "where".toList, .word "path".toList, .op [ '=' ], path,
    .word "limit".toList, .number [ '1' ], .op [ ')' ]]

/-- The statement compares the path of the file with a constant that denotes this text: a
string constant, or an escape string constant. -/
def Compares (sql path : Text) : Prop :=
  lex escapeReader sql = some (lookupTokens (.literal path)) ∨
    lex escapeReader sql = some (lookupTokens (.extra path))

/-- The mountpoint itself, and what is below it. -/
def Below (mountpoint filename : Text) : Prop :=
  filename = mountpoint ∨ mountpoint ++ [ '/' ] <+: filename

/-- With this argument, the file is looked up by its stored path. -/
structure Asks (mountpoint path arg : Text) : Prop where
  memory : ∀ s ∈ filenameStores mountpoint arg, s.InBounds (filenameSize mountpoint arg)
  built : ∀ realpath, metaFilename true (some mountpoint) realpath arg = some (mountpoint ++ path)
  query : ∃ sql, doMeta (some mountpoint) (filenamePieces mountpoint arg).flatten =
    .queries path (some sql) ∧ Compares sql path

/-- A lookup with the stored path, or with it without its slash, asks for that file, and a
filename outside of the mountpoint is rejected. -/
structure LooksUp (m : Mountpoint) (p : StoredPath) : Prop where
  asks : ∀ arg, arg = p.text ∨ arg = p.text.tail → Asks m.text p.text arg
  rejects : ∀ filename, ¬ Below m.text filename → doMeta (some m.text) filename = .returns 22

/-! ## the filename -/

section Filename
variable {mountpoint path arg : Text}

/-- The pieces of the file name are the mountpoint and the path, with one slash between. -/
theorem flatten_filenamePieces (hpssmnt path : Text) :
    (filenamePieces hpssmnt path).flatten =
      hpssmnt ++ if path.head? = some '/' then path else '/' :: path := by
  rw [filenamePieces]
  by_cases h : path.head? = some '/'
  · simp [h]
  · simp [h]

/-- There is no room for the terminator, nor for a slash that is added. -/
theorem not_inBounds (mountpoint arg : Text) :
    ¬ ∀ s ∈ filenameStores mountpoint arg, s.InBounds (filenameSize mountpoint arg) := by
  rw [filenameStores, filenamePieces, appends_inBounds_iff (List.cons_ne_nil _ _)]
  simp only [Stores.total_cons, total_append, Stores.total_nil, filenameSize]
  omega

/-- The stored path is printed as it is, and gets its slash back unless there is one behind it. -/
theorem filename_eq_iff (hpath : path.head? = some '/') (harg : arg = path ∨ arg = path.tail) :
    (filenamePieces mountpoint arg).flatten = mountpoint ++ path ↔
      arg = path ∨ arg.head? ≠ some '/' := by
  obtain ⟨rest, rfl⟩ : ∃ rest, path = '/' :: rest := by
    cases path with
    | nil => cases hpath
    | cons c rest => exact ⟨rest, congrArg (· :: rest) (Option.some.inj hpath)⟩
  rw [flatten_filenamePieces, List.append_cancel_left_eq]
  obtain rfl | harg := harg
  · simp
  · obtain rfl : arg = rest := harg
    by_cases hslash : arg.head? = some '/'
    · simp [hslash]
    · simp [hslash]

end Filename

/-! ## the format -/

/-- A text without percent signs is printed as it is, whatever follows. -/
theorem vasprintf_append {s : Text} (h : '%' ∉ s) (x : Text) :
    vasprintf (s ++ x) = (vasprintf x).map (s ++ ·) := by
  induction s with
  | nil => simp
  | cons c s ih =>
      rw [List.mem_cons, not_or] at h
      rw [List.cons_append, vasprintf_cons (Ne.symm h.1), ih h.2, Option.map_map]
      rfl

/-- A text without percent signs is printed as it is. -/
theorem vasprintf_self {s : Text} (h : '%' ∉ s) : vasprintf s = some s := by
  have happend := vasprintf_append h []
  rwa [List.append_nil, vasprintf, Option.map_some, List.append_nil] at happend

/-- A percent without a second one has no meaning. -/
theorem vasprintf_percent {x : Text} (h : x.head? ≠ some '%') : vasprintf ('%' :: x) = none := by
  cases x with
  | nil => rfl
  | cons c x =>
      have hc : c ≠ '%' := fun heq => h (congrArg some heq)
      rw [vasprintf, if_pos rfl, if_neg hc]

/-- Two percent signs are printed as one. -/
theorem vasprintf_percent_percent (s : Text) :
    vasprintf ('%' :: '%' :: s) = (vasprintf s).map ('%' :: ·) := by
  rw [vasprintf, if_pos rfl, if_pos rfl]

/-- Writing characters in another way, but percents as they are, commutes with the format. -/
theorem vasprintf_flatMap {g : Char → Text} (hpercent : g '%' = [ '%' ])
    (hg : ∀ c, c ≠ '%' → g c ≠ [] ∧ '%' ∉ g c) {x : Text} (hx : '%' ∉ x) (s : Text) :
    vasprintf (s.flatMap g ++ x) = (vasprintf s).map fun t => t.flatMap g ++ x := by
  have hplain : ∀ c, c ≠ '%' → ∀ t, vasprintf ((c :: t).flatMap g ++ x) =
      (vasprintf (t.flatMap g ++ x)).map (g c ++ ·) := by
    intro c hc t
    rw [List.flatMap_cons, List.append_assoc, vasprintf_append (hg c hc).2]
  have hwritten : ∀ t, ('%' :: t).flatMap g ++ x = '%' :: (t.flatMap g ++ x) := by
    intro t
    rw [List.flatMap_cons, hpercent]
    rfl
  fun_induction vasprintf s with
  | case1 => simpa using vasprintf_self hx
  | case2 =>
      rw [hwritten]
      exact vasprintf_percent fun h => hx (List.mem_of_mem_head? h)
  | case3 c hc =>
      rw [hplain c hc, List.flatMap_nil, List.nil_append, vasprintf_self hx, Option.map_some,
        Option.map_some, List.flatMap_cons, List.flatMap_nil, List.append_nil]
  | case4 rest ih =>
      rw [hwritten, hwritten, vasprintf_percent_percent, ih, Option.map_map, Option.map_map]
      refine Option.map_congr fun t _ => ?_
      exact (hwritten t).symm
  | case5 d rest hd =>
      -- what the next character is written as does not begin with a percent
      obtain ⟨hne, hnot⟩ := hg d hd
      rw [hwritten, List.flatMap_cons, List.append_assoc]
      refine vasprintf_percent fun h => hnot ?_
      obtain ⟨e, t, he⟩ := List.exists_cons_of_ne_nil hne
      rw [he] at h ⊢
      exact Option.some.inj h ▸ List.mem_cons_self
  | case6 c d rest hc ih =>
      rw [hplain c hc, ih, Option.map_map, Option.map_map]
      refine Option.map_congr fun t _ => ?_
      rw [Function.comp_apply, Function.comp_apply, List.flatMap_cons, List.append_assoc]

/-- What a character is written as between quotes. -/
theorem vasprintf_double {c : Char} (hc : c ≠ '%') {x : Text} (hx : '%' ∉ x) (s : Text) :
    vasprintf (double (· = c) s ++ x) = (vasprintf s).map fun t => double (· = c) t ++ x := by
  refine vasprintf_flatMap (if_neg (Ne.symm hc)) (fun d hd => ?_) hx s
  split
  · simp [Ne.symm hd]
  · simp [Ne.symm hd]

/-- What is printed of a quoted text is quoted. -/
theorem vasprintf_quote {x : Text} (hx : '%' ∉ x) (s : Text) :
    vasprintf (quote s ++ x) = (vasprintf s).map fun t => quote t ++ x := by
  have hend : '%' ∉ quoteChar :: x := List.not_mem_cons_of_ne_of_not_mem (by decide) hx
  rw [quote_eq, List.cons_append, List.append_assoc, List.singleton_append,
    vasprintf_cons (by decide), vasprintf_double (by decide) hend, Option.map_map]
  refine Option.map_congr fun t _ => ?_
  rw [Function.comp_apply, quote_eq, List.cons_append, List.append_assoc, List.singleton_append]

/-- The format leaves the escaping of a text alone. -/
theorem vasprintf_pqEscapeLiteral {x : Text} (hx : '%' ∉ x) (s : Text) :
    vasprintf (pqEscapeLiteral s ++ x) = (vasprintf s).map fun t => pqEscapeLiteral t ++ x := by
  have hmem : ∀ t, vasprintf s = some t → (escapeChar ∈ s ↔ escapeChar ∈ t) := by
    intro t ht
    rw [vasprintf_eq_some_iff.mp ht, mem_double]
  rw [pqEscapeLiteral]
  split
  · next hescape =>
      have hdouble : vasprintf (double (· = escapeChar) s) =
          (vasprintf s).map (double (· = escapeChar)) := by
        simpa using vasprintf_double (c := escapeChar) (by decide) (x := []) (by simp) s
      rw [List.cons_append, List.cons_append, vasprintf_cons (by decide), vasprintf_cons (by decide),
        vasprintf_quote hx, hdouble, Option.map_map, Option.map_map, Option.map_map]
      refine Option.map_congr fun t ht => ?_
      rw [pqEscapeLiteral, if_pos ((hmem t ht).mp hescape)]
      rfl
  · next hescape =>
      rw [vasprintf_quote hx]
      refine Option.map_congr fun t ht => ?_
      rw [pqEscapeLiteral, if_neg fun h => hescape ((hmem t ht).mpr h)]

/-! ## the statement -/

/-- The text in front of the constant. -/
theorem run_sqlHead :
    run .start sqlHead = some ((lookupTokens (.literal [])).take 16, .op [ '=' ]) := by
  decide +kernel

/-- The text behind it. -/
theorem lexFrom_sqlTail : lexFrom escapeReader .start sqlTail =
    some [.word "limit".toList, .number [ '1' ], .op [ ')' ]] := by
  decide +kernel

theorem not_mem_sqlHead : '%' ∉ sqlHead := by decide +kernel

theorem not_mem_sqlTail : '%' ∉ sqlTail := by decide +kernel

/-- The text behind the path does not go on with a literal or a remark. -/
theorem sqlTail_not_continued :
    ∀ c, (sqlTail.dropWhile isSpace).head? = some c → c ≠ quoteChar ∧ c ≠ '-' := by
  have hl : (sqlTail.dropWhile isSpace).head? = some 'l' := by decide +kernel
  intro c hc
  obtain rfl : 'l' = c := Option.some.inj (hl.symm.trans hc)
  decide

/-- **The statement** is one comparison, with the path as a constant. -/
theorem lex_sqlText (path : Text) :
    lex escapeReader (sqlText path) = some (lookupTokens (constant path)) := by
  have hhead : sqlTail.head? ≠ some quoteChar := by decide +kernel
  rw [lex, sqlText, lexFrom_append run_sqlHead,
    lexFrom_pqEscapeLiteral rfl path sqlTail_not_continued hhead, lexFrom_sqlTail]
  rfl

/-- As a format, the statement asks for the path as it is formatted. -/
theorem vasprintf_sqlText (path : Text) : vasprintf (sqlText path) = (vasprintf path).map sqlText := by
  rw [sqlText, vasprintf_append not_mem_sqlHead, vasprintf_pqEscapeLiteral not_mem_sqlTail,
    Option.map_map]
  rfl

/-- The tokens of the statement tell the paths apart. -/
theorem lookupTokens_inj {s t : Tok} : lookupTokens s = lookupTokens t ↔ s = t := by
  refine ⟨fun h => ?_, congrArg lookupTokens⟩
  have hpath : ∀ t, (lookupTokens t)[17]? = some t := fun t => rfl
  exact Option.some.inj ((hpath s).symm.trans ((congrArg (·[17]?) h).trans (hpath t)))

/-- A statement compares with one text only. -/
theorem compares_sqlText_iff {path other : Text} : Compares (sqlText other) path ↔ other = path := by
  rw [Compares, lex_sqlText, Option.some_inj, Option.some_inj, lookupTokens_inj, lookupTokens_inj,
    constant]
  split
  · simp
  · simp

/-! ## do_meta -/

section DoMeta
variable {mountpoint path filename : Text}

/-- The file has to be below the mountpoint. -/
theorem doMeta_eq_returns_iff :
    doMeta (some mountpoint) filename = .returns 22 ↔ ¬ mountpoint <+: filename := by
  rw [doMeta, ← List.isPrefixOf_iff_prefix]
  split
  · next h => exact iff_of_true rfl h
  · next h => exact iff_of_false Outcome.noConfusion h

/-- The mountpoint is taken off again. -/
theorem doMeta_append (mountpoint path : Text) :
    doMeta (some mountpoint) (mountpoint ++ path) = .queries path ((getSql path).bind vasprintf) := by
  rw [doMeta, if_neg, List.drop_left]
  exact not_not.mpr (List.isPrefixOf_iff_prefix.mpr (List.prefix_append _ _))

/-- The statement is written if it fits the buffer. -/
theorem getSql_eq_some_iff {sql : Text} :
    getSql path = some sql ↔ (sqlText path).length < 8192 ∧ sqlText path = sql := by
  rw [getSql, sprintf]
  split
  · next h => simp [h]
  · next h => simp [h]

/-- The statement asks for the path if it fits and the path has no percents. -/
theorem query_iff (mountpoint path : Text) :
    (∃ sql, doMeta (some mountpoint) (mountpoint ++ path) = .queries path (some sql) ∧
        Compares sql path) ↔ '%' ∉ path ∧ (sqlText path).length < 8192 := by
  rw [doMeta_append]
  constructor
  · rintro ⟨sql, hsql, hcompares⟩
    obtain ⟨buf, hbuf, hformat⟩ := Option.bind_eq_some_iff.mp (Outcome.queries.inj hsql).2
    obtain ⟨hfits, rfl⟩ := getSql_eq_some_iff.mp hbuf
    rw [vasprintf_sqlText] at hformat
    obtain ⟨other, hother, rfl⟩ := Option.map_eq_some_iff.mp hformat
    obtain rfl := compares_sqlText_iff.mp hcompares
    have hself := double_eq_self_iff.mp (vasprintf_eq_some_iff.mp hother).symm
    exact ⟨fun hmem => hself '%' hmem rfl, hfits⟩
  · rintro ⟨hpercent, hfits⟩
    refine ⟨sqlText path, ?_, compares_sqlText_iff.mpr rfl⟩
    rw [getSql_eq_some_iff.mpr ⟨hfits, rfl⟩, Option.bind_some, vasprintf_sqlText,
      vasprintf_self hpercent, Option.map_some]

/-- A sibling of the mountpoint is not below it, and is not rejected. -/
theorem exists_sibling (mountpoint : Text) :
    ∃ filename, ¬ Below mountpoint filename ∧
      doMeta (some mountpoint) filename ≠ .returns 22 := by
  refine ⟨mountpoint ++ [ '2' ], ?_, ?_⟩
  · rintro (heq | hprefix)
    · simpa using congrArg List.length heq
    · rw [List.prefix_append_right_inj] at hprefix
      exact absurd hprefix (by decide)
  · rw [Ne, doMeta_eq_returns_iff, not_not]
    exact List.prefix_append ..

end DoMeta

/-- **A lookup** never keeps to the memory of its filename and never rejects the siblings of the
mountpoint.  The filename is the right one unless a second slash stands for the first, its
path is always taken back from it, and the statement asks for the path if that has no percents
and fits into the buffer. -/
theorem meta_lookup (m : Mountpoint) (p : StoredPath) :
    ¬ LooksUp m p ∧
    (∀ arg, ¬ ∀ s ∈ filenameStores m.text arg, s.InBounds (filenameSize m.text arg)) ∧
    (∀ arg, arg = p.text ∨ arg = p.text.tail →
      ((∀ realpath, metaFilename true (some m.text) realpath arg = some (m.text ++ p.text)) ↔
        arg = p.text ∨ arg.head? ≠ some '/')) ∧
    ((∃ sql, doMeta (some m.text) (m.text ++ p.text) = .queries p.text (some sql) ∧
        Compares sql p.text) ↔ '%' ∉ p.text ∧ (sqlText p.text).length < 8192) ∧
    (∀ filename, doMeta (some m.text) filename = .returns 22 ↔ ¬ m.text <+: filename) ∧
    (∃ filename, ¬ Below m.text filename ∧ doMeta (some m.text) filename ≠ .returns 22) := by
  refine ⟨fun h => ?_, not_inBounds m.text, fun arg harg => ?_, query_iff m.text p.text,
    fun filename => doMeta_eq_returns_iff, exists_sibling m.text⟩
  · exact not_inBounds m.text p.text (h.asks p.text (.inl rfl)).memory
  · rw [← @filename_eq_iff m.text p.text arg p.rooted harg]
    simp [metaFilename]

/-- `/a` below `/hpss`: seven bytes for a text of seven characters and its NUL.  And `/hpss2` is
taken for a file below `/hpss`. -/
theorem meta_lookup_overflows :
    let m : Mountpoint := ⟨[ '/', 'h', 'p', 's', 's' ], by decide, by decide⟩
    let p : StoredPath := ⟨[ '/', 'a' ], by decide, by decide, by decide⟩
    ¬ LooksUp m p ∧ filenameSize m.text p.text () = 7 ∧
      filenameStores m.text p.text = [⟨(), 6⟩, ⟨(), 8⟩] ∧
      doMeta (some m.text) (m.text ++ [ '2' ]) ≠ .returns 22 := by
  refine ⟨fun h => ?_, rfl, rfl, ?_⟩
  · have hstore := (h.asks [ '/', 'a' ] (.inl rfl)).memory ⟨(), 8⟩ (.tail _ (.head _))
    exact absurd hstore (by decide : ¬ 8 ≤ 7)
  · rw [Ne, doMeta_eq_returns_iff, not_not]
    decide

end MetaLookup

end Hpssix
