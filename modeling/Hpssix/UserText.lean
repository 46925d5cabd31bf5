import Mathlib.Algebra.BigOperators.Ring.List
import Hpssix.SearchStatement

/-!
# Hpssix.UserText

What PostgreSQL's lexer makes of the texts of the user in the statement of
`hpssix-search`.  The parts of the statement are read one by one if the texts of
the user are clean; if they are not, the quotes or the percents of the statement
do not suffice for literals that denote them.

* `user_text_contained_iff` — every text of the user is in the literal that is
  meant for it, and nowhere else, exactly if the texts are clean.
-/

namespace Hpssix

open CText Sql SqlLexer Doubling

/-! ## the texts of the program -/

/-- A number as `%lf` prints it. -/
theorem plain_lf (q : Rat) : SqlLexer.Plain (Decimal.lf q) := by
  have hpad : ∀ c ∈ zeroPad 6 (Decimal.micro q % 10 ^ 6), c.isDigit = true := fun c hc =>
    isDigit_of_mem_zeroPad hc
  have hrun := run_fraction (Decimal.micro q / 10 ^ 6) hpad
  have hchars : ∀ c ∈ Decimal.lf q, c.isDigit = true ∨ c = '.' ∨ c = '-' := by
    intro c hc
    simp only [Decimal.lf, List.mem_append, List.mem_cons] at hc
    obtain (hc | hc) | hc | hc := hc
    · split at hc
      · exact .inr (.inr (List.mem_singleton.mp hc))
      · exact absurd hc List.not_mem_nil
    · exact .inl (isDigit_of_mem_decimal hc)
    · exact .inr (.inl hc)
    · exact .inl (hpad c hc)
  rw [Decimal.lf] at hchars ⊢
  by_cases hq : q < 0
  · rw [if_pos hq, List.append_assoc, List.singleton_append] at hchars ⊢
    exact plain_of_digits hchars (run_minus (head?_decimal_append _ _) hrun) rfl
  · rw [if_neg hq, List.nil_append] at hchars ⊢
    exact plain_of_digits hchars hrun rfl

/-- What is written for a condition on an attribute is fixed. -/
theorem fixed_fattrCond (c : FattrCond) (a : CondArg) : Fixed (c.sql a) := by
  have hand : Delimited " AND ".toList := of_literal (by decide)
  have hcolumn : Fixed (" AND ".toList ++ fstr a) := by
    cases a <;> unfold fstr <;> (repeat rw [String.toList_ofList]) <;> decide
  unfold FattrCond.sql
  match c.op with
  | .between =>
      have hbetween : Delimited " BETWEEN ".toList := of_literal (by decide)
      exact (((hcolumn.append_delimited hbetween).append_plain (plain_decimal _)).append_delimited
        hand).append_plain (plain_decimal _)
  | .bitand =>
      have hop : Delimited " & ".toList := of_literal (by decide)
      have hend : Fixed " > 0".toList := of_literal (by decide)
      exact ((hcolumn.append_delimited hop).append_plain (plain_decimal _)).append_fixed hend
  | .cmp op =>
      have hop : Delimited (" ".toList ++ opstr op ++ " ".toList) := by
        cases op <;> unfold opstr <;> (repeat rw [String.toList_ofList]) <;> decide
      have hsql := (hcolumn.append_delimited hop).append_plain (plain_decimal c.val1.toNat)
      simpa only [List.append_assoc] using hsql

/-- The query on attributes is fixed. -/
theorem fixed_getSqlFattr (removed : Bool) (conds : CondArg → Option FattrCond) :
    Fixed ('\n' :: getSqlFattr removed conds) := by
  have hhead : ∀ b : Bool, Fixed ('\n' ::
      ("WITH\n  fattr_oids AS\n    (SELECT oid FROM hpssix_object WHERE valid=".toList ++
        (if b then "false".toList else "true".toList))) := by
    intro b
    repeat rw [String.toList_ofList]
    cases b <;> decide
  have hconds : ∀ (s : Text) (l : List CondArg), Fixed s →
      Fixed (s ++ l.flatMap fun a => (conds a).elim [] fun c => c.sql a) := by
    intro s l hs
    induction l generalizing s with
    | nil => simpa using hs
    | cons a l ih =>
        rw [List.flatMap_cons, ← List.append_assoc]
        refine ih _ ?_
        cases conds a with
        | none => simpa using hs
        | some c => exact hs.append_fixed (fixed_fattrCond c a)
  have hend : Fixed ")".toList := of_literal (by decide)
  unfold getSqlFattr
  rw [← List.cons_append, ← List.cons_append]
  exact (hconds _ _ (hhead removed)).append_fixed hend

/-- The head of the statement is fixed. -/
theorem fixed_selectText (q : SearchArgs) : Fixed (selectText q) := by
  have hselect : Fixed (if q.countonly then "\nSELECT COUNT(f.path) FROM fattr_oids".toList
      else "\nSELECT f.oid, f.path FROM fattr_oids".toList) := by
    repeat rw [String.toList_ofList]
    cases q.countonly <;> decide
  have htag : Fixed " NATURAL JOIN tag_oids".toList := of_literal (by decide)
  have htsv : Fixed " NATURAL JOIN tsv_oids t".toList := of_literal (by decide)
  have hfile : Fixed " NATURAL JOIN hpssix_file f".toList := of_literal (by decide)
  have hjoin : ∀ {p : Prop} [Decidable p] {s x y : Text}, Fixed s → (x = [] ∨ Fixed x) →
      (y = [] ∨ Fixed y) → Fixed (s ++ if p then x else y) := by
    intro p _ s x y hs hx hy
    split
    · obtain rfl | hx := hx
      · simpa using hs
      · exact hs.append_fixed hx
    · obtain rfl | hy := hy
      · simpa using hs
      · exact hs.append_fixed hy
  unfold selectText
  exact (hjoin (hjoin hselect (.inl rfl) (.inr htag)) (.inr htsv) (.inl rfl)).append_fixed hfile

/-! ## the parts can be read -/

variable {ps : List Part}

/-- A fixed text keeps a statement readable. -/
theorem readable_text {s : Text} (hs : Fixed s) (h : SqlLexer.Readable (ps.map Part.piece)) :
    SqlLexer.Readable ((.text s :: ps).map Part.piece) := .text hs h

/-- So does a text of the user in front of one. -/
theorem readable_user {pattern escaped : Bool} {s t : Text}
    (h : SqlLexer.Readable ((.text t :: ps).map Part.piece)) :
    SqlLexer.Readable ((.user pattern s escaped :: .text t :: ps).map Part.piece) := .literal h

/-- The parts of a tag condition can stand in front of a readable statement. -/
theorem readable_condParts (first : Bool) (cond : TagCond)
    (h : SqlLexer.Readable (ps.map Part.piece)) :
    SqlLexer.Readable ((condParts first cond ++ ps).map Part.piece) := by
  have hhead : Fixed ((if first then " WHERE ".toList else " AND ".toList) ++
      "(kid=(SELECT kid FROM hpssix_attr_key WHERE name=".toList) := by
    repeat rw [String.toList_ofList]
    cases first <;> decide
  have hclose : Fixed ")".toList := of_literal (by decide)
  unfold condParts
  match cond.op with
  | some .between =>
      have hbetween : Delimited ") AND rval BETWEEN ".toList := of_literal (by decide)
      have hand : Delimited " AND ".toList := of_literal (by decide)
      have hvals := (((hbetween.append_plain (plain_lf cond.val1)).append_delimited
        hand).append_plain (plain_lf cond.val2)).append_fixed hclose
      exact readable_text hhead (readable_user (readable_text hvals h))
  | some (.cmp c) =>
      have hop : Delimited (") AND rval ".toList ++ opstr c ++ " ".toList) := by
        cases c <;> unfold opstr <;> (repeat rw [String.toList_ofList]) <;> decide
      have hval := (hop.append_plain (plain_lf cond.val1)).append_fixed hclose
      exact readable_text hhead (readable_user (readable_text hval h))
  | none =>
      have hlike : Fixed ") AND sval LIKE ".toList := of_literal (by decide)
      exact readable_text hhead (readable_user (readable_text hlike
        (readable_user (readable_text hclose h))))

/-- Blocks that can stand in front of a readable statement can do so together. -/
theorem readable_flatten {l : List (List Part)}
    (hl : ∀ b ∈ l, ∀ ps : List Part, SqlLexer.Readable (ps.map Part.piece) →
      SqlLexer.Readable ((b ++ ps).map Part.piece))
    (h : SqlLexer.Readable (ps.map Part.piece)) :
    SqlLexer.Readable ((l.flatten ++ ps).map Part.piece) := by
  induction l with
  | nil => exact h
  | cons b l ih =>
      rw [List.flatten_cons, List.append_assoc]
      exact hl b List.mem_cons_self _ (ih fun b hb => hl b (List.mem_cons_of_mem _ hb))

/-- The query on tags can stand in front of a readable statement. -/
theorem readable_tagParts (conds : List TagCond) (h : SqlLexer.Readable (ps.map Part.piece)) :
    SqlLexer.Readable ((tagParts conds ++ ps).map Part.piece) := by
  have hhead : Fixed ",\n  tag_oids (oid) AS\n    (SELECT oid FROM hpssix_attr_val".toList := of_literal (by decide)
  have hclose : Fixed ")".toList := of_literal (by decide)
  unfold tagParts
  split
  · exact h
  · rw [List.cons_append, List.cons_append, List.append_assoc]
    refine readable_text hhead (readable_flatten (fun b hb ps hps => ?_) (readable_text hclose h))
    obtain ⟨i, hi, rfl⟩ := List.mem_mapIdx.mp hb
    exact readable_condParts _ _ hps

/-- The query on documents can stand in front of a readable statement. -/
theorem readable_tsvParts (keyword : Option Text) (h : SqlLexer.Readable (ps.map Part.piece)) :
    SqlLexer.Readable ((keyword.elim [] tsvParts ++ ps).map Part.piece) := by
  cases keyword with
  | none => exact h
  | some k =>
      have hhead : Fixed
          (",\n  tsv_oids (oid, tsv) AS\n    (SELECT oid, tsv FROM (SELECT oid, tsv FROM ".toList ++
            "hpssix_attr_document, PLAINTO_TSQUERY(".toList) := by
        repeat rw [String.toList_ofList]
        decide +kernel
      have hend : Fixed ") AS q WHERE (tsv @@ q)) t1)".toList := of_literal (by decide)
      exact readable_text hhead (readable_user (readable_text hend h))

/-- So can the ranking of documents. -/
theorem readable_orderParts (keyword : Option Text) (h : SqlLexer.Readable (ps.map Part.piece)) :
    SqlLexer.Readable ((keyword.elim [] orderParts ++ ps).map Part.piece) := by
  cases keyword with
  | none => exact h
  | some k =>
      have hhead : Fixed " \nORDER BY TS_RANK_CD(t.tsv, PLAINTO_TSQUERY(".toList := of_literal (by decide)
      have hend : Fixed ")) DESC".toList := of_literal (by decide)
      exact readable_text hhead (readable_user (readable_text hend h))

/-- So can the predicates on names and paths. -/
theorem readable_predicateParts (name path : Option Text) {t : Text}
    (h : SqlLexer.Readable ((.text t :: ps).map Part.piece)) :
    SqlLexer.Readable ((predicateParts name path ++ .text t :: ps).map Part.piece) := by
  have hname : Fixed " WHERE f.name LIKE ".toList := of_literal (by decide)
  have hpath : Fixed " WHERE f.path LIKE ".toList := of_literal (by decide)
  have hand : Fixed " AND f.path LIKE ".toList := of_literal (by decide)
  unfold predicateParts
  match patternOf name, patternOf path with
  | some n, some p =>
      exact readable_text hname (readable_user (readable_text hand (readable_user h)))
  | some n, none => exact readable_text hname (readable_user h)
  | none, some p => exact readable_text hpath (readable_user h)
  | none, none => exact h

/-- A statement that is its limit only is readable. -/
theorem readable_limitText (limit : UInt64) :
    SqlLexer.Readable ([.text (limitText limit)].map Part.piece) := by
  have hlimit : Delimited (' ' :: " LIMIT ".toList) := by
    rw [String.toList_ofList]
    decide
  have hend : Fixed ";".toList := of_literal (by decide)
  unfold limitText
  split
  · exact .blank
  · exact readable_text ((hlimit.append_plain (plain_decimal _)).append_fixed hend) .nil

/-- The end of the statement, which begins with fixed text. -/
theorem exists_tail (q : SearchArgs) : ∃ t ps,
    q.keyword.elim [] orderParts ++ [.text (limitText q.limit)] = .text t :: ps ∧
      SqlLexer.Readable ((.text t :: ps).map Part.piece) := by
  have h := readable_orderParts q.keyword (readable_limitText q.limit)
  generalize q.keyword = keyword at h ⊢
  cases keyword with
  | none => exact ⟨_, _, rfl, h⟩
  | some k => exact ⟨_, _, rfl, h⟩

/-- **Readability**: the parts of the statement can be read one by one. -/
theorem readable_parts (q : SearchArgs) (conds : CondArg → Option FattrCond) :
    SqlLexer.Readable ((q.parts conds).map Part.piece) := by
  obtain ⟨t, ps, heq, hend⟩ := exists_tail q
  have hselect := readable_text (fixed_selectText q)
    (readable_predicateParts q.name q.path hend)
  rw [SearchArgs.parts]
  refine readable_text (fixed_getSqlFattr _ _) ?_
  simp only [List.append_assoc, List.cons_append, List.nil_append, heq]
  exact readable_tagParts _ (readable_tsvParts _ hselect)

/-! ## the texts of the user in the statement -/

/-- The text of the user, as the literal should have it. -/
def Part.content : Part → Text
  | .text _ => []
  | .user pattern s _ => affix pattern ++ s ++ affix pattern

def Part.isUser : Part → Bool
  | .text _ => false
  | .user _ _ _ => true

/-- The statement has the part: an escape literal is left out. -/
def Part.kept : Part → Bool
  | .user _ s true => escapeChar ∉ s
  | _ => true

/-- The part denotes its text. -/
def Part.Clean : Part → Prop
  | .text _ => True
  | .user _ s false => Verbatim s
  | .user _ s true => Escapable s

/-- The texts of a condition. -/
def TagArg.users (t : TagArg) : List Part :=
  .user false t.cond.tagName false :: if t.op = none then [.user true t.val false] else []

/-- A name or a path. -/
def fileUsers (s : Option Text) : List Part := s.toList.map fun s => .user true s true

/-- The keyword. -/
def keywordUsers (keyword : Option Text) : List Part := keyword.toList.map fun k => .user false k false

/-- All texts of the user, in the order of the statement. -/
def SearchArgs.users (q : SearchArgs) : List Part :=
  q.tags.flatMap TagArg.users ++ keywordUsers q.keyword ++ fileUsers q.name ++ fileUsers q.path ++
    keywordUsers q.keyword

/-- The literals of a tag option are the contents of its parts. -/
theorem TagArg.literals_eq (t : TagArg) : t.literals = t.users.map Part.content := by
  rw [TagArg.literals, TagArg.users, List.map_cons]
  split <;> simp [Part.content, affix, contains]

/-- The literals of a command are the contents of its parts. -/
theorem userLiterals_eq (q : SearchArgs) : q.userLiterals = q.users.map Part.content := by
  have hkeyword : (keywordUsers q.keyword).map Part.content = q.keyword.toList := by
    simp [keywordUsers, Function.comp_def, Part.content, affix]
  have hfile : ∀ s, (fileUsers s).map Part.content = s.toList.map contains := by
    intro s
    cases s with
    | none => rfl
    | some s => rfl
  simp only [SearchArgs.userLiterals, SearchArgs.users, List.map_append, List.map_flatMap, hkeyword,
    hfile, ← TagArg.literals_eq]

/-- The literals of the parts. -/
theorem filterMap_content (ps : List Part) :
    (ps.map Part.piece).filterMap Piece.content? = (ps.filter Part.isUser).map Part.content := by
  induction ps with
  | nil => rfl
  | cons p ps ih =>
      cases p with
      | text s => exact ih
      | user pattern s escaped => exact congrArg (Part.content (.user pattern s escaped) :: ·) ih

/-- The user's parts of a tag condition. -/
theorem isUser_condParts (first : Bool) (t : TagArg) :
    (condParts first t.cond).filter Part.isUser = t.users := by
  unfold condParts TagArg.users
  rw [show t.cond.op = t.op from rfl]
  match t.op with
  | some .between => rfl
  | some (.cmp c) => rfl
  | none => rfl

/-- The user's parts of the query on tags. -/
theorem isUser_tagParts (tags : List TagArg) :
    (tagParts (tags.map TagArg.cond)).filter Part.isUser = tags.flatMap TagArg.users := by
  have hconds : ((tags.map TagArg.cond).mapIdx fun i cond => condParts (i = 0) cond).map
      (List.filter Part.isUser) = tags.map TagArg.users := by
    refine List.ext_getElem (by simp) fun i hi hi' => ?_
    rw [List.getElem_map, List.getElem_mapIdx, List.getElem_map, List.getElem_map, isUser_condParts]
  unfold tagParts
  split
  · next h => rw [List.map_eq_nil_iff.mp h]; rfl
  · rw [List.filter_append, List.filter_cons_of_neg (by simp [Part.isUser]), List.filter_flatten,
      hconds, ← List.flatMap_def]
    exact List.append_nil _

/-- The user's parts of the predicates on names and paths. -/
theorem isUser_predicateParts (name path : Option Text) :
    (predicateParts name path).filter Part.isUser =
      (fileUsers name ++ fileUsers path).filter Part.kept := by
  have hfile : ∀ s, (fileUsers s).filter Part.kept = fileUsers (patternOf s) := by
    intro s
    cases s with
    | none => rfl
    | some s =>
        rw [patternOf, Option.filter_some]
        by_cases h : escapeChar ∈ s <;> simp [fileUsers, Part.kept, h]
  rw [List.filter_append, hfile, hfile]
  unfold predicateParts
  generalize patternOf name = n, patternOf path = p
  cases n <;> cases p <;> rfl

/-- The statement has all texts of the user but those that are left out. -/
theorem isUser_parts (q : SearchArgs) (conds : CondArg → Option FattrCond) :
    (q.parts conds).filter Part.isUser = q.users.filter Part.kept := by
  have htext : ∀ s, Part.isUser (.text s) = false := fun _ => rfl
  have htsv : (q.keyword.elim [] tsvParts).filter Part.isUser = keywordUsers q.keyword := by
    cases q.keyword with
    | none => rfl
    | some k => rfl
  have horder : (q.keyword.elim [] orderParts).filter Part.isUser = keywordUsers q.keyword := by
    cases q.keyword with
    | none => rfl
    | some k => rfl
  have hkeyword : (keywordUsers q.keyword).filter Part.kept = keywordUsers q.keyword := by
    cases q.keyword with
    | none => rfl
    | some k => rfl
  have htags : (q.tags.flatMap TagArg.users).filter Part.kept = q.tags.flatMap TagArg.users := by
    refine List.filter_eq_self.mpr fun p hp => ?_
    obtain ⟨t, _, hp⟩ := List.mem_flatMap.mp hp
    obtain rfl | hp := List.mem_cons.mp hp
    · rfl
    · split at hp
      · rw [List.mem_singleton.mp hp]
        rfl
      · contradiction
  simp only [SearchArgs.parts, SearchArgs.users, List.filter_append, isUser_tagParts,
    isUser_predicateParts, htsv, horder, hkeyword, htags, List.filter_cons, htext,
    Bool.false_eq_true, if_false, List.filter_nil, List.nil_append, List.append_nil,
    List.append_assoc]

/-! ## texts that denote themselves -/

/-- The prefix that a tag is stored under needs no escaping. -/
theorem verbatim_tagName (t : TagArg) : Verbatim t.cond.tagName ↔ Verbatim t.name := by
  have hprefix : quoteChar ∉ "user.hpssix.".toList ∧ '%' ∉ "user.hpssix.".toList := by
    rw [String.toList_ofList]
    decide
  rw [show t.cond.tagName = "user.hpssix.".toList ++ t.name from rfl, Verbatim, Verbatim,
    List.mem_append, List.mem_append, or_iff_right hprefix.1, or_iff_right hprefix.2]

/-- The texts of a command are as required exactly if its parts are clean. -/
theorem texts_iff (q : SearchArgs) : q.Texts Verbatim Escapable ↔ ∀ p ∈ q.users, p.Clean := by
  have htag : ∀ t : TagArg, (∀ p ∈ t.users, p.Clean) ↔
      Verbatim t.name ∧ (t.op = none → Verbatim t.val) := by
    intro t
    rw [TagArg.users, List.forall_mem_cons, ← verbatim_tagName]
    refine and_congr_right fun _ => ?_
    split <;> simp [*, Part.Clean]
  have hkeyword : (∀ p ∈ keywordUsers q.keyword, p.Clean) ↔ ∀ k ∈ q.keyword, Verbatim k := by
    simp [keywordUsers, Part.Clean]
  have hfile : ∀ s, (∀ p ∈ fileUsers s, p.Clean) ↔ ∀ n ∈ s, Escapable n := by
    simp [fileUsers, Part.Clean]
  simp only [SearchArgs.users, List.forall_mem_append, List.forall_mem_flatMap, htag, hkeyword,
    hfile]
  constructor
  · intro h
    exact ⟨⟨⟨⟨fun t ht => ⟨h.tagName t ht, h.tagVal t ht⟩, h.keyword⟩, h.name⟩, h.path⟩, h.keyword⟩
  · rintro ⟨⟨⟨⟨htags, hkey⟩, hname⟩, hpath⟩, -⟩
    exact ⟨fun t ht => (htags t ht).1, fun t ht => (htags t ht).2, hkey, hname, hpath⟩

/-- A clean text is written as its literal, with the percents doubled. -/
theorem raw_eq_double {pattern escaped : Bool} {s : Text}
    (h : (Part.user pattern s escaped).Clean) :
    (Part.user pattern s escaped).raw =
      double (· = '%') (quote (affix pattern ++ s ++ affix pattern)) := by
  have haffix : double (· = quoteChar) (affix pattern) = affix pattern := by
    cases pattern <;> rfl
  have hother : ∀ {p : Char} {t : Text}, p ∉ t → double (· = p) t = t := by
    intro p t ht
    refine double_of_forall fun c hc hcp => ?_
    exact ht (hcp ▸ hc)
  have hinside : (if escaped then double (· = quoteChar) s else s) =
      double (· = '%') (double (· = quoteChar) s) := by
    cases escaped with
    | true => rw [if_pos rfl, hother (fun hmem => h.1 (mem_double.mp hmem))]
    | false => rw [if_neg (by simp), hother h.1, hother h.2]
  rw [Part.raw, hinside, quote_eq, double_append, double_append, haffix, double_cons, double_append,
    double_append, double_append]
  rfl

/-- The statement is the doubled text of the pieces. -/
theorem raws_eq_double {ps : List Part} (hclean : ∀ p ∈ ps, p.Clean)
    (hchars : ∀ s, .text s ∈ ps.map Part.piece → Bare s) :
    raws ps = double (· = '%') (outs (ps.map Part.piece)) := by
  induction ps with
  | nil => rfl
  | cons p ps ih =>
      have hrest := ih (fun p hp => hclean p (List.mem_cons_of_mem _ hp))
        fun s hs => hchars s (List.mem_cons_of_mem _ hs)
      have hp : p.raw = double (· = '%') p.piece.out := by
        cases p with
        | text s =>
            exact (double_of_forall fun c hc => (hchars s List.mem_cons_self c hc).2).symm
        | user pattern s escaped => exact raw_eq_double (hclean _ List.mem_cons_self)
      rw [raws, List.flatMap_cons, ← raws, hrest, List.map_cons, outs, outs, List.flatMap_cons,
        double_append, hp]

/-! ## clean texts are contained -/

theorem Part.Clean.kept {p : Part} (h : p.Clean) : p.kept = true := by
  match p with
  | .text _ => rfl
  | .user _ _ false => rfl
  | .user _ s true => exact decide_eq_true h.2

/-- With clean texts, the statement has the tokens of its parts. -/
theorem lex_statement (other : Text → Text → Option (Option Text × Nat)) {q : SearchArgs}
    (h : q.sqlbuf.isSome) (hclean : ∀ p ∈ q.users, p.Clean) :
    ∃ conds l, q.fattr.conds = some conds ∧ q.statement.bind (lex other) = some l ∧
      literals l = q.userLiterals ∧ skeleton l = shape .start ((q.parts conds).map Part.piece) := by
  obtain ⟨buf, hbuf⟩ := Option.isSome_iff_exists.mp h
  obtain ⟨conds, hconds, hraws⟩ := sqlbuf_eq hbuf
  have husers : (q.parts conds).filter Part.isUser = q.users := by
    rw [isUser_parts]
    exact List.filter_eq_self.mpr fun p hp => (hclean p hp).kept
  have hparts : ∀ p ∈ q.parts conds, p.Clean := by
    intro p hp
    cases p with
    | text s => trivial
    | user pattern s escaped =>
        exact hclean _ (husers ▸ List.mem_filter.mpr ⟨hp, rfl⟩)
  have hread := readable_parts q conds
  have hstatement : q.statement = some (outs ((q.parts conds).map Part.piece)) := by
    rw [SearchArgs.statement, hbuf, Option.bind_some, vasprintf_eq_some_iff, hraws]
    exact raws_eq_double hparts hread.chars
  obtain ⟨l, hl, hlits, hskel⟩ : ∃ l, lexFrom other .start (outs ((q.parts conds).map Part.piece)) =
      some l ∧ _ := lexFrom_outs hread rfl
  refine ⟨conds, l, hconds, ?_, ?_, hskel⟩
  · rw [hstatement, Option.bind_some, lex]
    exact hl
  · rw [hlits, filterMap_content, husers, userLiterals_eq]

/-- A part without what is in its literal. -/
def Part.blank (p : Part) : Piece := p.piece.blank

/-- Blanking the parts blanks their pieces. -/
theorem map_blank (ps : List Part) : ps.map Part.blank = (ps.map Part.piece).map Piece.blank :=
  (List.map_map ..).symm

/-- Two tag options with one operator and the same operands leave the same text around their
own. -/
theorem blank_condParts (first : Bool) {t t' : TagArg} (hop : t'.op = t.op) (h₁ : t'.val1 = t.val1)
    (h₂ : t'.val2 = t.val2) :
    (condParts first t'.cond).map Part.blank = (condParts first t.cond).map Part.blank := by
  have hcond : t'.cond.op = t.cond.op ∧ t'.cond.val1 = t.cond.val1 ∧ t'.cond.val2 = t.cond.val2 :=
    ⟨hop, h₁, h₂⟩
  unfold condParts
  rw [hcond.1, hcond.2.1, hcond.2.2]
  match t.cond.op with
  | some .between => rfl
  | some (.cmp c) => rfl
  | none => rfl

/-- So do lists of such options. -/
theorem blank_tagParts {tags tags' : List TagArg}
    (h : List.Forall₂ (fun t t' : TagArg => t'.op = t.op ∧ t'.val1 = t.val1 ∧ t'.val2 = t.val2)
      tags tags') :
    (tagParts (tags'.map TagArg.cond)).map Part.blank =
      (tagParts (tags.map TagArg.cond)).map Part.blank := by
  have hlen := h.length_eq
  have hconds : ((tags'.map TagArg.cond).mapIdx fun i cond => condParts (i = 0) cond).map
      (List.map Part.blank) = ((tags.map TagArg.cond).mapIdx fun i cond =>
        condParts (i = 0) cond).map (List.map Part.blank) := by
    refine List.ext_getElem ?_ fun i hi hi' => ?_
    · simp only [List.length_map, List.length_mapIdx, hlen]
    · simp only [List.length_map, List.length_mapIdx] at hi hi'
      obtain ⟨hop, h₁, h₂⟩ := h.get hi' hi
      rw [List.getElem_map, List.getElem_mapIdx, List.getElem_map, List.getElem_map,
        List.getElem_mapIdx, List.getElem_map]
      exact blank_condParts _ hop h₁ h₂
  have hnil : tags'.map TagArg.cond = [] ↔ tags.map TagArg.cond = [] := by
    rw [← List.length_eq_zero_iff, ← List.length_eq_zero_iff, List.length_map, List.length_map, hlen]
  unfold tagParts
  rw [if_congr hnil rfl rfl]
  split
  · rfl
  · rw [List.map_append, List.map_append, List.map_cons, List.map_flatten, hconds, List.map_cons,
      List.map_cons, List.map_flatten]

/-- So do two keywords, and none leaves what none leaves. -/
theorem blank_keyword {k k' : Option Text} (h : k'.isSome = k.isSome) {f : Text → List Part}
    (hf : ∀ s s', (f s').map Part.blank = (f s).map Part.blank) :
    (k'.elim [] f).map Part.blank = (k.elim [] f).map Part.blank := by
  match k, k' with
  | none, none => rfl
  | none, some _ => contradiction
  | some _, none => contradiction
  | some s, some s' => exact hf s s'

/-- So do names and paths that are both given or both not. -/
theorem blank_predicateParts {n n' p p' : Option Text} (hn : (patternOf n').isSome = (patternOf n).isSome)
    (hp : (patternOf p').isSome = (patternOf p).isSome) :
    (predicateParts n' p').map Part.blank = (predicateParts n p).map Part.blank := by
  unfold predicateParts
  generalize patternOf n = n, patternOf n' = n', patternOf p = p, patternOf p' = p' at hn hp ⊢
  match n, n', p, p' with
  | none, none, none, none => rfl
  | none, none, some _, some _ => rfl
  | some _, some _, none, none => rfl
  | some _, some _, some _, some _ => rfl

/-- The head of the statement depends on the options only. -/
theorem selectText_congr {q q' : SearchArgs} (h : SameOptions q q') : selectText q' = selectText q := by
  have htags : q'.tags = [] ↔ q.tags = [] := by
    rw [← List.length_eq_zero_iff, ← List.length_eq_zero_iff, h.tags.length_eq]
  unfold selectText
  rw [h.countonly, h.keyword, if_congr htags rfl rfl]

/-- Without what is in the literals, the parts are the same for the same options. -/
theorem blank_parts {q q' : SearchArgs} (h : SameOptions q q') (hq : q.Texts Verbatim Escapable)
    (hq' : q'.Texts Verbatim Escapable) (conds : CondArg → Option FattrCond) :
    (q'.parts conds).map Part.blank = (q.parts conds).map Part.blank := by
  have hpredicate : (predicateParts q'.name q'.path).map Part.blank =
      (predicateParts q.name q.path).map Part.blank := by
    refine blank_predicateParts ?_ ?_
    · rw [patternOf_eq_self fun s hs => (hq.name s hs).2,
        patternOf_eq_self fun s hs => (hq'.name s hs).2, h.name]
    · rw [patternOf_eq_self fun s hs => (hq.path s hs).2,
        patternOf_eq_self fun s hs => (hq'.path s hs).2, h.path]
  have htsv := blank_keyword h.keyword (f := tsvParts) fun _ _ => rfl
  have horder := blank_keyword h.keyword (f := orderParts) fun _ _ => rfl
  simp only [SearchArgs.parts, List.map_cons, List.map_append, h.fattr, h.limit, hpredicate, htsv,
    horder, blank_tagParts h.tags, selectText_congr h]

/-! ## contained texts are clean -/

/-- The characters of a statement, if there are none in its fixed text. -/
theorem count_raws {ps : List Part} {c : Char} (hchars : ∀ s, .text s ∈ ps → c ∉ s) :
    (raws ps).count c = ((ps.filter Part.isUser).map fun p => p.raw.count c).sum := by
  induction ps with
  | nil => rfl
  | cons p ps ih =>
      have hrest := ih fun s hs => hchars s (List.mem_cons_of_mem _ hs)
      rw [raws, List.flatMap_cons, ← raws, List.count_append, hrest]
      cases p with
      | text s =>
          rw [List.filter_cons_of_neg (by simp [Part.isUser]), Part.raw,
            List.count_eq_zero_of_not_mem (hchars s List.mem_cons_self), Nat.zero_add]
      | user pattern s escaped =>
          rw [List.filter_cons_of_pos rfl, List.map_cons, List.sum_cons]

/-- How many quotes a part of the user puts into the format. -/
theorem count_quote_raw (pattern escaped : Bool) (s : Text) :
    (Part.user pattern s escaped).raw.count quoteChar =
      2 + (if escaped then 2 else 1) * s.count quoteChar := by
  have haffix : (double (· = '%') (affix pattern)).count quoteChar = 0 := by
    cases pattern <;> rfl
  have hinside : (if escaped then double (· = quoteChar) s else s).count quoteChar =
      (if escaped then 2 else 1) * s.count quoteChar := by
    cases escaped with
    | true => exact count_double _ s
    | false => exact (Nat.one_mul _).symm
  rw [Part.raw, List.count_cons_self, List.count_append, List.count_append, List.count_append, haffix,
    hinside, List.count_singleton_self]
  omega

/-- How many quotes it puts into the literal. -/
theorem count_quote_content (pattern escaped : Bool) (s : Text) :
    (Part.user pattern s escaped).content.count quoteChar = s.count quoteChar := by
  have haffix : (affix pattern).count quoteChar = 0 := by
    cases pattern <;> rfl
  rw [Part.content, List.count_append, List.count_append, haffix, Nat.zero_add, Nat.add_zero]

/-- How many percent signs a part of the user puts into the format. -/
theorem count_percent_raw (pattern escaped : Bool) (s : Text) :
    (Part.user pattern s escaped).raw.count '%' =
      4 * (affix pattern).count '%' + s.count '%' := by
  have haffix : (double (· = '%') (affix pattern)).count '%' = 2 * (affix pattern).count '%' :=
    count_double _ _
  have hinside : (if escaped then double (· = quoteChar) s else s).count '%' = s.count '%' := by
    cases escaped with
    | true => exact countP_double (by rintro c rfl; decide) s
    | false => rfl
  rw [Part.raw, List.count_cons_of_ne (by decide), List.count_append, List.count_append,
    List.count_append, haffix, hinside, show [quoteChar].count '%' = 0 from rfl]
  omega

/-- How many percent signs it puts into the literal. -/
theorem count_percent_content (pattern escaped : Bool) (s : Text) :
    (Part.user pattern s escaped).content.count '%' =
      2 * (affix pattern).count '%' + s.count '%' := by
  rw [Part.content, List.count_append, List.count_append]
  omega

theorem isUser_of_mem_users {q : SearchArgs} : ∀ p ∈ q.users, p.isUser = true := by
  have htag : ∀ t : TagArg, ∀ p ∈ t.users, p.isUser = true := by
    intro t
    rw [TagArg.users, List.forall_mem_cons]
    split <;> simp [Part.isUser]
  have hkeyword : ∀ p ∈ keywordUsers q.keyword, p.isUser = true := by
    simp [keywordUsers, Part.isUser]
  have hfile : ∀ s, ∀ p ∈ fileUsers s, p.isUser = true := by
    simp [fileUsers, Part.isUser]
  simp only [SearchArgs.users, List.forall_mem_append, List.forall_mem_flatMap]
  exact ⟨⟨⟨⟨fun t _ => htag t, hkeyword⟩, hfile _⟩, hfile _⟩, hkeyword⟩

/-- The fixed parts have no quote and no percent sign. -/
theorem not_mem_text {q : SearchArgs} {conds : CondArg → Option FattrCond} :
    ∀ s, .text s ∈ q.parts conds → quoteChar ∉ s ∧ '%' ∉ s := by
  intro s hs
  have hchars := (readable_parts q conds).chars s (List.mem_map_of_mem hs)
  exact ⟨fun h => (hchars _ h).1 rfl, fun h => (hchars _ h).2 rfl⟩

section Counting
variable {other : Text → Text → Option (Option Text × Nat)} {q : SearchArgs}
  {conds : CondArg → Option FattrCond} {s : Text} {l : List Tok}

/-- The quotes of the statement leave no room for a quote in a text, and no text is
left out. -/
theorem kept_of_literals (hs : raws (q.parts conds) = double (· = '%') s)
    (hl : lex other s = some l) (hlits : literals l = q.userLiterals) :
    ∀ p ∈ q.users, p.kept = true ∧ p.raw.count quoteChar = 2 + 2 * p.content.count quoteChar := by
  have hcount : s.count quoteChar =
      (q.users.map fun p => if p.kept then p.raw.count quoteChar else 0).sum := by
    have hdouble : (double (· = '%') s).count quoteChar = s.count quoteChar :=
      countP_double (by rintro c rfl; decide) s
    rw [← hdouble, ← hs, count_raws fun s hs => (not_mem_text s hs).1, isUser_parts, sum_map_filter]
  have hquotes := lex_quotes hl
  rw [hlits, userLiterals_eq, List.map_map, hcount] at hquotes
  have hle : ∀ p ∈ q.users, (if p.kept then p.raw.count quoteChar else 0) ≤
      2 + 2 * p.content.count quoteChar := by
    intro p hp
    have huser := isUser_of_mem_users p hp
    cases p with
    | text s => contradiction
    | user pattern s escaped =>
        rw [count_quote_raw, count_quote_content]
        cases escaped <;> split <;> simp
        omega
  intro p hp
  have heq := (eq_of_sum_le hle).2 hquotes p hp
  split at heq
  · next hk => exact ⟨hk, heq⟩
  · omega

/-- The percents of the statement leave no room for a percent in a text. -/
theorem percents_of_literals (hs : raws (q.parts conds) = double (· = '%') s)
    (hl : lex other s = some l) (hlits : literals l = q.userLiterals) :
    ∀ p ∈ q.users, p.raw.count '%' = 2 * p.content.count '%' := by
  have hkept : q.users.filter Part.kept = q.users :=
    List.filter_eq_self.mpr fun p hp => (kept_of_literals hs hl hlits p hp).1
  have hcount : 2 * s.count '%' = (q.users.map fun p => p.raw.count '%').sum := by
    have hdouble : (double (· = '%') s).count '%' = 2 * s.count '%' := count_double _ s
    rw [← hdouble, ← hs, count_raws fun s hs => (not_mem_text s hs).2, isUser_parts, hkept]
  have hpercents := lex_count hl (show '%' ≠ quoteChar by decide)
  rw [hlits, userLiterals_eq, List.map_map] at hpercents
  have hle : ∀ p ∈ q.users, p.raw.count '%' ≤ 2 * p.content.count '%' := by
    intro p hp
    have huser := isUser_of_mem_users p hp
    cases p with
    | text s => contradiction
    | user pattern s escaped =>
        rw [count_percent_raw, count_percent_content]
        omega
  refine (eq_of_sum_le hle).2 ?_
  rw [← hcount, List.sum_map_mul_left]
  exact Nat.mul_le_mul_left 2 hpercents

/-- If the literals are those of the texts, the texts are clean. -/
theorem clean_of_literals (h : q.sqlbuf.isSome) (hl : q.statement.bind (lex other) = some l)
    (hlits : literals l = q.userLiterals) : ∀ p ∈ q.users, p.Clean := by
  obtain ⟨buf, hbuf⟩ := Option.isSome_iff_exists.mp h
  obtain ⟨conds, -, hraws⟩ := sqlbuf_eq hbuf
  obtain ⟨s, hs, hl⟩ := Option.bind_eq_some_iff.mp hl
  rw [SearchArgs.statement, hbuf, Option.bind_some, vasprintf_eq_some_iff, hraws] at hs
  intro p hp
  have huser := isUser_of_mem_users p hp
  obtain ⟨hkept, hquotes⟩ := kept_of_literals hs hl hlits p hp
  have hpercents := percents_of_literals hs hl hlits p hp
  cases p with
  | text s => contradiction
  | user pattern s escaped =>
      rw [count_quote_raw, count_quote_content] at hquotes
      rw [count_percent_raw, count_percent_content] at hpercents
      have hpercent : '%' ∉ s := List.count_eq_zero.mp (by omega)
      cases escaped with
      | true => exact ⟨hpercent, of_decide_eq_true hkept⟩
      | false =>
          simp only [Bool.false_eq_true, if_false] at hquotes
          exact ⟨List.count_eq_zero.mp (by omega), hpercent⟩

end Counting

/-! ## the main theorem -/

/-- Letters and digits are printed as they are, and need no escape. -/
theorem verbatim_of_alphanumeric {s : Text} (h : Alphanumeric s) : Verbatim s ∧ Escapable s := by
  have hnot : ∀ c : Char, c.isAlphanum = false → c ∉ s := by
    intro c hc hmem
    rw [h c hmem] at hc
    contradiction
  exact ⟨⟨hnot _ (by decide), hnot _ (by decide)⟩, ⟨hnot _ (by decide), hnot _ (by decide)⟩⟩

theorem SearchArgs.Texts.plain {q : SearchArgs} (h : q.Texts Alphanumeric Alphanumeric) :
    q.Texts Verbatim Escapable where
  tagName t ht := (verbatim_of_alphanumeric (h.tagName t ht)).1
  tagVal t ht hop := (verbatim_of_alphanumeric (h.tagVal t ht hop)).1
  keyword k hk := (verbatim_of_alphanumeric (h.keyword k hk)).1
  name n hn := (verbatim_of_alphanumeric (h.name n hn)).2
  path p hp := (verbatim_of_alphanumeric (h.path p hp)).2

/-- **Containment**: the texts of the user are where they belong exactly if those that
are not escaped have neither a quote nor a percent, and the others neither a
percent nor a backslash. -/
theorem user_text_contained_iff {other : Text → Text → Option (Option Text × Nat)} {q : SearchArgs}
    (h : q.sqlbuf.isSome) : Contained other q ↔ q.Texts Verbatim Escapable := by
  constructor
  · rintro ⟨l, hl, hlits, -⟩
    exact (texts_iff q).mpr (clean_of_literals h hl hlits)
  · intro hq
    obtain ⟨conds, l, hconds, hl, hlits, hskel⟩ := lex_statement other h ((texts_iff q).mp hq)
    refine ⟨l, hl, hlits, fun q' hsame halnum h' => ?_⟩
    have hq' := halnum.plain
    obtain ⟨conds', l', hconds', hl', -, hskel'⟩ := lex_statement other h' ((texts_iff q').mp hq')
    obtain rfl : conds = conds' := by
      rw [hsame.fattr, hconds] at hconds'
      exact Option.some.inj hconds'
    refine ⟨l', hl', ?_⟩
    have hblank := congrArg (shape .start) (blank_parts hsame hq hq' conds)
    rw [map_blank, map_blank, shape_blank, shape_blank] at hblank
    rw [hskel, hskel', hblank]


/-- A search for documents with a word. -/
def keywordArgs (keyword : Text) : SearchArgs := { keyword := some keyword }

/-- A keyword that is one word. -/
theorem user_text_contained_iff_climate :
    Contained (fun _ _ => none) (keywordArgs "climate".toList) := by
  refine (user_text_contained_iff (by decide +kernel)).mpr ?_
  exact
    { tagName := fun t ht => absurd ht List.not_mem_nil
      tagVal := fun t ht => absurd ht List.not_mem_nil
      keyword := fun k hk => by
        obtain rfl := Option.some.inj hk
        exact ⟨by decide +kernel, by decide +kernel⟩
      name := fun n hn => absurd hn (Option.not_mem_none n)
      path := fun p hp => absurd hp (Option.not_mem_none p) }

/-- A quote in the keyword ends the literal. -/
theorem quote_in_keyword_not_contained :
    ¬ ∀ (other : Text → Text → Option (Option Text × Nat)) (q : SearchArgs),
      q.sqlbuf.isSome → Contained other q := by
  intro h
  have hfits : (keywordArgs "o'neil".toList).sqlbuf.isSome := by decide +kernel
  obtain ⟨l, hl, hlits, -⟩ := h (fun _ _ => none) _ hfits
  have hclean := clean_of_literals hfits hl hlits (.user false "o'neil".toList false)
    List.mem_cons_self
  exact absurd hclean.1 (by decide +kernel)

end Hpssix
