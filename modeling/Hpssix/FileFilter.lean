import Hpssix.SearchStatement

/-!
# Hpssix.FileFilter

The filters on name and path of `hpssix-search` (`get_file_predicate`): the text
that is written into the statement, what is left of it after
`hpssix_db_psql_query` has formatted the statement, and which files PostgreSQL
accepts.

* `formats_whereSql` — the text that is sent is a clause, with the patterns that
  are left of the texts of the user;
* `substringFilter_iff` — the filters mean containment exactly if there are no
  wild cards and no backslashes in the texts.
-/

namespace Hpssix

open CText Rel Sql Doubling

/-! ## clauses -/

/-- The columns that a filter is about. -/
inductive FileCol where
  | name
  | path
deriving DecidableEq

/-- How a column is written. -/
def FileCol.sql : FileCol → Text
  | .name => "f.name".toList
  | .path => "f.path".toList

/-- The value of a column. -/
def FileRow.text (f : FileRow) : FileCol → Text
  | .name => f.name
  | .path => f.path

/-- A condition `f.name LIKE …` or `f.path LIKE …`. -/
structure LikeCond where
  col : FileCol
  pattern : Text
deriving DecidableEq

def LikeCond.sql (c : LikeCond) : Text := c.col.sql ++ " LIKE ".toList ++ quote c.pattern

def LikeCond.holds (f : FileRow) (c : LikeCond) : Truth := like c.pattern (f.text c.col)

/-- Conditions behind the first. -/
def andConds : List Text → Text
  | [] => " ".toList
  | c :: cs => " AND ".toList ++ (c ++ andConds cs)

/-- A `WHERE` clause, from the texts of its conditions; none without conditions. -/
def whereConds : List Text → Text
  | [] => []
  | c :: cs => "WHERE ".toList ++ (c ++ andConds cs)

/-- How a clause is written. -/
def whereSql (cs : List LikeCond) : Text := whereConds (cs.map LikeCond.sql)

/-- PostgreSQL reads the text as a clause that is true for the file. -/
def Accepts (clause : Text) (f : FileRow) : Prop :=
  ∃ cs, clause = whereSql cs ∧ Truth.all (cs.map (LikeCond.holds f)) = some true

/-- The clause that is sent for a name and a path. -/
def fileClause (name path : Option Text) : Option Text := (getFilePredicate name path).bind vasprintf

/-- The clause is sent, and accepts the files that contain the texts. -/
def SubstringFilter (name path : Option Text) : Prop :=
  ∃ clause, fileClause name path = some clause ∧ ∀ f, Accepts clause f ↔
    (∀ n ∈ name, n <:+: f.name) ∧ ∀ p ∈ path, p <:+: f.path

/-! ## clauses are read in one way -/

theorem andConds_nil : andConds [] = " ".toList := rfl

theorem andConds_cons (c : Text) (cs : List Text) :
    andConds (c :: cs) = " AND ".toList ++ (c ++ andConds cs) := rfl

/-- No quote follows a condition. -/
theorem andConds_ne_quote (cs : List Text) : (andConds cs).head? ≠ some quoteChar := by
  have hblank : " ".toList = [' '] := by rw [String.toList_ofList]
  have hand : " AND ".toList = ' ' :: "AND ".toList := by repeat rw [String.toList_ofList]
  cases cs with
  | nil =>
      rw [andConds_nil, hblank]
      decide
  | cons c cs =>
      rw [andConds_cons, hand]
      show some ' ' ≠ some quoteChar
      decide

theorem length_sql (c : FileCol) : c.sql.length = 6 := by
  cases c <;> unfold FileCol.sql <;> rw [String.toList_ofList] <;> rfl

/-- The columns are told apart by their names. -/
theorem FileCol.sql_inj {c d : FileCol} (h : c.sql = d.sql) : c = d := by
  have hne : "f.name".toList ≠ "f.path".toList := by
    repeat rw [String.toList_ofList]
    decide
  cases c with
  | name =>
      cases d with
      | name => rfl
      | path => exact absurd h hne
  | path =>
      cases d with
      | name => exact absurd h.symm hne
      | path => rfl

/-- The first condition, and what follows it. -/
theorem LikeCond.sql_append_inj {c d : LikeCond} {x y : Text} (hx : x.head? ≠ some quoteChar)
    (hy : y.head? ≠ some quoteChar) (h : c.sql ++ x = d.sql ++ y) : c = d ∧ x = y := by
  unfold LikeCond.sql at h
  simp only [List.append_assoc] at h
  obtain ⟨col, pattern⟩ := c
  obtain ⟨col', pattern'⟩ := d
  obtain ⟨hcol, hrest⟩ := List.append_inj h (by rw [length_sql, length_sql])
  obtain ⟨hpattern, rfl⟩ := quote_append_inj hx hy (List.append_cancel_left hrest)
  obtain rfl := FileCol.sql_inj hcol
  exact ⟨congrArg (LikeCond.mk col) hpattern, rfl⟩

/-- Conditions are told apart by their text. -/
theorem andConds_inj {cs ds : List LikeCond}
    (h : andConds (cs.map LikeCond.sql) = andConds (ds.map LikeCond.sql)) : cs = ds := by
  have hlen : ∀ {c : Text} {t : List Text}, " ".toList ≠ andConds (c :: t) := by
    intro c t heq
    have := congrArg List.length heq
    rw [andConds_cons, List.length_append, String.toList_ofList, String.toList_ofList] at this
    simp at this
    omega
  induction cs generalizing ds with
  | nil =>
      cases ds with
      | nil => rfl
      | cons d ds => exact absurd h hlen
  | cons c cs ih =>
      cases ds with
      | nil => exact absurd h.symm hlen
      | cons d ds =>
          obtain ⟨rfl, hrest⟩ := LikeCond.sql_append_inj (andConds_ne_quote _) (andConds_ne_quote _)
            (List.append_cancel_left h)
          rw [ih hrest]

/-- So are the clauses that they make up. -/
theorem whereSql_inj {cs ds : List LikeCond} (h : whereSql cs = whereSql ds) : cs = ds := by
  have hne : ∀ t : Text, "WHERE ".toList ++ t ≠ [] := by
    intro t
    rw [String.toList_ofList]
    exact List.cons_ne_nil _ _
  cases cs with
  | nil =>
      cases ds with
      | nil => rfl
      | cons d ds => exact absurd h.symm (hne _)
  | cons c cs =>
      cases ds with
      | nil => exact absurd h (hne _)
      | cons d ds =>
          obtain ⟨rfl, hrest⟩ := LikeCond.sql_append_inj (andConds_ne_quote _) (andConds_ne_quote _)
            (List.append_cancel_left h)
          rw [andConds_inj hrest]

/-- A clause accepts a file exactly if each of its conditions holds. -/
theorem accepts_whereSql {cs : List LikeCond} {f : FileRow} :
    Accepts (whereSql cs) f ↔ ∀ c ∈ cs, c.holds f = some true := by
  constructor
  · rintro ⟨ds, heq, hall⟩
    obtain rfl := whereSql_inj heq
    simpa [Truth.all_eq_true] using hall
  · intro hall
    exact ⟨cs, rfl, by simpa [Truth.all_eq_true] using hall⟩

/-! ## what the formatting leaves -/

/-- A condition as `get_file_predicate` prints it. -/
def bufCond (c : FileCol × Text) : Text :=
  c.1.sql ++ " LIKE ".toList ++
    (quoteChar :: '%' :: '%' :: (double (· = quoteChar) c.2 ++ ['%', '%', quoteChar]))

/-- The texts that `get_file_predicate` has a condition for. -/
def keptConds (name path : Option Text) : List (FileCol × Text) :=
  (patternOf name).toList.map (FileCol.name, ·) ++ (patternOf path).toList.map (FileCol.path, ·)

/-- The condition for a text that is formatted. -/
def containsCond (c : FileCol × Text) : LikeCond := ⟨c.1, contains c.2⟩

/-- The condition that a column contains a text. -/
theorem containsCond_sql (col : FileCol) (m : Text) :
    (containsCond (col, m)).sql = col.sql ++ " LIKE ".toList ++
      (quoteChar :: '%' :: (double (· = quoteChar) m ++ ['%', quoteChar])) := by
  rw [containsCond, LikeCond.sql, contains, quote_eq, double_append, List.cons_append, double_cons]
  simp
  rfl

/-- A condition in the buffer, with the blank behind it. -/
theorem bufCond_blank (col : FileCol) (t : Text) (x : Text) :
    bufCond (col, t) ++ (' ' :: x) =
      col.sql ++ (' ' :: (likePattern (double (· = quoteChar) t) ++ x)) := by
  have hlike : " LIKE ".toList = ' ' :: "LIKE ".toList := by repeat rw [String.toList_ofList]
  have hopen : "LIKE '%%".toList = "LIKE ".toList ++ [quoteChar, '%', '%'] := by
    repeat rw [String.toList_ofList]
    rfl
  have hclose : "%%' ".toList = ['%', '%', quoteChar, ' '] := by
    rw [String.toList_ofList]
    rfl
  unfold bufCond likePattern
  rw [hlike, hopen, hclose]
  simp only [List.append_assoc, List.cons_append, List.nil_append]

/-- **The predicate** is a clause, before the formatting. -/
theorem getFilePredicate_eq (name path : Option Text) :
    getFilePredicate name path =
      if name.isNone ∧ path.isNone then some []
      else if keptConds name path = [] then none
      else some (whereConds ((keptConds name path).map bufCond)) := by
  have hblank : " ".toList = [' '] := by rw [String.toList_ofList]
  have hand : " AND ".toList = ' ' :: ("AND ".toList) := by repeat rw [String.toList_ofList]
  have hname : "WHERE f.name ".toList = "WHERE ".toList ++ (FileCol.name.sql ++ [' ']) := by
    unfold FileCol.sql
    repeat rw [String.toList_ofList]
    rfl
  have hpath : "WHERE f.path ".toList = "WHERE ".toList ++ (FileCol.path.sql ++ [' ']) := by
    unfold FileCol.sql
    repeat rw [String.toList_ofList]
    rfl
  have handpath : "AND f.path ".toList = "AND ".toList ++ (FileCol.path.sql ++ [' ']) := by
    unfold FileCol.sql
    repeat rw [String.toList_ofList]
    rfl
  unfold getFilePredicate
  simp only [bind_removeSingleQuote]
  split
  · rfl
  · next hgiven =>
      rw [if_neg fun h => hgiven (Option.isNone_iff_eq_none.mp h.1) (Option.isNone_iff_eq_none.mp h.2)]
      unfold keptConds
      cases patternOf name with
      | none =>
          cases patternOf path with
          | none => rfl
          | some p =>
              show some ("WHERE f.path ".toList ++ likePattern (double (· = quoteChar) p)) =
                some ("WHERE ".toList ++ (bufCond (.path, p) ++ " ".toList))
              rw [hblank, bufCond_blank, hpath]
              simp only [List.append_assoc, List.singleton_append, List.append_nil]
      | some n =>
          cases patternOf path with
          | none =>
              show some ("WHERE f.name ".toList ++ likePattern (double (· = quoteChar) n)) =
                some ("WHERE ".toList ++ (bufCond (.name, n) ++ " ".toList))
              rw [hblank, bufCond_blank, hname]
              simp only [List.append_assoc, List.singleton_append, List.append_nil]
          | some p =>
              show some ("WHERE f.name ".toList ++ likePattern (double (· = quoteChar) n) ++
                  "AND f.path ".toList ++ likePattern (double (· = quoteChar) p)) =
                some ("WHERE ".toList ++ (bufCond (.name, n) ++
                  (" AND ".toList ++ (bufCond (.path, p) ++ " ".toList))))
              rw [hand, List.cons_append, bufCond_blank, hblank, bufCond_blank, hname, handpath]
              simp only [List.append_assoc, List.cons_append, List.nil_append, List.append_nil]

/-- What the formatting leaves of a condition: the percents of its text are read in
pairs. -/
theorem format_cond {col : FileCol} {t glue x r : Text} (hglue : ∀ c ∈ glue, c ≠ '%')
    (h : double (· = '%') r = glue ++ (bufCond (col, t) ++ x)) :
    ∃ m r', t = double (· = '%') m ∧ double (· = '%') r' = x ∧
      r = glue ++ ((containsCond (col, m)).sql ++ r') := by
  have hopen : ∀ c ∈ glue ++ (col.sql ++ " LIKE ".toList ++ [quoteChar]), c ≠ '%' := by
    have hcol : ∀ c ∈ col.sql ++ " LIKE ".toList ++ [quoteChar], c ≠ '%' := by
      refine List.forall_mem_ne'.mpr ?_
      cases col <;> unfold FileCol.sql <;> (repeat rw [String.toList_ofList]) <;> decide
    exact List.forall_mem_append.mpr ⟨hglue, hcol⟩
  have hsplit : double (· = '%') r = (glue ++ (col.sql ++ " LIKE ".toList ++ [quoteChar])) ++
      '%' :: '%' :: (double (· = quoteChar) t ++ ['%', '%'] ++ quoteChar :: x) := by
    rw [h]
    unfold bufCond
    simp only [List.append_assoc, List.cons_append, List.nil_append]
  obtain ⟨r₁, rfl, h₁⟩ := double_eq_append hopen hsplit
  obtain ⟨r₂, rfl, ⟨-, h₂⟩ | ⟨hne, -⟩⟩ := double_eq_cons h₁
  · obtain ⟨r₃, r₄, rfl, h₃, h₄⟩ := double_eq_append_cons (p := (· = '%')) (by decide)
      (List.cons.inj h₂).2.symm
    obtain ⟨r₅, rfl, h₅⟩ := double_eq_concat (p := (· = '%')) rfl h₃
    obtain ⟨m, rfl, rfl⟩ := double_eq_double (by rintro c rfl; decide) h₅
    refine ⟨m, r₄, rfl, h₄, ?_⟩
    rw [containsCond_sql]
    simp only [List.append_assoc, List.cons_append, List.nil_append]
  · exact absurd rfl hne

/-- The condition that is left of a text. -/
def LeftOf (c : FileCol × Text) (d : LikeCond) : Prop :=
  ∃ m, c.2 = double (· = '%') m ∧ d = containsCond (c.1, m)

/-- What the format leaves of conditions in the buffer are conditions. -/
theorem format_andConds {l : List (FileCol × Text)} {r : Text}
    (h : double (· = '%') r = andConds (l.map bufCond)) :
    ∃ cs, List.Forall₂ LeftOf l cs ∧ r = andConds (cs.map LikeCond.sql) := by
  induction l generalizing r with
  | nil =>
      have hblank : ∀ c ∈ " ".toList, c ≠ '%' := by
        rw [String.toList_ofList]
        exact List.forall_mem_ne'.mpr (by decide)
      obtain ⟨r', rfl, hr'⟩ := double_eq_append hblank (h.trans (List.append_nil _).symm)
      obtain rfl := double_eq_nil_iff.mp hr'
      exact ⟨[], .nil, List.append_nil _⟩
  | cons c l ih =>
      have hand : ∀ c ∈ " AND ".toList, c ≠ '%' := by
        rw [String.toList_ofList]
        exact List.forall_mem_ne'.mpr (by decide)
      obtain ⟨m, r', hm, hr', rfl⟩ := format_cond hand h
      obtain ⟨cs, hcs, rfl⟩ := ih hr'
      exact ⟨containsCond (c.1, m) :: cs, .cons ⟨m, hm, rfl⟩ hcs, rfl⟩

/-- **The clause that is sent**, of the conditions that are left. -/
theorem format_whereConds {l : List (FileCol × Text)} {clause : Text}
    (h : vasprintf (whereConds (l.map bufCond)) = some clause) :
    ∃ cs, List.Forall₂ LeftOf l cs ∧ clause = whereSql cs := by
  rw [vasprintf_eq_some_iff] at h
  cases l with
  | nil => exact ⟨[], .nil, double_eq_nil_iff.mp h.symm⟩
  | cons c l =>
      have hwhere : ∀ c ∈ "WHERE ".toList, c ≠ '%' := by
        rw [String.toList_ofList]
        exact List.forall_mem_ne'.mpr (by decide)
      obtain ⟨m, r', hm, hr', rfl⟩ := format_cond hwhere h.symm
      obtain ⟨cs, hcs, rfl⟩ := format_andConds hr'
      exact ⟨containsCond (c.1, m) :: cs, .cons ⟨m, hm, rfl⟩ hcs, rfl⟩

/-- Doubled again, a condition is what was printed for its text. -/
theorem double_containsCond (c : FileCol × Text) :
    double (· = '%') (containsCond c).sql = bufCond (c.1, double (· = '%') c.2) := by
  obtain ⟨col, m⟩ := c
  have hcol : ∀ c ∈ col.sql ++ " LIKE ".toList, c ≠ '%' := by
    refine List.forall_mem_ne'.mpr ?_
    cases col <;> unfold FileCol.sql <;> (repeat rw [String.toList_ofList]) <;> decide
  have hend : double (· = '%') ['%', quoteChar] = ['%', '%', quoteChar] := rfl
  have hcomm := double_comm (p := (· = '%')) (q := (· = quoteChar)) (by rintro c rfl; decide) m
  rw [containsCond_sql, double_append, double_of_forall hcol,
    double_cons_of_neg (p := (· = '%')) (by decide), double_cons_of_pos (p := (· = '%')) rfl,
    double_append, hcomm, hend, bufCond]

/-- The conditions in the buffer are those that are sent with percent signs and quotes doubled.
-/
theorem double_andConds (l : List (FileCol × Text)) :
    double (· = '%') (andConds ((l.map containsCond).map LikeCond.sql)) =
      andConds ((l.map fun c => (c.1, double (· = '%') c.2)).map bufCond) := by
  have hand : ∀ c ∈ " AND ".toList, c ≠ '%' := by
    rw [String.toList_ofList]
    exact List.forall_mem_ne'.mpr (by decide)
  have hblank : ∀ c ∈ " ".toList, c ≠ '%' := by
    rw [String.toList_ofList]
    exact List.forall_mem_ne'.mpr (by decide)
  induction l with
  | nil => exact double_of_forall hblank
  | cons c l ih =>
      simp only [List.map_cons, andConds_cons, double_append, double_of_forall hand,
        double_containsCond, ih]

/-- So are the clauses. -/
theorem double_whereSql (l : List (FileCol × Text)) :
    double (· = '%') (whereSql (l.map containsCond)) =
      whereConds ((l.map fun c => (c.1, double (· = '%') c.2)).map bufCond) := by
  have hwhere : ∀ c ∈ "WHERE ".toList, c ≠ '%' := by
    rw [String.toList_ofList]
    exact List.forall_mem_ne'.mpr (by decide)
  unfold whereSql
  cases l with
  | nil => rfl
  | cons c l =>
      show double _ ("WHERE ".toList ++ _) = "WHERE ".toList ++ _
      rw [double_append, double_of_forall hwhere, double_append, double_containsCond,
        double_andConds]

/-! ## containment -/

/-- Every kept text is one of the user's. -/
theorem mem_keptConds {name path : Option Text} {c : FileCol × Text} :
    c ∈ keptConds name path ↔
      (c.1 = .name ∧ c.2 ∈ name ∨ c.1 = .path ∧ c.2 ∈ path) ∧ escapeChar ∉ c.2 := by
  obtain ⟨col, t⟩ := c
  cases col <;> simp [keptConds, patternOf, Option.filter_eq_some_iff]

/-- The condition holds exactly of a column that contains the text. -/
theorem containsCond_holds {c : FileCol × Text} (h : Unwild c.2) {f : FileRow} :
    (containsCond c).holds f = some true ↔ c.2 <:+: f.text c.1 := like_contains 0 0 h

/-- The clause that is sent for texts without wild cards and backslashes. -/
theorem fileClause_of_unwild {name path : Option Text} (hname : ∀ n ∈ name, Unwild n)
    (hpath : ∀ p ∈ path, Unwild p) :
    fileClause name path = some (whereSql ((keptConds name path).map containsCond)) := by
  have hescape : ∀ {s : Text}, Unwild s → escapeChar ∉ s := fun hs hmem => (hs _ hmem).2.2 rfl
  rw [fileClause, getFilePredicate_eq]
  split
  · next hnone =>
      rw [Option.isNone_iff_eq_none.mp hnone.1, Option.isNone_iff_eq_none.mp hnone.2]
      rfl
  · next hgiven =>
      have hkept : keptConds name path ≠ [] := by
        intro hnil
        refine hgiven ⟨?_, ?_⟩
        · cases name with
          | none => rfl
          | some n =>
              have hmem : (FileCol.name, n) ∈ keptConds (some n) path :=
                mem_keptConds.mpr ⟨.inl ⟨rfl, rfl⟩, hescape (hname n rfl)⟩
              rw [hnil] at hmem
              contradiction
        · cases path with
          | none => rfl
          | some p =>
              have hmem : (FileCol.path, p) ∈ keptConds name (some p) :=
                mem_keptConds.mpr ⟨.inr ⟨rfl, rfl⟩, hescape (hpath p rfl)⟩
              rw [hnil] at hmem
              contradiction
      rw [if_neg hkept, Option.bind_some, vasprintf_eq_some_iff, double_whereSql]
      congr 2
      refine (List.map_id _).symm.trans (List.map_congr_left fun c hc => ?_)
      have hpercent : ∀ d ∈ c.2, d ≠ '%' := by
        obtain ⟨⟨-, hn⟩ | ⟨-, hp⟩, -⟩ := mem_keptConds.mp hc
        · exact fun d hd => (hname _ hn d hd).1
        · exact fun d hd => (hpath _ hp d hd).1
      rw [double_of_forall hpercent]
      rfl

/-- Texts without wild cards and backslashes are found where they are. -/
theorem substringFilter_of_unwild {name path : Option Text} (hname : ∀ n ∈ name, Unwild n)
    (hpath : ∀ p ∈ path, Unwild p) : SubstringFilter name path := by
  have hescape : ∀ {s : Text}, Unwild s → escapeChar ∉ s := fun hs hmem => (hs _ hmem).2.2 rfl
  refine ⟨_, fileClause_of_unwild hname hpath, fun f => ?_⟩
  rw [accepts_whereSql, List.forall_mem_map]
  constructor
  · intro hall
    refine ⟨fun n hn => ?_, fun p hp => ?_⟩
    · exact (containsCond_holds (c := (.name, n)) (hname n hn)).mp
        (hall _ (mem_keptConds.mpr ⟨.inl ⟨rfl, hn⟩, hescape (hname n hn)⟩))
    · exact (containsCond_holds (c := (.path, p)) (hpath p hp)).mp
        (hall _ (mem_keptConds.mpr ⟨.inr ⟨rfl, hp⟩, hescape (hpath p hp)⟩))
  · rintro ⟨hn, hp⟩ ⟨col, t⟩ hc
    obtain ⟨⟨rfl, ht⟩ | ⟨rfl, ht⟩, -⟩ := mem_keptConds.mp hc
    · exact (containsCond_holds (hname t ht)).mpr (hn t ht)
    · exact (containsCond_holds (hpath t ht)).mpr (hp t ht)

/-- For each column there is a value without wild cards that the clause accepts. -/
theorem exists_sample {name path : Option Text} {cs : List LikeCond}
    (h : List.Forall₂ LeftOf (keptConds name path) cs) (col : FileCol) :
    ∃ t, Unwild t ∧ ∀ d ∈ cs, d.col = col → like d.pattern t = some true := by
  by_cases hex : ∃ d ∈ cs, d.col = col
  · obtain ⟨d, hd, hcol⟩ := hex
    obtain ⟨c, hc, m, hm, rfl⟩ := exists_of_forall₂_right h hd
    have hescape : escapeChar ∉ m := fun hmem =>
      (mem_keptConds.mp hc).2 (hm ▸ mem_double.mpr hmem)
    refine ⟨sample m, unwild_sample hescape, fun d' hd' hcol' => ?_⟩
    obtain ⟨c', hc', m', hm', rfl⟩ := exists_of_forall₂_right h hd'
    -- a column has one text
    have hsame : c'.2 = c.2 := by
      have hcols : c'.1 = c.1 := hcol'.trans hcol.symm
      obtain ⟨⟨h₁, ht⟩ | ⟨h₁, ht⟩, -⟩ := mem_keptConds.mp hc
      · obtain ⟨⟨-, ht'⟩ | ⟨h₁', -⟩, -⟩ := mem_keptConds.mp hc'
        · exact Option.mem_unique ht' ht
        · exact absurd (h₁'.symm.trans (hcols.trans h₁)) (by decide)
      · obtain ⟨⟨h₁', -⟩ | ⟨-, ht'⟩, -⟩ := mem_keptConds.mp hc'
        · exact absurd (h₁'.symm.trans (hcols.trans h₁)) (by decide)
        · exact Option.mem_unique ht' ht
    obtain rfl : m' = m := double_inj.mp (hm'.symm.trans (hsame.trans hm))
    exact like_sample hescape
  · exact ⟨[], fun c hc => absurd hc List.not_mem_nil, fun d hd hcol => absurd ⟨d, hd, hcol⟩ hex⟩

/-- A filter that means containment has no wild cards and no backslashes. -/
theorem unwild_of_substringFilter {name path : Option Text} (h : SubstringFilter name path) :
    (∀ n ∈ name, Unwild n) ∧ ∀ p ∈ path, Unwild p := by
  obtain ⟨clause, hclause, hfilter⟩ := h
  rw [fileClause, getFilePredicate_eq] at hclause
  split at hclause
  · next hnone =>
      rw [Option.isNone_iff_eq_none.mp hnone.1, Option.isNone_iff_eq_none.mp hnone.2]
      exact ⟨fun n hn => absurd hn (Option.not_mem_none n), fun p hp => absurd hp (Option.not_mem_none p)⟩
  · split at hclause
    · contradiction
    · obtain ⟨cs, hcs, rfl⟩ := format_whereConds hclause
      obtain ⟨tn, hn, hnames⟩ := exists_sample hcs .name
      obtain ⟨tp, hp, hpaths⟩ := exists_sample hcs .path
      have haccepts : Accepts (whereSql cs) { oid := .of 0, path := tp, name := tn } := by
        refine accepts_whereSql.mpr fun d hd => ?_
        obtain ⟨col, pattern⟩ := d
        cases col with
        | name => exact hnames _ hd rfl
        | path => exact hpaths _ hd rfl
      obtain ⟨hname, hpath⟩ := (hfilter _).mp haccepts
      exact ⟨fun n hmem c hc => hn c ((hname n hmem).subset hc),
        fun p hmem c hc => hp c ((hpath p hmem).subset hc)⟩

/-- **Filters mean containment** exactly if there are no wild cards and no backslashes
in the texts. -/
theorem substringFilter_iff (name path : Option Text) :
    SubstringFilter name path ↔ (∀ n ∈ name, Unwild n) ∧ ∀ p ∈ path, Unwild p :=
  ⟨unwild_of_substringFilter, fun h => substringFilter_of_unwild h.1 h.2⟩

/-- An underscore finds every file. -/
theorem underscore_not_substring :
    ¬ ∀ name path : Option Text, (∀ n ∈ name, n ≠ []) → (∀ p ∈ path, p ≠ []) →
      SubstringFilter name path := by
  intro h
  have hfilter := h (some ['_']) none (by simp) (by simp)
  have hunwild := (unwild_of_substringFilter hfilter).1 ['_'] rfl
  exact absurd hunwild (by decide)

end Hpssix
