import Mathlib.Algebra.Order.BigOperators.Group.List
import Hpssix.Base.Fate
import Hpssix.Base.SqlWhere
import Hpssix.FattrSearch

/-!
# Hpssix.FattrQuery

The query on file attributes from its parts
(`utils/hpssix-search/src/hpssix-search.h` and `hpssix-search-fattr.c`): the array
of conditions with its sentinel, the tables that are indexed by attribute and by
operator, and the text, which is read again as PostgreSQL reads it.

* `fattr_query_conjunction` — the query selects the rows for which all
  conditions hold, in whatever order they were added, and fits its buffer.
-/

namespace Hpssix

open CText Fate SqlLexer SqlWhere

/-! ## the array of conditions -/

/-- `COND_ARG_INODE` to `COND_ARG_CTIME`, below `N_COND_ARG`. -/
def CondArg.code : CondArg → Fin 8
  | .inode => 0
  | .mode => 1
  | .uid => 2
  | .gid => 3
  | .size => 4
  | .atime => 5
  | .mtime => 6
  | .ctime => 7

/-- `HPSSIX_OP_EQ` to `HPSSIX_OP_BITAND`. -/
def FattrOp.code : FattrOp → Nat
  | .cmp .eq => 0
  | .cmp .gt => 1
  | .cmp .ge => 2
  | .cmp .lt => 3
  | .cmp .le => 4
  | .cmp .ne => 5
  | .between => 6
  | .bitand => 7

/-- `fstr`, as it is in memory. -/
def fstrTable : List Text :=
  ["oid".toList, "st_mode".toList, "st_uid".toList, "st_gid".toList, "st_size".toList,
    "st_atime".toList, "st_mtime".toList, "st_ctime".toList]

/-- `opstr`. -/
def opstrTable : List Text :=
  ["=".toList, ">".toList, ">=".toList, "<".toList, "<=".toList, "<>".toList]

/-- `hpssix_search_fattr_cond_t`. -/
structure SearchFattrCond where
  attr : Int
  op : Nat
  val1 : UInt64
  val2 : UInt64

/-- `hpssix_search_fattr_t`, as far as the query depends on it. -/
structure SearchFattr where
  removed : Bool
  cond : Fin 8 → SearchFattrCond

/-- `hpssix_search_fattr_init`: `COND_ARG_NONE` everywhere.  Its `memset` clears the size
of a pointer, which is another field. -/
def hpssixSearchFattrInit (search : SearchFattr) : SearchFattr :=
  { search with cond := fun i => { search.cond i with attr := -1 } }

/-- `hpssix_search_fattr_add_cond`. -/
def hpssixSearchFattrAddCond (search : SearchFattr) (cond : SearchFattrCond) : Fate SearchFattr :=
  if h : 0 ≤ cond.attr ∧ cond.attr < 8 then
    done { search with
      cond := Function.update search.cond ⟨cond.attr.toNat, by omega⟩ cond }
  else crash

/-- A condition as it is printed under its index. -/
def SearchFattrCond.sql (i : Fin 8) (cond : SearchFattrCond) : Text :=
  let column := fstrTable.getD i []
  if cond.op = FattrOp.between.code then
    " AND ".toList ++ column ++ " BETWEEN ".toList ++ decimal cond.val1.toNat ++ " AND ".toList ++
      decimal cond.val2.toNat
  else if cond.op = FattrOp.bitand.code then
    " AND ".toList ++ column ++ " & ".toList ++ decimal cond.val1.toNat ++ " > 0".toList
  else
    " AND ".toList ++ column ++ " ".toList ++ opstrTable.getD cond.op [] ++ " ".toList ++
      decimal cond.val1.toNat

/-- `get_sql_fattr`: a slot is printed if it has its own index. -/
def SearchFattr.sql (search : SearchFattr) : Text :=
  "WITH\n  fattr_oids AS\n    (SELECT oid FROM hpssix_object WHERE valid=".toList ++
    (if search.removed then "false".toList else "true".toList) ++
    ((List.finRange 8).flatMap fun i =>
      if (search.cond i).attr = i then (search.cond i).sql i else []) ++ ")".toList

/-- A condition on an attribute as it is added. -/
def FattrCond.raw (c : FattrCond) (a : CondArg) : SearchFattrCond :=
  { attr := (a.code : Nat), op := c.op.code, val1 := c.val1, val2 := c.val2 }

/-- The query for conditions that are added one after the other. -/
def fattrSql (search : SearchFattr) (conds : List (CondArg × FattrCond)) : Fate Text := do
  let search ← conds.foldlM (fun search p => hpssixSearchFattrAddCond search (p.2.raw p.1))
    (hpssixSearchFattrInit search)
  pure search.sql

/-! ## what the array holds -/

/-- The slots hold the conditions, and no others. -/
def SearchFattr.Holds (search : SearchFattr) (conds : CondArg → Option FattrCond) : Prop :=
  ∀ a, match conds a with
    | some c => search.cond a.code = c.raw a
    | none => (search.cond a.code).attr = -1

/-- The codes tell the arguments apart. -/
theorem code_inj {a b : CondArg} : a.code = b.code ↔ a = b := by
  cases a <;> cases b <;> decide

/-- A search starts without conditions. -/
theorem holds_init (search : SearchFattr) :
    (hpssixSearchFattrInit search).Holds fun _ => none := fun _ => rfl

/-- **Step**: the slot of the attribute is set, and no other. -/
theorem holds_addCond {search : SearchFattr} {conds : CondArg → Option FattrCond}
    (h : search.Holds conds) (a : CondArg) (c : FattrCond) :
    ∃ search', hpssixSearchFattrAddCond search (c.raw a) = done search' ∧
      search'.removed = search.removed ∧ search'.Holds (Function.update conds a (some c)) := by
  have hattr : 0 ≤ (c.raw a).attr ∧ (c.raw a).attr < 8 := by
    have hlt := a.code.isLt
    simp only [FattrCond.raw]
    omega
  refine ⟨_, dif_pos hattr, rfl, fun b => ?_⟩
  have hindex : (⟨(c.raw a).attr.toNat, by omega⟩ : Fin 8) = a.code := by
    apply Fin.ext
    simp [FattrCond.raw]
  simp only [hindex]
  by_cases hb : b = a
  · subst hb
    simp
  · rw [Function.update_of_ne hb, Function.update_of_ne (fun hcode => hb (code_inj.mp hcode))]
    exact h b

/-- What a list of conditions assigns to an attribute. -/
def assigned (conds : List (CondArg × FattrCond)) : CondArg → Option FattrCond :=
  conds.foldl (fun f p => Function.update f p.1 (some p.2)) fun _ => none

/-- **Run**: all conditions are added. -/
theorem holds_foldlM (conds : List (CondArg × FattrCond)) {search : SearchFattr}
    {f : CondArg → Option FattrCond} (h : search.Holds f) :
    ∃ search', conds.foldlM (fun search p => hpssixSearchFattrAddCond search (p.2.raw p.1)) search =
        done search' ∧ search'.removed = search.removed ∧
      search'.Holds (conds.foldl (fun f p => Function.update f p.1 (some p.2)) f) := by
  induction conds generalizing search f with
  | nil => exact ⟨search, rfl, rfl, h⟩
  | cons p conds ih =>
      obtain ⟨search₁, hadd, hremoved, hholds⟩ := holds_addCond h p.1 p.2
      obtain ⟨search', hrun, hremoved', hholds'⟩ := ih hholds
      refine ⟨search', ?_, hremoved'.trans hremoved, hholds'⟩
      rw [List.foldlM_cons, hadd, done_bind, hrun]

/-! ## the text -/

/-- The table of names is indexed by the code of an argument. -/
theorem fstrTable_code (a : CondArg) : fstrTable.getD a.code [] = fstr a := by
  cases a <;> rfl

/-- The table of operators is indexed by the code of an operator. -/
theorem opstrTable_code (k : Cmp) : opstrTable.getD (FattrOp.cmp k).code [] = opstr k := by
  cases k <;> rfl

/-- The tables agree: a condition is printed under its own names. -/
theorem sql_raw (c : FattrCond) (a : CondArg) : (c.raw a).sql a.code = c.sql a := by
  unfold SearchFattrCond.sql FattrCond.sql FattrCond.raw
  simp only [fstrTable_code]
  cases c.op with
  | between => rfl
  | bitand => rfl
  | cmp k =>
      have hnot : (FattrOp.cmp k).code ≠ FattrOp.between.code ∧
          (FattrOp.cmp k).code ≠ FattrOp.bitand.code := by
        cases k <;> decide
      simp only [if_neg hnot.1, if_neg hnot.2, opstrTable_code]

theorem map_code_all : CondArg.all.map CondArg.code = List.finRange 8 := by decide

/-- The query of an array is the query of what it holds. -/
theorem sql_of_holds {search : SearchFattr} {conds : CondArg → Option FattrCond}
    (h : search.Holds conds) : search.sql = getSqlFattr search.removed conds := by
  have hslots : ((List.finRange 8).flatMap fun i : Fin 8 =>
      if (search.cond i).attr = i then (search.cond i).sql i else []) =
      CondArg.all.flatMap fun a => (conds a).elim [] fun c => c.sql a := by
    rw [← map_code_all, List.flatMap_map]
    refine List.flatMap_congr fun a _ => ?_
    have hslot := h a
    cases hc : conds a with
    | none =>
        simp only [hc] at hslot
        have hne : (search.cond a.code).attr ≠ (a.code : Nat) := by omega
        rw [if_neg hne, Option.elim_none]
    | some c =>
        simp only [hc] at hslot
        have heq : (c.raw a).attr = (a.code : Nat) := rfl
        rw [hslot, if_pos heq, sql_raw, Option.elim_some]
  unfold SearchFattr.sql getSqlFattr
  rw [hslots]

/-- The loop over the codes prints the conditions in their order. -/
theorem fattrSql_eq (search : SearchFattr) (conds : List (CondArg × FattrCond)) :
    fattrSql search conds = done (getSqlFattr search.removed (assigned conds)) := by
  obtain ⟨search', hrun, hremoved, hholds⟩ := holds_foldlM conds (holds_init search)
  rw [fattrSql, hrun, done_bind, pure_eq, sql_of_holds hholds, hremoved]
  rfl

/-- Assignments of different arguments, one after the other, are all in force at the end. -/
theorem foldl_update_eq_some_iff {conds : List (CondArg × FattrCond)}
    (h : (conds.map Prod.fst).Nodup) (f : CondArg → Option FattrCond) {a : CondArg}
    {c : FattrCond} :
    conds.foldl (fun f (p : CondArg × FattrCond) => Function.update f p.1 (some p.2)) f a = some c ↔
      (a, c) ∈ conds ∨ a ∉ conds.map Prod.fst ∧ f a = some c := by
  induction conds generalizing f with
  | nil => simp
  | cons p conds ih =>
      obtain ⟨b, d⟩ := p
      rw [List.map_cons, List.nodup_cons] at h
      rw [List.foldl_cons, ih h.2, List.map_cons, List.mem_cons, List.mem_cons, not_or]
      by_cases hab : a = b
      · subst hab
        have hnot : ∀ e, (a, e) ∉ conds := fun e hmem => h.1 (List.mem_map.mpr ⟨_, hmem, rfl⟩)
        simp only [Function.update_self, Option.some.injEq, hnot, Prod.mk.injEq]
        grind
      · simp [hab]

/-- With one condition for an attribute, it is the one that is in the list. -/
theorem assigned_eq_some_iff {conds : List (CondArg × FattrCond)}
    (h : (conds.map Prod.fst).Nodup) {a : CondArg} {c : FattrCond} :
    assigned conds a = some c ↔ (a, c) ∈ conds := by
  rw [assigned, foldl_update_eq_some_iff h]
  simp

/-- The order of the assignments does not matter. -/
theorem assigned_perm {conds conds' : List (CondArg × FattrCond)} (h : (conds.map Prod.fst).Nodup)
    (hp : conds'.Perm conds) : assigned conds' = assigned conds := by
  have h' : (conds'.map Prod.fst).Nodup := (hp.map Prod.fst).nodup_iff.mpr h
  funext a
  refine Option.ext fun c => ?_
  rw [assigned_eq_some_iff h', assigned_eq_some_iff h, hp.mem_iff]

/-- The length of a condition on a file attribute. -/
def FattrCond.room (c : FattrCond) (a : CondArg) : Nat :=
  5 + (fstr a).length +
    match c.op with
    | .between => 14 + (decimal c.val1.toNat).length + (decimal c.val2.toNat).length
    | .bitand => 7 + (decimal c.val1.toNat).length
    | .cmp k => 2 + (opstr k).length + (decimal c.val1.toNat).length

def fattrRoom (removed : Bool) (conds : CondArg → Option FattrCond) : Nat :=
  69 + (if removed then 5 else 4) +
    (CondArg.all.map fun a => (conds a).elim 0 fun c => c.room a).sum

theorem length_fattrCond_sql (c : FattrCond) (a : CondArg) : (c.sql a).length = c.room a := by
  have hand : " AND ".toList.length = 5 := by decide +kernel
  obtain ⟨op, val1, val2⟩ := c
  cases op with
  | between =>
      have hbetween : " BETWEEN ".toList.length = 9 := by decide +kernel
      simp only [FattrCond.sql, FattrCond.room, List.length_append, hand, hbetween]
      omega
  | bitand =>
      have hbits : " & ".toList.length = 3 := by decide +kernel
      have hzero : " > 0".toList.length = 4 := by decide +kernel
      simp only [FattrCond.sql, FattrCond.room, List.length_append, hand, hbits, hzero]
      omega
  | cmp k =>
      have hblank : " ".toList.length = 1 := by decide +kernel
      simp only [FattrCond.sql, FattrCond.room, List.length_append, hand, hblank]
      omega

/-- The query is as long as its room says. -/
theorem length_getSqlFattr_eq (removed : Bool) (conds : CondArg → Option FattrCond) :
    (getSqlFattr removed conds).length = fattrRoom removed conds := by
  have hhead : "WITH\n  fattr_oids AS\n    (SELECT oid FROM hpssix_object WHERE valid=".toList.length =
      68 := by decide +kernel
  have hvalid : (if removed then "false".toList else "true".toList).length =
      if removed then 5 else 4 := by
    cases removed <;> decide +kernel
  have hclose : ")".toList.length = 1 := by decide +kernel
  have hconds : (CondArg.all.flatMap fun a => (conds a).elim [] fun c => c.sql a).length =
      (CondArg.all.map fun a => (conds a).elim 0 fun c => c.room a).sum := by
    rw [List.length_flatMap]
    congr 1
    refine List.map_congr_left fun a _ => ?_
    cases conds a with
    | none => rfl
    | some c => exact length_fattrCond_sql c a
  unfold getSqlFattr fattrRoom
  simp only [List.length_append, hhead, hvalid, hclose, hconds]
  omega

/-- **The buffer**: eight conditions with numbers of 64 bits fit. -/
theorem length_getSqlFattr (removed : Bool) (conds : CondArg → Option FattrCond) :
    (getSqlFattr removed conds).length < 4096 := by
  have hnumber : ∀ u : UInt64, (decimal u.toNat).length ≤ 20 := fun u =>
    (Nat.length_toDigits_le_iff (by decide) (by decide)).mpr (u.toNat_lt.trans (by decide))
  have hcolumn : ∀ a, (fstr a).length ≤ 8 := fun a => by cases a <;> decide +kernel
  have hop : ∀ k, (opstr k).length ≤ 2 := fun k => by cases k <;> decide +kernel
  have hcond : ∀ (c : FattrCond) (a : CondArg), c.room a ≤ 67 := fun c a => by
    have hval₁ := hnumber c.val1
    have hval₂ := hnumber c.val2
    have ha := hcolumn a
    unfold FattrCond.room
    cases c.op with
    | between =>
        simp only
        omega
    | bitand =>
        simp only
        omega
    | cmp k =>
        have hk := hop k
        simp only
        omega
  have hconds : (CondArg.all.map fun a => (conds a).elim 0 fun c => c.room a).sum ≤
      (CondArg.all.map fun _ => 67).sum := by
    refine List.sum_le_sum fun a _ => ?_
    cases conds a with
    | none => exact Nat.zero_le _
    | some c => exact hcond c a
  have hsum : (CondArg.all.map fun _ => 67).sum = 536 := rfl
  rw [length_getSqlFattr_eq, fattrRoom]
  cases removed
  · simp only [Bool.false_eq_true, if_false]
    omega
  · simp only [if_true]
    omega

/-! ## the tokens -/

/-- A condition as a comparison of SQL. -/
def FattrCond.term (c : FattrCond) (a : CondArg) : Term :=
  match c.op with
  | .between => .between (fstr a) (decimal c.val1.toNat) (decimal c.val2.toNat)
  | .bitand => .mask (fstr a) (decimal c.val1.toNat) (decimal 0)
  | .cmp k => .cmp (fstr a) (opstr k) (decimal c.val1.toNat)

theorem yields_and : Yields " AND".toList [wordAnd] := by
  have h : Yields [ ' ', 'A', 'N', 'D' ] [wordAnd] :=
    @yields_space _ [] (.word [ 'A', 'N', 'D' ]) rfl rfl
  exact of_literal (p := fun s => Yields s _) h

theorem yields_fstr (a : CondArg) : Yields (' ' :: fstr a) [.word (fstr a)] := by
  have hrun : run .start (fstr a) = some ([], .word (fstr a)) := by
    cases a <;> decide +kernel
  have hopens : (Mode.word (fstr a)).opens = true := by cases a <;> decide +kernel
  exact yields_space hrun hopens

theorem yields_opstr (k : Cmp) : Yields (' ' :: opstr k) [.op (opstr k)] := by
  have hrun : run .start (opstr k) = some ([], .op (opstr k)) := by
    cases k <;> decide +kernel
  exact yields_space hrun rfl

theorem yields_between : Yields " BETWEEN".toList [wordBetween] := by
  have h : Yields [ ' ', 'B', 'E', 'T', 'W', 'E', 'E', 'N' ] [wordBetween] :=
    @yields_space _ [] (.word [ 'B', 'E', 'T', 'W', 'E', 'E', 'N' ]) rfl rfl
  exact of_literal (p := fun s => Yields s _) h

theorem yields_bits : Yields " &".toList [.op [ '&' ]] := by
  have h : Yields [ ' ', '&' ] [.op [ '&' ]] := @yields_space _ [] (.op [ '&' ]) rfl rfl
  exact of_literal (p := fun s => Yields s _) h

theorem yields_above : Yields " >".toList [.op [ '>' ]] := by
  have h : Yields [ ' ', '>' ] [.op [ '>' ]] := @yields_space _ [] (.op [ '>' ]) rfl rfl
  exact of_literal (p := fun s => Yields s _) h

/-- A condition is read as its comparison. -/
theorem yields_sql (c : FattrCond) (a : CondArg) :
    Yields (c.sql a) (wordAnd :: (c.term a).tokens) := by
  have hand : " AND ".toList = " AND".toList ++ [ ' ' ] := by decide +kernel
  have hcolumn := yields_and.append (yields_fstr a)
  unfold FattrCond.sql FattrCond.term
  cases c.op with
  | between =>
      have hbetween : " BETWEEN ".toList = " BETWEEN".toList ++ [ ' ' ] := by decide +kernel
      have h := (((hcolumn.append yields_between).append (yields_number c.val1.toNat)).append
        yields_and).append (yields_number c.val2.toNat)
      simpa only [hand, hbetween, Term.tokens, List.append_assoc, List.cons_append, List.nil_append]
        using h
  | bitand =>
      have hbits : " & ".toList = " &".toList ++ [ ' ' ] := by decide +kernel
      have hzero : " > 0".toList = " >".toList ++ ' ' :: decimal 0 := by decide +kernel
      have h := (((hcolumn.append yields_bits).append (yields_number c.val1.toNat)).append
        yields_above).append (yields_number 0)
      simpa only [hand, hbits, hzero, Term.tokens, List.append_assoc, List.cons_append,
        List.nil_append] using h
  | cmp k =>
      have hblank : " ".toList = [ ' ' ] := by decide +kernel
      have h := (hcolumn.append (yields_opstr k)).append (yields_number c.val1.toNat)
      simpa only [hand, hblank, Term.tokens, List.append_assoc, List.cons_append, List.nil_append]
        using h

/-- The comparisons of the conditions. -/
def fattrTerms (conds : CondArg → Option FattrCond) : List Term :=
  CondArg.all.filterMap fun a => (conds a).map fun c => c.term a

/-- The comparison of the valid flag. -/
def validTerm (removed : Bool) : Term :=
  .flag "valid".toList (if removed then "false".toList else "true".toList)

/-- The tokens of the terms, condition by condition. -/
theorem moreTokens_fattrTerms (conds : CondArg → Option FattrCond) :
    moreTokens (fattrTerms conds) =
      CondArg.all.flatMap fun a => (conds a).elim [] fun c => wordAnd :: (c.term a).tokens := by
  unfold moreTokens fattrTerms
  generalize CondArg.all = l
  induction l with
  | nil => rfl
  | cons a l ih =>
      rw [List.filterMap_cons, List.flatMap_cons, ← ih]
      cases conds a <;> rfl

/-- **Lexing**: the tokens of the query. -/
theorem lex_getSqlFattr (other : Text → Text → Option (Option Text × Nat)) (removed : Bool)
    (conds : CondArg → Option FattrCond) :
    lex other (getSqlFattr removed conds) =
      some (headTokens "fattr_oids".toList "oid".toList "hpssix_object".toList ++
        ((validTerm removed).tokens ++ moreTokens (fattrTerms conds) ++ [.op [ ')' ]])) := by
  have hconds : Yields (CondArg.all.flatMap fun a => (conds a).elim [] fun c => c.sql a)
      (moreTokens (fattrTerms conds)) := by
    rw [moreTokens_fattrTerms]
    refine yields_flatMap fun a _ => ?_
    cases conds a with
    | none => exact yields_nil
    | some c => exact yields_sql c a
  have hclose : ")".toList = [ ')' ] := by decide +kernel
  have hhead : ∃ l m, run .start
      ("WITH\n  fattr_oids AS\n    (SELECT oid FROM hpssix_object WHERE valid=".toList ++
        (if removed then "false".toList else "true".toList)) = some (l, m) ∧ m.opens = true ∧
      l ++ pending m = headTokens "fattr_oids".toList "oid".toList "hpssix_object".toList ++
        (validTerm removed).tokens := by
    cases removed with
    | true =>
        exact ⟨headTokens "fattr_oids".toList "oid".toList "hpssix_object".toList ++
          [.word "valid".toList, .op [ '=' ]], .word "false".toList, by decide +kernel, rfl,
          by decide +kernel⟩
    | false =>
        exact ⟨headTokens "fattr_oids".toList "oid".toList "hpssix_object".toList ++
          [.word "valid".toList, .op [ '=' ]], .word "true".toList, by decide +kernel, rfl,
          by decide +kernel⟩
  obtain ⟨l, m, hrun, hm, hl⟩ := hhead
  unfold getSqlFattr
  rw [List.append_assoc, hclose, lex_of_yields hrun hm (hconds.append yields_close), hl]
  simp only [List.append_assoc]

/-! ## the rows -/

/-- The columns of `hpssix_object` by their names. -/
def ObjectRow.sqlRow (r : ObjectRow) : Row where
  flag c := [("valid".toList, r.valid)].lookup c
  number c :=
    [("oid".toList, r.oid.val), ("st_dev".toList, r.stDev), ("st_mode".toList, r.stMode),
      ("st_nlink".toList, r.stNlink), ("st_uid".toList, r.stUid), ("st_gid".toList, r.stGid),
      ("st_rdev".toList, r.stRdev), ("st_size".toList, r.stSize),
      ("st_blksize".toList, r.stBlksize), ("st_blocks".toList, r.stBlocks),
      ("st_atime".toList, r.stAtime), ("st_mtime".toList, r.stMtime),
      ("st_ctime".toList, r.stCtime)].lookup c

/-- Whether the text, read as a query for the ids of objects, selects that of a row. -/
def selectsRow (other : Text → Text → Option (Option Text × Nat)) (sql : Text) (r : ObjectRow) :
    Option Bool := do
  let tokens ← lex other sql
  let q ← readQuery tokens
  if q.table = "hpssix_object".toList ∧ q.column = "oid".toList then q.holds r.sqlRow else none

/-- The column of a condition holds the attribute. -/
theorem number_fstr (r : ObjectRow) (a : CondArg) : r.sqlRow.number (fstr a) = some (r.column a) := by
  cases a <;> rfl

/-- The operators mean the comparisons. -/
theorem relation_opstr (k : Cmp) :
    relation (opstr k) = some fun v n => k.holds (fun a b => a < b) v n := by
  cases k with
  | eq => rfl
  | gt => rfl
  | ge =>
      have h : relation (opstr .ge) = some fun a b => decide (b ≤ a) := rfl
      exact h.trans (congrArg some (funext₂ fun v n => Bool.eq_iff_iff.mpr (by simp [Cmp.holds])))
  | lt => rfl
  | le =>
      have h : relation (opstr .le) = some fun a b => decide (a ≤ b) := rfl
      exact h.trans (congrArg some (funext₂ fun v n => Bool.eq_iff_iff.mpr (by simp [Cmp.holds])))
  | ne => rfl

/-- A comparison means what its condition says. -/
theorem holds_term (c : FattrCond) (a : CondArg) (r : ObjectRow) :
    (c.term a).holds r.sqlRow = some (c.holds (r.column a)) := by
  unfold FattrCond.term FattrCond.holds
  cases c.op with
  | between => simp [Term.holds, number_fstr]
  | bitand => simp [Term.holds, number_fstr]
  | cmp k => simp [Term.holds, number_fstr, relation_opstr]

/-- The first term asks for the mark of removed objects. -/
theorem holds_validTerm (removed : Bool) (r : ObjectRow) :
    (validTerm removed).holds r.sqlRow = some (decide (r.valid = !removed)) := by
  have hflag : r.sqlRow.flag "valid".toList = some r.valid := rfl
  have htruth : truth (if removed then "false".toList else "true".toList) = some !removed := by
    cases removed <;> decide +kernel
  simp only [validTerm, Term.holds, hflag, htruth]
  rfl

theorem proper_term (c : FattrCond) (a : CondArg) : (c.term a).Proper := by
  unfold FattrCond.term
  cases c.op with
  | between => trivial
  | bitand => trivial
  | cmp k => cases k <;> exact of_literal (p := fun o => o ≠ [ '&' ]) (by decide)

/-- **Meaning**: the query selects what the conditions ask for. -/
theorem selectsRow_getSqlFattr (other : Text → Text → Option (Option Text × Nat)) (removed : Bool)
    (conds : CondArg → Option FattrCond) (r : ObjectRow) :
    ∃ b, selectsRow other (getSqlFattr removed conds) r = some b ∧
      (b = true ↔ r.valid = !removed ∧ ∀ a c, conds a = some c → c.holds (r.column a) = true) := by
  have hmem : ∀ t, t ∈ fattrTerms conds ↔ ∃ a c, conds a = some c ∧ c.term a = t := fun t => by
    have hall : ∀ a, a ∈ CondArg.all := fun a => by cases a <;> decide
    simp [fattrTerms, hall]
  have hproper : ∀ t ∈ validTerm removed :: fattrTerms conds, t.Proper := by
    refine List.forall_mem_cons.mpr ⟨trivial, fun t ht => ?_⟩
    obtain ⟨a, c, -, rfl⟩ := (hmem t).mp ht
    exact proper_term c a
  have hsome : ∀ t ∈ validTerm removed :: fattrTerms conds, (t.holds r.sqlRow).isSome = true := by
    refine List.forall_mem_cons.mpr ⟨by simp [holds_validTerm], fun t ht => ?_⟩
    obtain ⟨a, c, -, rfl⟩ := (hmem t).mp ht
    simp [holds_term]
  let q : Query := ⟨"fattr_oids".toList, "oid".toList, "hpssix_object".toList,
    validTerm removed :: fattrTerms conds⟩
  obtain ⟨b, hb, hiff⟩ := Query.holds_iff (q := q) hsome
  refine ⟨b, ?_, hiff.trans ?_⟩
  · simp only [selectsRow, lex_getSqlFattr, readQuery_tokens _ _ _ hproper, Option.bind_eq_bind,
      Option.bind_some, and_self, if_true]
    exact hb
  · rw [List.forall_mem_cons, holds_validTerm, Option.some.injEq, decide_eq_true_iff]
    refine and_congr_right fun _ => ⟨fun h a c hc => ?_, fun h t ht => ?_⟩
    · have hholds := h _ ((hmem _).mpr ⟨a, c, hc, rfl⟩)
      rwa [holds_term, Option.some.injEq] at hholds
    · obtain ⟨a, c, hc, rfl⟩ := (hmem t).mp ht
      rw [holds_term, h a c hc]

/-- **The attribute query** is the conjunction of its conditions, in any order. -/
theorem fattr_query_conjunction (other : Text → Text → Option (Option Text × Nat))
    (search : SearchFattr) {conds : List (CondArg × FattrCond)} (h : (conds.map Prod.fst).Nodup) :
    ∃ sql, fattrSql search conds = done sql ∧ sql.length < 4096 ∧
      (∀ conds' : List (CondArg × FattrCond), conds'.Perm conds → fattrSql search conds' = done sql) ∧
      ∀ r, ∃ b, selectsRow other sql r = some b ∧
        (b = true ↔ r.valid = !search.removed ∧ ∀ p ∈ conds, p.2.holds (r.column p.1) = true) := by
  refine ⟨getSqlFattr search.removed (assigned conds), fattrSql_eq search conds,
    length_getSqlFattr _ _, fun conds' hp => ?_, fun r => ?_⟩
  · rw [fattrSql_eq, assigned_perm h hp]
  · obtain ⟨b, hb, hiff⟩ := selectsRow_getSqlFattr other search.removed (assigned conds) r
    refine ⟨b, hb, hiff.trans ?_⟩
    simp only [assigned_eq_some_iff h, Prod.forall]

/-- `fattr_get_sql` begins with cleared memory. -/
def clearedSearch : SearchFattr := { removed := false, cond := fun _ => ⟨0, 0, 0, 0⟩ }

/-- An owner and a time. -/
theorem fattr_query_conjunction_two :
    ∃ sql, fattrSql clearedSearch [(.uid, ⟨.cmp .eq, 7, 0⟩), (.mtime, ⟨.between, 3, 9⟩)] = done sql ∧
      sql.length < 4096 ∧
      (∀ conds' : List (CondArg × FattrCond),
        conds'.Perm [(.uid, ⟨.cmp .eq, 7, 0⟩), (.mtime, ⟨.between, 3, 9⟩)] →
          fattrSql clearedSearch conds' = done sql) ∧
      ∀ r, ∃ b, selectsRow (fun _ _ => none) sql r = some b ∧
        (b = true ↔ r.valid = !false ∧
          ∀ p ∈ [(CondArg.uid, (⟨.cmp .eq, 7, 0⟩ : FattrCond)), (.mtime, ⟨.between, 3, 9⟩)],
            p.2.holds (r.column p.1) = true) :=
  fattr_query_conjunction (fun _ _ => none) clearedSearch (by decide)

/-! ## the options -/

/-- The rows that the options select are those that the query of `fattr_get_sql`
selects. -/
theorem selectsRow_of_options (other : Text → Text → Option (Option Text × Nat)) {o : FattrOptions}
    {sql : Text} (h : o.sql = some sql) (r : ObjectRow) :
    selectsRow other sql r = some (o.selects r) := by
  obtain ⟨conds, hconds, rfl⟩ := Option.map_eq_some_iff.mp h
  obtain ⟨b, hb, hiff⟩ := selectsRow_getSqlFattr other o.removed conds r
  rw [hb, Option.some.injEq, Bool.eq_iff_iff, hiff, FattrOptions.selects]
  have hall : ∀ a, a ∈ CondArg.all := fun a => by cases a <;> decide
  simp [hconds, hall, Option.all_eq_true]

end Hpssix
