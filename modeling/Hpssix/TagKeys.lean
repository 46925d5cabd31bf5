import Hpssix.Replay
import Hpssix.UserText
import Hpssix.XattrPipeline

/-!
# Hpssix.TagKeys

The key of a tag: how `hpssix-tag` composes it (`hpssix_tag_cmd_set_func`), how the
builder enters it, and how `hpssix-search` composes the key that it looks up
(`add_tag_cond`).

The prefix is configured for one program and fixed in the other, and the name is
printed into the statement of the search as it is.

* `tag_keys_agree_iff` — both programs mean the same key exactly if the prefix is
  the fixed one and the name has neither a quote nor a percent.
-/

namespace Hpssix

open CText Rel Sql SqlLexer Doubling

/-! ## the two programs -/

/-- `sizeof(xname)`. -/
def xnameSize : Nat := 64

/-- How `add_tag_cond` splits its argument, with what `parse_op` reads behind the
colon. -/
def splitTagCond (str : Text) (op : Option CondOp) (val1 val2 : Rat) : Option TagArg :=
  if ':' ∈ str then
    some { name := str.takeWhile (· ≠ ':'), val := (str.dropWhile (· ≠ ':')).tail, op, val1, val2 }
  else none

/-- The key that a search for one tag looks up: the literal behind `name=`, the first
of its statement. -/
def keyLookedUp (other : Text → Text → Option (Option Text × Nat)) (t : TagArg) : Option Text := do
  let l ← ({ tags := [t] } : SearchArgs).statement.bind (lex other)
  (literals l).head?

theorem splitTagCond_colon {name expr : Text} (hname : ':' ∉ name) (op : Option CondOp)
    (val1 val2 : Rat) :
    splitTagCond (name ++ ':' :: expr) op val1 val2 =
      some { name, val := expr, op, val1, val2 } := by
  have hpos : ∀ c ∈ name, (decide (c ≠ ':')) = true := by
    intro c hc
    refine decide_eq_true fun heq => hname ?_
    exact heq ▸ hc
  rw [splitTagCond, if_pos (by simp), List.takeWhile_append_of_pos hpos,
    List.dropWhile_append_of_pos hpos]
  simp

/-! ## the builder between them -/

/-- **The builder enters keys as they are.** -/
theorem processXattrsFile_enters {xmlParse : Text → Option XmlNode} {rval : Text → Option Float8}
    {xattr : List (Oid × Attrs)} {db db' : Db} (hexport : XattrExport xmlParse xattr) {key : Text}
    (hkey : ∃ r ∈ xattr, key ∈ r.2.map Prod.fst)
    (hrun : processXattrsFile xmlParse rval (exportXattr xattr) db = some db') :
    key ∈ db'.attrKey.map AttrKeyRow.name := by
  have hentered : key ∈ (populateXattrKeys xattr (deleteXattrs xattr db)).2.attrKey.map
      AttrKeyRow.name := by
    obtain ⟨r, hr, hk⟩ := hkey
    obtain ⟨a, ha, rfl⟩ := List.mem_map.mp hk
    have htag : (r.1, a) ∈ xattrTags xattr := mem_xattrTags.mpr ⟨r, hr, rfl, ha⟩
    obtain ⟨y, -, -, hkeyis, -⟩ := exists_of_forall₂_left
      (populateXattrKeys_keyedTag xattr (deleteXattrs xattr db)).2 htag
    obtain ⟨k, hk, -⟩ := hkeyis
    have hname : k.name = a.1 := by simpa using List.find?_some hk
    exact List.mem_map.mpr ⟨k, List.mem_of_find?_eq_some hk, hname⟩
  rw [processXattrsFile, builderCollectXattrs_exportXattr hexport] at hrun
  split at hrun
  · simp only [Option.bind_eq_bind, Option.bind_some, flatMap_tagsRead, deleteXattrs_eq,
      populateKeys_map Fin.val parsedVal, Option.bind_eq_some_iff] at hrun
    obtain ⟨lines, -, rows, -, vals, -, hinsert⟩ := hrun
    obtain ⟨-, rfl⟩ : _ ∧ _ = db' := by simpa [insertAttrVal] using hinsert
    exact hentered
  · contradiction

/-! ## the key in the statement -/

/-- What `add_tag_cond` puts before the name. -/
def fixedPrefix : Text := "user.hpssix.".toList

/-- The text of the statement behind the quote that closes the key: there are no more
quotes, or those of one pattern. -/
def KeyTail (r : Text) : Prop :=
  (∃ s, r = ')' :: s ∧ quoteChar ∉ s) ∨
    ∃ s val u, r = ')' :: (s ++ quoteChar :: '%' :: (val ++ '%' :: quoteChar :: u)) ∧
      (∀ c ∈ s, c ≠ quoteChar ∧ c ≠ '\n' ∧ c ≠ '\r') ∧ s.getLast? = some ' ' ∧
      quoteChar ∉ val ∧ quoteChar ∉ u

section Statement
variable {other : Text → Text → Option (Option Text × Nat)} {t : TagArg} {r v x : Text}
  {l : List Tok} {m : Mode}

/-- The parts of a statement behind the key. -/
def partsBehind (t : TagArg) : List Part :=
  (condParts true t.cond).drop 2 ++
    [.text ")".toList, .text (selectText { tags := [t] }), .text (limitText 0)]

/-- The parts of a statement with one tag condition. -/
theorem parts_tag (t : TagArg) (conds : CondArg → Option FattrCond) :
    ({ tags := [t] } : SearchArgs).parts conds =
      .text ('\n' :: getSqlFattr false conds) ::
        .text ",\n  tag_oids (oid) AS\n    (SELECT oid FROM hpssix_attr_val".toList ::
        .text (" WHERE ".toList ++ "(kid=(SELECT kid FROM hpssix_attr_key WHERE name=".toList) ::
        .user false t.cond.tagName false :: partsBehind t := by
  have hcond : condParts true t.cond =
      .text (" WHERE ".toList ++ "(kid=(SELECT kid FROM hpssix_attr_key WHERE name=".toList) ::
        .user false t.cond.tagName false :: (condParts true t.cond).drop 2 := rfl
  have htags : tagParts [t.cond] =
      .text ",\n  tag_oids (oid) AS\n    (SELECT oid FROM hpssix_attr_val".toList ::
        (condParts true t.cond ++ [.text ")".toList]) := by
    rw [tagParts, if_neg (List.cons_ne_nil _ _)]
    simp
  show _ :: (tagParts [t.cond] ++ [] ++ [_] ++ [] ++ [] ++ [_]) = _
  rw [htags, hcond, partsBehind]
  simp

/-- The text behind the key has no quotes. -/
theorem quote_not_mem_behind {s : Text} (hs : .text s ∈ partsBehind t) : quoteChar ∉ s := by
  have hmem : .text s ∈ SearchArgs.parts { tags := [t] } fun _ => none := by
    rw [parts_tag]
    simp [hs]
  exact (not_mem_text s hmem).1

/-- The end of the statement. -/
def statementEnd (t : TagArg) : Text := ")".toList ++ (selectText { tags := [t] } ++ limitText 0)

theorem quote_not_mem_statementEnd (t : TagArg) : quoteChar ∉ statementEnd t := by
  simp only [statementEnd, List.mem_append, not_or]
  exact ⟨quote_not_mem_behind (t := t) (by simp [partsBehind]),
    quote_not_mem_behind (t := t) (by simp [partsBehind]),
    quote_not_mem_behind (t := t) (by simp [partsBehind])⟩

/-- Numbers stand behind the key without a literal. -/
theorem keyTail_of_text {s : Text} (hs : (condParts true t.cond).drop 2 = [.text (')' :: s)]) :
    KeyTail (outs ((partsBehind t).map Part.piece)) := by
  refine .inl ⟨s ++ statementEnd t, ?_, ?_⟩
  · rw [partsBehind, hs]
    simp [outs, Part.piece, Piece.out, statementEnd]
  · have hmem : quoteChar ∉ ')' :: s := quote_not_mem_behind (t := t) (by simp [partsBehind, hs])
    rw [List.mem_cons, not_or] at hmem
    rw [List.mem_append, not_or]
    exact ⟨hmem.2, quote_not_mem_statementEnd t⟩

/-- A pattern is one literal. -/
theorem keyTail_of_pattern (hcond : t.op = none) (hval : Verbatim t.val) :
    KeyTail (outs ((partsBehind t).map Part.piece)) := by
  have hclose : ") AND sval LIKE ".toList = ')' :: " AND sval LIKE ".toList := by
    repeat rw [String.toList_ofList]
  have hquote : quote ('%' :: (t.val ++ ['%'])) = quoteChar :: '%' :: (t.val ++ ['%', quoteChar]) := by
    rw [quote_of_plain]
    · simp
    · intro c hc
      simp only [List.mem_cons, List.mem_append, List.not_mem_nil, or_false] at hc
      obtain rfl | hc | rfl := hc
      · decide
      · exact fun heq => hval.1 (heq ▸ hc)
      · decide
  have hfree : quoteChar ∉ " AND sval LIKE ".toList ∧ '\n' ∉ " AND sval LIKE ".toList ∧
      '\r' ∉ " AND sval LIKE ".toList := by
    rw [String.toList_ofList]
    decide
  refine .inr ⟨" AND sval LIKE ".toList, t.val, ")".toList ++ statementEnd t, ?_, ?_, ?_, hval.1, ?_⟩
  · rw [partsBehind, condParts, show t.cond.op = none from hcond]
    simp [outs, Part.piece, Piece.out, affix, show t.cond.tagVal = t.val from rfl, hquote, hclose,
      statementEnd]
  · exact fun c hc => ⟨fun h => hfree.1 (h ▸ hc), fun h => hfree.2.1 (h ▸ hc),
      fun h => hfree.2.2 (h ▸ hc)⟩
  · rw [String.toList_ofList]
    rfl
  · rw [List.mem_append, not_or]
    exact ⟨quote_not_mem_behind (t := t) (by simp [partsBehind]), quote_not_mem_statementEnd t⟩

/-- The pieces behind the key. -/
theorem keyTail_outs (hop : t.op = none → Verbatim t.val) :
    KeyTail (outs ((partsBehind t).map Part.piece)) := by
  cases hcond : t.op with
  | none => exact keyTail_of_pattern hcond (hop hcond)
  | some op =>
      have hcondop : t.cond.op = some op := hcond
      cases op with
      | cmp c =>
          have hclose : ") AND rval ".toList = ')' :: " AND rval ".toList := by
            repeat rw [String.toList_ofList]
          refine keyTail_of_text (s := " AND rval ".toList ++ opstr c ++ " ".toList ++
            Decimal.lf t.cond.val1 ++ ")".toList) ?_
          rw [condParts, hcondop]
          simp [hclose]
      | between =>
          have hclose : ") AND rval BETWEEN ".toList = ')' :: " AND rval BETWEEN ".toList := by
            repeat rw [String.toList_ofList]
          refine keyTail_of_text (s := " AND rval BETWEEN ".toList ++ Decimal.lf t.cond.val1 ++
            " AND ".toList ++ Decimal.lf t.cond.val2 ++ ")".toList) ?_
          rw [condParts, hcondop]
          simp [hclose]

/-- Behind the key there is only the text of the expression. -/
theorem clean_partsBehind (hop : t.op = none → Verbatim t.val) : ∀ p ∈ partsBehind t, p.Clean := by
  have hcondop : t.cond.op = t.op := rfl
  intro p hp
  cases p with
  | text s => trivial
  | user pattern s escaped =>
      rw [partsBehind, condParts, hcondop] at hp
      cases hcond : t.op with
      | none =>
          obtain ⟨rfl, rfl, rfl⟩ : pattern = true ∧ s = t.val ∧ escaped = false := by
            simpa [hcond, show t.cond.tagVal = t.val from rfl] using hp
          exact hop hcond
      | some op => cases op <;> simp [hcond] at hp

/-- The statement around the key. -/
theorem exists_keyTail (hop : t.op = none → Verbatim t.val) {stmt : Text}
    (hstmt : ({ tags := [t] } : SearchArgs).statement = some stmt) :
    ∃ head name r, Fixed head ∧
      stmt = head ++ quoteChar :: (fixedPrefix ++ (name ++ quoteChar :: r)) ∧
      double (· = '%') name = t.name ∧ KeyTail r := by
  obtain ⟨buf, hbuf, hformat⟩ := Option.bind_eq_some_iff.mp hstmt
  obtain ⟨conds, -, hraws⟩ := sqlbuf_eq hbuf
  have hhead : Fixed (('\n' :: getSqlFattr false conds) ++
      (",\n  tag_oids (oid) AS\n    (SELECT oid FROM hpssix_attr_val".toList ++
        (" WHERE ".toList ++ "(kid=(SELECT kid FROM hpssix_attr_key WHERE name=".toList))) := by
    have htags : Fixed ",\n  tag_oids (oid) AS\n    (SELECT oid FROM hpssix_attr_val".toList := of_literal (by decide)
    have hwhere :
        Fixed (" WHERE ".toList ++ "(kid=(SELECT kid FROM hpssix_attr_key WHERE name=".toList) := by
      repeat rw [String.toList_ofList]
      decide
    exact (fixed_getSqlFattr false conds).append_fixed (htags.append_fixed hwhere)
  have htext : ∀ s, .text s ∈ (partsBehind t).map Part.piece → Bare s := by
    have hread := (readable_parts { tags := [t] } conds).chars
    rw [parts_tag] at hread
    intro s hs
    exact hread s (by simp [hs])
  rw [vasprintf_eq_some_iff, hraws, parts_tag, raws_text, raws_text, raws_text, raws_verbatim,
    raws_eq_double (clean_partsBehind hop) htext] at hformat
  generalize hg : ('\n' :: getSqlFattr false conds) ++
    (",\n  tag_oids (oid) AS\n    (SELECT oid FROM hpssix_attr_val".toList ++
      (" WHERE ".toList ++ "(kid=(SELECT kid FROM hpssix_attr_key WHERE name=".toList)) = head at hhead
  have hsplit : double (· = '%') stmt = (head ++ quoteChar :: fixedPrefix) ++
      (t.name ++ quoteChar :: double (· = '%') (outs ((partsBehind t).map Part.piece))) := by
    rw [← hformat, ← hg, show t.cond.tagName = fixedPrefix ++ t.name from rfl]
    simp only [List.append_assoc, List.cons_append]
  have hfree : ∀ c ∈ head ++ quoteChar :: fixedPrefix, c ≠ '%' := by
    intro c hc
    obtain hc | hc := List.mem_append.mp hc
    · exact (hhead.1 c hc).2
    · have hfixed : ∀ c ∈ quoteChar :: fixedPrefix, c ≠ '%' := by
        unfold fixedPrefix
        rw [String.toList_ofList]
        exact List.forall_mem_ne'.mpr (by decide)
      exact hfixed c hc
  obtain ⟨s, rfl, hs⟩ := double_eq_append hfree hsplit
  obtain ⟨name, r, rfl, hname, hr⟩ := double_eq_append_cons (p := (· = '%')) (by decide) hs
  exact ⟨head, name, r, hhead, by simp, hname, double_inj.mp hr ▸ keyTail_outs hop⟩

/-! ## how the key is read -/

/-- A key that goes on takes the text of the program with it. -/
theorem lexFrom_keyTail_literal (hr : KeyTail r) (hl : lexFrom other (.literal v) r = some l) :
    ∃ z, (literals l).head? = some (v ++ z) ∧ quoteChar ∉ z ∧ z.getLast? = some ' ' := by
  obtain ⟨s, rfl, hs⟩ | ⟨s, val, u, rfl, hs, hlast, -, -⟩ := hr
  · have hnone : quoteChar ∉ ')' :: s := by
      rw [List.mem_cons, not_or]
      exact ⟨by decide, hs⟩
    rw [← List.append_nil (')' :: s), lexFrom_literal hnone] at hl
    contradiction
  · have hnone : quoteChar ∉ ')' :: s := by
      rw [List.mem_cons, not_or]
      exact ⟨by decide, fun hmem => (hs _ hmem).1 rfl⟩
    rw [← List.cons_append, lexFrom_literal hnone,
      lexFrom_cons_silent (step_literal_quote _) (fun _ => Mode.noConfusion)] at hl
    refine ⟨')' :: s, ?_, hnone, ?_⟩
    · have hgap : step (.gap (v ++ ')' :: s) false) '%' = _ :=
        step_gap_text (by decide) (by decide) (by decide)
      exact head?_of_flush hgap hl
    · rw [List.getLast?_cons, hlast]
      rfl

/-- A key that was closed is not opened again. -/
theorem lexFrom_keyTail_closed (hr : KeyTail r) (hm : m.closed = some v)
    (hl : lexFrom other m r = some l) : (literals l).head? = some v := by
  have hend : ∀ {m : Mode} {u : Text}, m.closed = some v → quoteChar ∉ u →
      lexFrom other m u = some l → (literals l).head? = some v := by
    intro m u hm hu hl
    rw [← List.append_nil u] at hl
    obtain hhead | ⟨m', hm', hl'⟩ := lexFrom_closed hm hu hl
    · exact hhead
    · exact head?_of_finish hm' hl'
  obtain ⟨s, rfl, hs⟩ | ⟨s, val, u, rfl, hs, -, hval, hu⟩ := hr
  · refine hend hm ?_ hl
    rw [List.mem_cons, not_or]
    exact ⟨by decide, hs⟩
  · have hquote : ∀ x, lexFrom other (.remark v) (quoteChar :: x) = lexFrom other (.remark v) x :=
      fun x => lexFrom_cons_silent rfl (fun _ => Mode.noConfusion)
    obtain hhead | hl := lexFrom_break hm (by decide) (by decide) (by decide) hl
    · exact hhead
    · -- a remark: it ends in the pattern, or behind the statement's next newline
      rw [lexFrom_remark ⟨fun h => (hs _ h).2.1 rfl, fun h => (hs _ h).2.2 rfl⟩, hquote,
        ← List.cons_append] at hl
      have hpattern : quoteChar ∉ '%' :: val := by
        rw [List.mem_cons, not_or]
        exact ⟨by decide, hval⟩
      obtain hhead | ⟨m', hm', hl⟩ := lexFrom_closed (m := .remark v) rfl hpattern hl
      · exact hhead
      · obtain hhead | hl := lexFrom_break hm' (by decide) (by decide) (by decide) hl
        · exact hhead
        · rw [hquote] at hl
          exact hend (m := .remark v) rfl hu hl

/-- A quote in the key is one that was written twice, where its own quote may be the
second. -/
theorem lexFrom_key (hr : KeyTail r) (hm : m.held = some v)
    (hl : lexFrom other m (x ++ quoteChar :: r) = some l) :
    ∃ w, (literals l).head? = some (v ++ w) ∧
      2 * w.count quoteChar ≤ x.count quoteChar + 1 + m.owed := by
  have hcount : (x ++ [quoteChar]).count quoteChar = x.count quoteChar + 1 := by
    rw [List.count_append, List.count_singleton_self]
  have hplain : ∀ {z : Text}, quoteChar ∉ z → z.count quoteChar = 0 := List.count_eq_zero.mpr
  rw [List.append_cons] at hl
  obtain ⟨w, hhead, hw⟩ | ⟨m', w, hm', hl, hw⟩ := lexFrom_held hm hl
  · exact ⟨w, hhead, by omega⟩
  · have hclosed : m'.closed = some (v ++ w) → ∃ w, (literals l).head? = some (v ++ w) ∧
        2 * w.count quoteChar ≤ x.count quoteChar + 1 + m.owed := fun hm' =>
      ⟨w, lexFrom_keyTail_closed hr hm' hl, by omega⟩
    cases m' with
    | literal u =>
        obtain rfl : u = v ++ w := Option.some.inj hm'
        obtain ⟨z, hhead, hz, -⟩ := lexFrom_keyTail_literal hr hl
        refine ⟨w ++ z, by rw [hhead, List.append_assoc], ?_⟩
        rw [List.count_append, hplain hz]
        omega
    | closing u => exact hclosed hm'
    | gap u newline => exact hclosed hm'
    | dash u => exact hclosed hm'
    | remark u => exact hclosed hm'
    | _ => contradiction

/-- A key without quotes. -/
theorem lexFrom_key_plain (hr : KeyTail r) (hx : quoteChar ∉ x)
    (hl : lexFrom other (.literal v) (x ++ quoteChar :: r) = some l) :
    (literals l).head? = some (v ++ x) := by
  rw [lexFrom_literal hx, lexFrom_cons_silent (step_literal_quote _) (fun _ => Mode.noConfusion)] at hl
  exact lexFrom_keyTail_closed hr rfl hl

/-- A key with one quote, that is its last character or is lost. -/
theorem lexFrom_key_quote {a b : Text} (hr : KeyTail r) (ha : quoteChar ∉ a) (hb : quoteChar ∉ b)
    (hl : lexFrom other (.literal v) (a ++ quoteChar :: (b ++ quoteChar :: r)) = some l) :
    ∃ w, (literals l).head? = some (v ++ w) ∧
      (b = [] ∧ w.getLast? = some ' ' ∨ w.count quoteChar = 0) := by
  rw [lexFrom_literal ha, lexFrom_cons_silent (step_literal_quote _) (fun _ => Mode.noConfusion)] at hl
  cases b with
  | nil =>
      rw [List.nil_append, lexFrom_cons_silent (step_closing_quote _) (fun _ => Mode.noConfusion)] at hl
      obtain ⟨z, hhead, -, hz⟩ := lexFrom_keyTail_literal hr hl
      refine ⟨a ++ [quoteChar] ++ z, by simp [hhead], .inl ⟨rfl, ?_⟩⟩
      rw [List.getLast?_append, hz]
      rfl
  | cons c b =>
      rw [List.mem_cons, not_or] at hb
      have hcount : a.count quoteChar = 0 := List.count_eq_zero.mpr ha
      rw [List.cons_append] at hl
      obtain ⟨e, hflush⟩ | ⟨m', hstep, hm', howed⟩ :=
        step_closed (m := .closing (v ++ a)) rfl (Ne.symm hb.1)
      · exact ⟨a, head?_of_flush hflush hl, .inr hcount⟩
      · have hspecial : ∀ s, m' ≠ .special s := by
          rintro s rfl
          contradiction
        rw [lexFrom_cons_silent hstep hspecial] at hl
        obtain ⟨w, hhead, hw⟩ := lexFrom_key hr (Mode.held_of_closed hm') hl
        have hcountb : b.count quoteChar = 0 := List.count_eq_zero.mpr hb.2
        refine ⟨a ++ w, by rw [hhead, List.append_assoc], .inr ?_⟩
        rw [List.count_append]
        omega

/-- What is looked up is read in the statement of the search. -/
theorem keyLookedUp_reads (hop : t.op = none → Verbatim t.val) {key : Text}
    (h : keyLookedUp other t = some key) :
    ∃ name r l, double (· = '%') name = t.name ∧ KeyTail r ∧
      lexFrom other (.literal fixedPrefix) (name ++ quoteChar :: r) = some l ∧
      (literals l).head? = some key := by
  obtain ⟨l, hl, hkey⟩ := Option.bind_eq_some_iff.mp h
  obtain ⟨stmt, hstmt, hlex⟩ := Option.bind_eq_some_iff.mp hl
  obtain ⟨head, name, r, hhead, rfl, hname, hr⟩ := exists_keyTail hop hstmt
  obtain ⟨t₀, m, hrun, hopens, ht₀⟩ := hhead.plain.reads
  have hfixed : quoteChar ∉ fixedPrefix := by
    unfold fixedPrefix
    rw [String.toList_ofList]
    decide
  rw [lex, lexFrom_append hrun, lexFrom_cons (step_quote hopens) (fun _ => Mode.noConfusion),
    lexFrom_literal hfixed] at hlex
  obtain ⟨l₁, hl₁, rfl⟩ := Option.map_eq_some_iff.mp hlex
  obtain ⟨l₂, hl₂, rfl⟩ := Option.map_eq_some_iff.mp hl₁
  refine ⟨name, r, l₂, hname, hr, hl₂, ?_⟩
  rwa [literals_append, literals_append, ht₀, literals_pending hopens] at hkey

end Statement

/-! ## the keys agree -/

/-- Where the same mark stands in two texts, if the first has it nowhere before. -/
theorem append_cons_eq_append_cons {α : Type _} {c : α} {a b s t : List α} (ha : c ∉ a)
    (h : a ++ c :: s = b ++ c :: t) (hlen : s.length ≤ t.length) : a = b ∧ s = t := by
  have hsum := congrArg List.length h
  simp only [List.length_append, List.length_cons] at hsum
  obtain ⟨e, rfl⟩ : b <+: a := List.prefix_of_prefix_length_le (List.prefix_append b (c :: t))
    (h ▸ List.prefix_append a (c :: s)) (by omega)
  rw [List.append_assoc] at h
  have hrest := List.append_cancel_left h
  cases e with
  | nil => exact ⟨List.append_nil b, (List.cons.inj hrest).2⟩
  | cons d e =>
      obtain rfl := (List.cons.inj hrest).1
      simp at ha

/-- The fixed prefix is the one of `hpssix-tag`, configured as `hpssix`. -/
theorem fixedPrefix_eq : fixedPrefix = "user.".toList ++ ("hpssix".toList ++ ['.']) := by
  unfold fixedPrefix
  repeat rw [String.toList_ofList]
  rfl

theorem tagXname_eq (tagPrefix name : Text) :
    tagXname tagPrefix name = "user.".toList ++ (tagPrefix ++ '.' :: name) := by
  have hdot : ".".toList = ['.'] := by rw [String.toList_ofList]
  unfold tagXname
  rw [List.append_assoc, List.append_assoc]
  exact congrArg (fun dot => "user.".toList ++ (tagPrefix ++ (dot ++ name))) hdot

/-- Keys that agree have the parts behind `user.` in common. -/
theorem tagXname_eq_iff {tagPrefix name w : Text} :
    fixedPrefix ++ w = tagXname tagPrefix name ↔
      "hpssix".toList ++ '.' :: w = tagPrefix ++ '.' :: name := by
  rw [fixedPrefix_eq, tagXname_eq, List.append_assoc, List.append_assoc, List.append_cancel_left_eq,
    List.singleton_append]

/-- A key that is looked up as it was set. -/
theorem verbatim_of_keyLookedUp {other : Text → Text → Option (Option Text × Nat)} {t : TagArg}
    {tagPrefix : Text} (hop : t.op = none → Verbatim t.val)
    (h : keyLookedUp other t = some (tagXname tagPrefix t.name)) :
    tagPrefix = "hpssix".toList ∧ Verbatim t.name := by
  obtain ⟨name, r, l, hname, hr, hl, hkey⟩ := keyLookedUp_reads hop h
  have hdot : '.' ∉ "hpssix".toList := by
    rw [String.toList_ofList]
    decide
  have hquotes : "hpssix".toList.count quoteChar = 0 := by
    rw [String.toList_ofList]
    rfl
  -- whatever is read has the quotes of prefix and name
  have hcount : ∀ w, (literals l).head? = some (fixedPrefix ++ w) →
      "hpssix".toList ++ '.' :: w = tagPrefix ++ '.' :: t.name ∧
        w.count quoteChar = tagPrefix.count quoteChar + name.count quoteChar := by
    intro w hw
    have hsame : "hpssix".toList ++ '.' :: w = tagPrefix ++ '.' :: t.name :=
      tagXname_eq_iff.mp (Option.some.inj (hw.symm.trans hkey))
    have hdouble : (double (· = '%') name).count quoteChar = name.count quoteChar :=
      countP_double (by rintro c rfl; decide) name
    have := congrArg (List.count quoteChar) hsame
    rw [List.count_append, List.count_append, List.count_cons_of_ne (by decide),
      List.count_cons_of_ne (by decide), hquotes, ← hname, hdouble] at this
    exact ⟨hsame, by omega⟩
  by_cases hq : quoteChar ∈ name
  · exfalso
    obtain ⟨w, hhead, hle⟩ := lexFrom_key hr rfl hl
    have hw := (hcount w hhead).2
    have hpos : 0 < name.count quoteChar := List.count_pos_iff.mpr hq
    have howed : Mode.owed (.literal fixedPrefix) = 0 := rfl
    obtain ⟨a, b, rfl, ha⟩ := List.eq_append_cons_of_mem hq
    rw [List.count_append, List.count_cons_self] at hw hle hpos
    have hb : quoteChar ∉ b := List.count_eq_zero.mp (by omega)
    rw [List.append_assoc, List.cons_append] at hl
    obtain ⟨u, hu, ⟨rfl, hlast⟩ | hnone⟩ := lexFrom_key_quote hr ha hb hl
    · -- the key ends with a blank, and the name with a quote
      have hends := congrArg List.getLast? (hcount u hu).1
      have hquote : double (· = '%') [quoteChar] = [quoteChar] := rfl
      rw [← hname, double_append, hquote, List.getLast?_append, List.getLast?_append,
        List.getLast?_cons, hlast, List.getLast?_cons, List.getLast?_append] at hends
      have hchar : some ' ' = some quoteChar := hends
      exact absurd hchar (by decide)
    · have := (hcount u hu).2
      rw [List.count_append, List.count_cons_self] at this
      omega
  · have hsame := (hcount name (lexFrom_key_plain hr hq hl)).1
    have hlen : name.length ≤ t.name.length := by
      rw [← hname, length_double]
      exact Nat.le_add_right _ _
    obtain ⟨hstart, heq⟩ := append_cons_eq_append_cons hdot hsame hlen
    refine ⟨hstart.symm, heq ▸ hq, fun hmem => ?_⟩
    exact double_eq_self_iff.mp (hname.trans heq.symm) '%' (heq ▸ hmem) rfl

/-- A clean key is looked up. -/
theorem keyLookedUp_of_verbatim (other : Text → Text → Option (Option Text × Nat)) {t : TagArg}
    (hop : t.op = none → Verbatim t.val) (hname : Verbatim t.name)
    (hfits : ({ tags := [t] } : SearchArgs).sqlbuf.isSome) :
    keyLookedUp other t = some (tagXname "hpssix".toList t.name) := by
  have hclean : ∀ p ∈ ({ tags := [t] } : SearchArgs).users, p.Clean := by
    refine (texts_iff { tags := [t] }).mp ⟨?_, ?_, ?_, ?_, ?_⟩
    · simpa using hname
    · simpa using hop
    · exact fun k hk => absurd hk (Option.not_mem_none k)
    · exact fun k hk => absurd hk (Option.not_mem_none k)
    · exact fun k hk => absurd hk (Option.not_mem_none k)
  obtain ⟨conds, l, -, hl, hlits, -⟩ := lex_statement other hfits hclean
  have hkey : fixedPrefix ++ t.name = tagXname "hpssix".toList t.name := tagXname_eq_iff.mpr rfl
  rw [keyLookedUp, hl, ← hkey]
  show (literals l).head? = _
  rw [hlits]
  rfl

/-- **Search and tagging agree on keys**: the builder enters the key that
`hpssix-tag` sets as it is; the search for the same name looks it up exactly if the
configured prefix is `hpssix` and the name has neither a quote nor a percent. -/
theorem tag_keys_agree_iff {other : Text → Text → Option (Option Text × Nat)}
    {tagPrefix name expr : Text} {op : Option CondOp} {val1 val2 : Rat} {t : TagArg}
    (hname : ':' ∉ name) (hsearch : splitTagCond (name ++ ':' :: expr) op val1 val2 = some t)
    (hexpr : op = none → Verbatim expr) (hfits : ({ tags := [t] } : SearchArgs).sqlbuf.isSome) :
    (∀ {xmlParse : Text → Option XmlNode} {rval : Text → Option Float8}
        {xattr : List (Oid × Attrs)} {db db' : Db}, XattrExport xmlParse xattr →
      (∃ r ∈ xattr, tagXname tagPrefix name ∈ r.2.map Prod.fst) →
      processXattrsFile xmlParse rval (exportXattr xattr) db = some db' →
        tagXname tagPrefix name ∈ db'.attrKey.map AttrKeyRow.name) ∧
      (keyLookedUp other t = some (tagXname tagPrefix name) ↔
        tagPrefix = "hpssix".toList ∧ Verbatim name) := by
  rw [splitTagCond_colon hname] at hsearch
  obtain rfl := Option.some.inj hsearch
  refine ⟨fun hexport hkey hrun => processXattrsFile_enters hexport hkey hrun, ?_, ?_⟩
  · exact verbatim_of_keyLookedUp hexpr
  · rintro ⟨rfl, hverbatim⟩
    exact keyLookedUp_of_verbatim other hexpr hverbatim hfits

/-- The condition of `--tag=color:>5`, which finds the tags of the prefix `hpssix`. -/
def colorArg : TagArg :=
  { name := "color".toList, val := ['>', '5'], op := some (.cmp .gt), val1 := 5, val2 := 0 }

theorem tag_keys_agree_iff_color :
    (∀ {xmlParse : Text → Option XmlNode} {rval : Text → Option Float8}
        {xattr : List (Oid × Attrs)} {db db' : Db}, XattrExport xmlParse xattr →
      (∃ r ∈ xattr, tagXname "hpssix".toList "color".toList ∈ r.2.map Prod.fst) →
      processXattrsFile xmlParse rval (exportXattr xattr) db = some db' →
        tagXname "hpssix".toList "color".toList ∈ db'.attrKey.map AttrKeyRow.name) ∧
      (keyLookedUp (fun _ _ => none) colorArg =
          some (tagXname "hpssix".toList "color".toList) ↔
        "hpssix".toList = "hpssix".toList ∧ Verbatim "color".toList) :=
  tag_keys_agree_iff (by decide +kernel)
    (splitTagCond_colon (by decide +kernel) (some (.cmp .gt)) 5 0) (fun h => nomatch h)
    (by decide +kernel)

/-- The prefix is configured: the search looks for another key. -/
theorem configured_prefix_not_looked_up :
    ¬ ∀ (tagPrefix name : Text), ':' ∉ name → (tagXname tagPrefix name).length < xnameSize →
      keyLookedUp (fun _ _ => none) { colorArg with name } = some (tagXname tagPrefix name) := by
  intro h
  have hkey := h ['p'] ['c'] (by decide) (by decide +kernel)
  have hop : colorArg.op = none → Verbatim colorArg.val := by
    rintro ⟨⟩
  have hprefix := (verbatim_of_keyLookedUp (t := { colorArg with name := ['c'] }) hop hkey).1
  exact absurd hprefix (by decide +kernel)

end Hpssix
