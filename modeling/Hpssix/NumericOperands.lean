import Mathlib.Tactic.Positivity
import Hpssix.Base.Literal
import Hpssix.ParseOp
import Hpssix.TagSearch

/-!
# Hpssix.NumericOperands

The numbers that `hpssix-search` prints into its query for the operands of a
condition (`parse_fattr_condition`, `get_sql_fattr`, `add_tag_cond` and
`write_numeric_predicate`).

`parse_op` accepts an operand with `%lf`.  A condition on a file attribute takes
its value with `strtoull`, and one on a tag prints it with six digits.

* `numeric_operands_iff` — which operands are compared with as they are written.
-/

namespace Hpssix

open CText Fate Scanf

/-! ## conditions on tags -/

def FattrOp.condOp : FattrOp → Option CondOp
  | .cmp c => some (.cmp c)
  | .between => some .between
  | .bitand => none

/-- `sscanf(val, "%lf", …)`, where it stores a finite number; an operand that is not set
leaves the zero of the array. -/
def finite : Option Text → Option Rat
  | none => some 0
  | some val =>
      match scanLf val with
      | .ok (.num q) _ => some q
      | _ => none

/-- `add_tag_cond`; none where it exits, or for an operand that is no finite number. -/
def readTagCond (str : Text) : Fate (Option TagCond) := do
  match ← addTagCondStr str with
  | none => pure none
  | some (name, _, parsed) =>
      match parsed.op.bind FattrOp.condOp with
      | none => pure (some (addTagCond name parsed.str none 0 0))
      | some op => pure (do
          let val1 ← finite parsed.val1
          let val2 ← finite parsed.val2
          some (addTagCond name parsed.str (some op) val1 val2))

/-! ## the numbers in the query -/

/-- The numbers that `get_sql_fattr` prints. -/
def FattrCond.numbers (c : FattrCond) : List Text :=
  match c.op with
  | .between => [decimal c.val1.toNat, decimal c.val2.toNat]
  | _ => [decimal c.val1.toNat]

/-- The numbers that `write_numeric_predicate` prints.  Its call for `BETWEEN` passes the
name as well; the conversions take the operands that are passed as `double`. -/
def TagCond.numbers (c : TagCond) : List Text :=
  match c.op with
  | some .between => [Decimal.lf c.val1, Decimal.lf c.val2]
  | some (.cmp _) => [Decimal.lf c.val1]
  | none => []

theorem numbers_cmp (name val : Text) (k : Cmp) (q q' : Rat) :
    (addTagCond name val (some (.cmp k)) q q').numbers = [Decimal.lf q] := rfl

theorem numbers_between (name val : Text) (q q' : Rat) :
    (addTagCond name val (some .between) q q').numbers = [Decimal.lf q, Decimal.lf q'] := rfl

/-- They stand in the query. -/
theorem infix_sql {c : FattrCond} {a : CondArg} {t : Text} (h : t ∈ c.numbers) : t <:+: c.sql a := by
  obtain ⟨op, val1, val2⟩ := c
  cases op with
  | between =>
      obtain rfl | h := List.mem_cons.mp h
      · exact (List.suffix_append _ _).isInfix.trans
          ((List.prefix_append _ _).isInfix.trans (List.prefix_append _ _).isInfix)
      · rw [List.mem_singleton.mp h]
        exact (List.suffix_append _ _).isInfix
  | bitand =>
      rw [List.mem_singleton.mp h]
      exact ⟨_, _, rfl⟩
  | cmp c =>
      rw [List.mem_singleton.mp h]
      exact (List.suffix_append _ _).isInfix

/-- They stand in the predicate of a tag. -/
theorem infix_writePredicate {c : TagCond} {t : Text} (h : t ∈ c.numbers) :
    t <:+: writePredicate c := by
  obtain ⟨tagName, tagVal, op, val1, val2⟩ := c
  cases op with
  | none => cases h
  | some op =>
      cases op with
      | between =>
          obtain rfl | h := List.mem_cons.mp h
          · exact (List.suffix_append _ _).isInfix.trans ((List.prefix_append _ _).isInfix.trans
              ((List.prefix_append _ _).isInfix.trans (List.prefix_append _ _).isInfix))
          · rw [List.mem_singleton.mp h]
            exact ⟨_, _, rfl⟩
      | cmp c =>
          rw [List.mem_singleton.mp h]
          exact ⟨_, _, rfl⟩

/-- The operands of a numeric condition are these literals. -/
def Operands (str : Text) (ls : List Literal) : Prop :=
  ∃ r, parseOp str = done r ∧ r.op.isSome ∧
    r.val1.toList ++ r.val2.toList = ls.map Literal.text

/-- Texts that denote the values of literals, one each. -/
theorem exists_denotes {ts : List Text} {ls : List Literal}
    (h : List.Forall₂ Denotes ts (ls.map Literal.value)) {l : Literal} (hl : l ∈ ls) :
    ∃ t ∈ ts, Denotes t l.value := by
  obtain ⟨i, hi, hget⟩ := List.mem_iff_getElem.mp (List.mem_map_of_mem hl)
  have hlen : i < ts.length := h.length_eq ▸ hi
  have hdenotes : Denotes ts[i] (ls.map Literal.value)[i] := h.get hlen hi
  exact ⟨ts[i], List.getElem_mem hlen, hget ▸ hdenotes⟩

/-- An accepted condition on a file attribute compares with the values of the literals. -/
def FattrFaithful (str : Text) (ls : List Literal) : Prop :=
  ∀ cond c, parseFattrCondition cond str = done (some c) →
    List.Forall₂ Denotes c.numbers (ls.map Literal.value)

/-- And one on a tag. -/
def TagFaithful (str : Text) (ls : List Literal) : Prop :=
  ∀ c, readTagCond str = done (some c) → List.Forall₂ Denotes c.numbers (ls.map Literal.value)

/-- What a faithful condition compares with stands in the query. -/
theorem FattrFaithful.exists_infix_sql {str : Text} {ls : List Literal} (h : FattrFaithful str ls)
    {cond c : FattrCond} (hparse : parseFattrCondition cond str = done (some c))
    (a : CondArg) {l : Literal} (hl : l ∈ ls) : ∃ t, t <:+: c.sql a ∧ Denotes t l.value := by
  obtain ⟨t, ht, hdenotes⟩ := exists_denotes (h cond c hparse) hl
  exact ⟨t, infix_sql ht, hdenotes⟩

/-- So do those of a faithful tag option in its predicate. -/
theorem TagFaithful.exists_infix_writePredicate {str : Text} {ls : List Literal}
    (h : TagFaithful str ls) {c : TagCond} (hread : readTagCond str = done (some c)) {l : Literal}
    (hl : l ∈ ls) : ∃ t, t <:+: writePredicate c ∧ Denotes t l.value := by
  obtain ⟨t, ht, hdenotes⟩ := exists_denotes (h c hread) hl
  exact ⟨t, infix_writePredicate ht, hdenotes⟩

/-- A number that is its whole part and fits 64 bits; or one that does not look so, and is
the largest such number all the same. -/
def WholeLiteral (l : Literal) : Prop :=
  (l.value = l.integer ∧ l.integer < 2 ^ 64) ∨ (2 ^ 64 ≤ l.integer ∧ l.value = 2 ^ 64 - 1)

/-! ## which operands are kept -/

theorem scale_nonneg {q : Rat} (hq : 0 ≤ q) (e : Int) : 0 ≤ scale 10 q e := by
  unfold scale
  split <;> positivity

theorem scale_literal_nonneg (l : Literal) : 0 ≤ scale 10 l.mantissa l.power := by
  refine scale_nonneg ?_ _
  unfold Literal.mantissa
  positivity

/-- `strtoull` keeps a whole number that fits. -/
theorem strtoull_eq_value_iff (l : Literal) : (strtoull l.text : Rat) = l.value ↔ WholeLiteral l := by
  have hscale := scale_literal_nonneg l
  have hmax : ((ullongMax : Nat) : Rat) = 2 ^ 64 - 1 := by norm_num [ullongMax]
  rw [strtoull_literal, WholeLiteral]
  by_cases hfits : l.integer ≤ ullongMax
  · have hlt : l.integer < 2 ^ 64 := by
      rw [ullongMax] at hfits
      omega
    rw [if_pos hfits, or_iff_left fun h => absurd h.1 (Nat.not_le.mpr hlt), and_iff_left hlt]
    by_cases hsign : l.sign = .minus
    · -- only zero is as much with a minus
      have hneg : l.value ≤ 0 := by
        rw [Literal.value, hsign]
        exact neg_nonpos.mpr hscale
      have hpos : ∀ n : Nat, (n : Rat) = l.value → n = 0 := fun n hn => by
        rw [← hn] at hneg
        exact Nat.le_zero.mp (by exact_mod_cast hneg)
      rw [if_pos hsign]
      obtain hzero | hnonzero := Nat.eq_zero_or_pos l.integer
      · rw [hzero, Nat.sub_zero, Nat.mod_self]
        exact eq_comm
      · refine iff_of_false (fun h => ?_) fun h => ?_
        · have hmod := hpos _ h
          omega
        · exact absurd (hpos _ h.symm) hnonzero.ne'
    · rw [if_neg hsign]
      exact eq_comm
  · have hge : 2 ^ 64 ≤ l.integer := by
      rw [ullongMax] at hfits
      omega
    rw [if_neg hfits, hmax, or_iff_right fun h => absurd h.2 (Nat.not_lt.mpr hge),
      and_iff_right hge]
    exact eq_comm

/-- What the probes behind the first return for a numeric condition. -/
theorem parseOpBehind_numeric {s : Text} {r : ParsedOp} (h : parseOpBehind s = done r)
    (hop : r.op.isSome) : ∃ k v, r.op = some (.cmp k) ∧ r.val1 = some v ∧ r.val2 = none := by
  obtain ⟨str1, -, h⟩ := bind_eq_done.mp h
  split at h
  · obtain rfl := done.inj h
    cases hop
  · obtain rfl := done.inj h
    cases hop
  · obtain ⟨c, -, h⟩ := bind_eq_done.mp h
    obtain rfl := done.inj h
    obtain ⟨op, hc⟩ := Option.isSome_iff_exists.mp hop
    obtain ⟨k, rfl, -⟩ := opOfChar_eq_some hc
    exact ⟨k, str1, hc, rfl, rfl⟩
  · obtain ⟨str2, -, h⟩ := bind_eq_done.mp h
    split at h
    · obtain rfl := done.inj h
      obtain ⟨op, hc⟩ := Option.isSome_iff_exists.mp hop
      obtain ⟨k, rfl, -⟩ := opOfTwo_eq_some hc
      exact ⟨k, str2, hc, rfl, rfl⟩
    · obtain rfl := done.inj h
      cases hop

/-- What `parse_op` returns for a numeric condition. -/
theorem parseOp_numeric {s : Text} {r : ParsedOp} (h : parseOp s = done r) (hop : r.op.isSome) :
    (∃ k v, r.op = some (.cmp k) ∧ r.val1 = some v ∧ r.val2 = none) ∨
      ∃ v w, r.op = some .between ∧ r.val1 = some v ∧ r.val2 = some w := by
  unfold parseOp at h
  split at h
  · obtain rfl := done.inj h
    exact .inl ⟨.eq, s, rfl, rfl, rfl⟩
  · split at h
    · dsimp only at h
      split at h
      · obtain rfl := done.inj h
        exact .inr ⟨_, _, rfl, rfl, rfl⟩
      · obtain rfl := done.inj h
        cases hop
    · obtain rfl := done.inj h
      cases hop
  · exact .inl (parseOpBehind_numeric h hop)

section Operands
variable {str : Text} {ls : List Literal}

/-- The operands of a condition, one or two. -/
theorem Operands.cases (h : Operands str ls) :
    (∃ r k l, parseOp str = done r ∧ r.op = some (.cmp k) ∧ r.val1 = some l.text ∧ r.val2 = none ∧
        ls = [l]) ∨
      ∃ r l l', parseOp str = done r ∧ r.op = some .between ∧ r.val1 = some l.text ∧
        r.val2 = some l'.text ∧ ls = [l, l'] := by
  obtain ⟨r, hr, hop, hls⟩ := h
  obtain ⟨k, v, hk, hv, hw⟩ | ⟨v, w, hk, hv, hw⟩ := parseOp_numeric hr hop
  · rw [hv, hw] at hls
    obtain ⟨l, rfl, hl⟩ := List.map_eq_singleton_iff.mp hls.symm
    exact .inl ⟨r, k, l, hr, hk, hl ▸ hv, hw, rfl⟩
  · rw [hv, hw] at hls
    obtain ⟨l, ls, rfl, hl, hrest⟩ := List.map_eq_cons_iff.mp hls.symm
    obtain ⟨l', rfl, hl'⟩ := List.map_eq_singleton_iff.mp hrest
    exact .inr ⟨r, l, l', hr, hk, hl ▸ hv, hl' ▸ hw, rfl⟩

/-- What `strtoull` reads of a literal denotes its value exactly if it is a whole number of 64
bits. -/
theorem denotes_strtoull_iff (l : Literal) :
    Denotes (decimal (UInt64.ofNat (strtoull l.text)).toNat) l.value ↔ WholeLiteral l := by
  rw [UInt64.toNat_ofNat_of_lt' (strtoull_lt l.text), denotes_iff (denotes_decimal _),
    strtoull_eq_value_iff]

/-- A condition on a file attribute is faithful exactly if its literals are whole. -/
theorem fattrFaithful_iff (h : Operands str ls) :
    FattrFaithful str ls ↔ ∀ l ∈ ls, WholeLiteral l := by
  have hnonempty : Nonempty FattrCond := ⟨condDirMode⟩
  obtain ⟨r, k, l, hr, hop, h1, h2, rfl⟩ | ⟨r, l, l', hr, hop, h1, h2, rfl⟩ := h.cases
  · have hparse : ∀ cond, parseFattrCondition cond str = done (some
        { cond with op := .cmp k, val1 := UInt64.ofNat (strtoull l.text) }) := fun cond => by
      simp [parseFattrCondition, hr, hop, h1, h2]
    simp only [FattrFaithful, hparse, done.injEq, Option.some.injEq, forall_eq', forall_const,
      FattrCond.numbers, List.map_cons, List.map_nil, List.forall₂_cons, List.forall₂_nil_left_iff,
      and_true, denotes_strtoull_iff, List.forall_mem_singleton]
  · have hparse : ∀ cond, parseFattrCondition cond str = done (some
        ⟨.between, UInt64.ofNat (strtoull l.text), UInt64.ofNat (strtoull l'.text)⟩) := fun cond => by
      simp [parseFattrCondition, hr, hop, h1, h2]
    simp only [FattrFaithful, hparse, done.injEq, Option.some.injEq, forall_eq', forall_const,
      FattrCond.numbers, List.map_cons, List.map_nil, List.forall₂_cons, List.forall₂_nil_left_iff,
      and_true, denotes_strtoull_iff, List.forall_mem_cons, List.not_mem_nil, false_implies,
      implies_true]

/-- Six digits denote a number exactly if it has no more. -/
theorem denotes_lf_iff (q : Rat) : Denotes (Decimal.lf q) q ↔ Decimal.SixDigits q := by
  rw [denotes_iff (denotes_lf q), Decimal.rounded_eq_iff]

/-- The numbers of the one condition that comes of a string are what is compared with. -/
theorem tagFaithful_of_read {c : TagCond} (h : readTagCond str = done (some c)) :
    TagFaithful str ls ↔ List.Forall₂ Denotes c.numbers (ls.map Literal.value) := by
  simp only [TagFaithful, h, done.injEq, Option.some.injEq, forall_eq']

/-- A tag option is faithful exactly if its literals have no more than six digits. -/
theorem tagFaithful_iff {name : Text} (hname : ':' ∉ name) (h : Operands str ls) :
    TagFaithful (name ++ ':' :: str) ls ↔ ∀ l ∈ ls, Decimal.SixDigits l.value := by
  obtain ⟨htake, hdrop⟩ := split_first (b := str) hname
  have hfinite : ∀ l : Literal, finite (some l.text) = some l.value := fun l => by
    rw [finite, scanLf_literal]
  have hzero : finite none = some 0 := rfl
  have hstr : ∀ r, parseOp str = done r →
      addTagCondStr (name ++ ':' :: str) = done (some (name, str, r)) := fun r hr => by
    rw [addTagCondStr, if_pos (by simp)]
    simp only [htake, hdrop, hr, done_bind, pure_eq]
  obtain ⟨r, k, l, hr, hop, h1, h2, rfl⟩ | ⟨r, l, l', hr, hop, h1, h2, rfl⟩ := h.cases
  · have hread : readTagCond (name ++ ':' :: str) =
        done (some (addTagCond name r.str (some (.cmp k)) l.value 0)) := by
      simp only [readTagCond, hstr r hr, done_bind, hop, Option.bind_some, FattrOp.condOp, h1, h2,
        hfinite, hzero, Option.bind_eq_bind, pure_eq]
    rw [tagFaithful_of_read hread, numbers_cmp]
    simp only [List.map_cons, List.map_nil, List.forall₂_cons, List.forall₂_nil_left_iff, and_true,
      denotes_lf_iff, List.forall_mem_singleton]
  · have hread : readTagCond (name ++ ':' :: str) =
        done (some (addTagCond name r.str (some .between) l.value l'.value)) := by
      simp only [readTagCond, hstr r hr, done_bind, hop, Option.bind_some, FattrOp.condOp, h1, h2,
        hfinite, Option.bind_eq_bind, pure_eq]
    rw [tagFaithful_of_read hread, numbers_between]
    simp only [List.map_cons, List.map_nil, List.forall₂_cons, List.forall₂_nil_left_iff, and_true,
      denotes_lf_iff, List.forall_mem_cons, List.not_mem_nil, false_implies, implies_true]

end Operands

/-- **Operands**: a condition on a file attribute compares with the numbers that were
written exactly if they are whole numbers of 64 bits that are written as such, and one on
a tag if they have at most six digits behind the point. -/
theorem numeric_operands_iff {str : Text} {ls : List Literal} (h : Operands str ls) {name : Text}
    (hname : ':' ∉ name) :
    (FattrFaithful str ls ↔ ∀ l ∈ ls, WholeLiteral l) ∧
      (TagFaithful (name ++ ':' :: str) ls ↔ ∀ l ∈ ls, Decimal.SixDigits l.value) :=
  ⟨fattrFaithful_iff h, tagFaithful_iff hname h⟩

/-- The numbers of a condition on a group. -/
theorem numeric_operands_iff_gid :
    (FattrFaithful ['7'] [.ofNat 7] ↔ ∀ l ∈ [Literal.ofNat 7], WholeLiteral l) ∧
      (TagFaithful [ 'g', ':', '7' ] [.ofNat 7] ↔
        ∀ l ∈ [Literal.ofNat 7], Decimal.SixDigits l.value) :=
  @numeric_operands_iff ['7'] _ ⟨_, parseOp_number (numeric_decimal 7), rfl, rfl⟩ ['g'] (by decide)

theorem isDigit_three : ∀ c ∈ [ '3' ], c.isDigit = true := List.forall_mem_singleton.mpr rfl

/-- `1e3`. -/
def thousand : Literal :=
  { Literal.ofNat 1 with
    exp := some ⟨false, .none, [ '3' ], List.cons_ne_nil _ _, isDigit_three⟩ }

/-- The size `1e3` is one byte. -/
theorem exponent_dropped : ¬ ∀ (str : Text) (ls : List Literal) (name : Text), Operands str ls →
    ':' ∉ name → FattrFaithful str ls ∧ TagFaithful (name ++ ':' :: str) ls := by
  intro h
  have hoperands : Operands thousand.text [thousand] :=
    ⟨_, parseOp_number ⟨_, scanLf_literal thousand⟩, rfl, rfl⟩
  have hfattr := (h _ _ ['g'] hoperands (by decide)).1
  have hwhole := (fattrFaithful_iff hoperands).mp hfattr thousand List.mem_cons_self
  have hvalue : thousand.value = 1000 := by decide +kernel
  have hinteger : thousand.integer = 1 := rfl
  rw [WholeLiteral, hvalue, hinteger] at hwhole
  obtain ⟨h, -⟩ | ⟨h, -⟩ := hwhole
  · norm_num at h
  · omega

end Hpssix
