import Hpssix.Base.Fate
import Hpssix.Base.ScanFloat
import Hpssix.FattrSearch

/-!
# Hpssix.ParseOp

How `hpssix-search` reads a condition (`utils/hpssix-search/src/hpssix-search.c`):
the operator and the operands of an expression.

`parse_op` probes an expression at the offsets 0, 1 and 2.  A string is an
array that ends with a NUL, and to look behind it is a crash.

* `parseOp_grammar` — which expressions `parse_op` reads as numeric.
-/

namespace Hpssix

open CText Fate Scanf

/-! ## strings -/

/-- `str[i]`: the NUL is behind the last character, and nothing behind the NUL. -/
def charAt (str : Text) (i : Nat) : Fate Char :=
  match str[i]? with
  | some c => done c
  | none => if i = str.length then done (Char.ofNat 0) else crash

/-- The string at `&str[i]`, when it is read. -/
def stringAt (str : Text) (i : Nat) : Fate Text :=
  if i ≤ str.length then done (str.drop i) else crash

/-! ## parse_op -/

/-- What `parse_op` sets: the operator, if not `-1`, the operands, and the string it was
given, which it may cut at a comma. -/
structure ParsedOp where
  op : Option FattrOp
  val1 : Option Text := none
  val2 : Option Text := none
  str : Text
deriving DecidableEq

/-- The `switch` on the first character. -/
def opOfChar : Char → Option FattrOp
  | '=' => some (.cmp .eq)
  | '>' => some (.cmp .gt)
  | '<' => some (.cmp .lt)
  | _ => none

/-- The `strncmp` tests on the first two characters. -/
def opOfTwo (str : Text) : Option FattrOp :=
  if str.take 2 = [ '>', '=' ] ∨ str.take 2 = [ '=', '>' ] then some (.cmp .ge)
  else if str.take 2 = [ '<', '=' ] ∨ str.take 2 = [ '=', '<' ] then some (.cmp .le)
  else if str.take 2 = [ '!', '=' ] ∨ str.take 2 = [ '<', '>' ] then some (.cmp .ne)
  else none

/-- `parse_op` from the probe at `&str[1]` on. -/
def parseOpBehind (str : Text) : Fate ParsedOp := do
  let str1 ← stringAt str 1
  match sscanfLfc str1 with
  | .eof => pure { op := none, str }
  | .two .. => pure { op := none, str }
  | .one _ => do
      let c ← charAt str 0
      pure { op := opOfChar c, val1 := some str1, str }
  | .zero => do
      let str2 ← stringAt str 2
      match sscanfLfc str2 with
      | .one _ => pure { op := opOfTwo str, val1 := some str2, str }
      | _ => pure { op := none, str }

/-- `parse_op`.  A probe that is not reached does not read. -/
def parseOp (str : Text) : Fate ParsedOp :=
  match sscanfLfc str with
  | .one _ => done { op := some (.cmp .eq), val1 := some str, str }
  | .two _ ch =>
      if ch = ',' then
        let a := str.takeWhile (· ≠ ',')
        let b := (str.dropWhile (· ≠ ',')).drop 1
        match sscanfLfc b with
        | .one _ => done { op := some .between, val1 := some a, val2 := some b, str := a }
        | _ => done { op := none, str }
      else done { op := none, str }
  | _ => parseOpBehind str

/-! ## the grammar -/

/-- The operators in front of one operand, and what they denote. -/
def operators : List (Text × Cmp) :=
  [([ '=' ], .eq), ([ '>' ], .gt), ([ '<' ], .lt), ([ '>', '=' ], .ge), ([ '=', '>' ], .ge),
    ([ '<', '=' ], .le), ([ '=', '<' ], .le), ([ '!', '=' ], .ne), ([ '<', '>' ], .ne)]

section Grammar
variable {s a b t : Text}

theorem sscanfLfc_eq_one_iff : (∃ v, sscanfLfc s = .one v) ↔ Numeric s := by
  unfold sscanfLfc Numeric
  constructor
  · rintro ⟨v, h⟩
    split at h
    · cases h
    · cases h
    · next heq => exact ⟨_, heq⟩
    · cases h
  · rintro ⟨v, h⟩
    exact ⟨v, by rw [h]⟩

/-- A number has no comma. -/
theorem Numeric.comma (h : Numeric s) : ',' ∉ s := by
  intro hcomma
  obtain ⟨v, hv⟩ := h
  obtain ⟨a, b, rfl, -⟩ := List.eq_append_cons_of_mem hcomma
  rw [scanLf_comma] at hv
  split at hv
  · obtain ⟨-, hrest⟩ := Scan.ok.inj hv
    simp at hrest
  · cases hv

theorem parseOp_number (h : Numeric s) :
    parseOp s = done { op := some (.cmp .eq), val1 := some s, str := s } := by
  obtain ⟨v, hv⟩ := sscanfLfc_eq_one_iff.mpr h
  rw [parseOp, hv]

/-- The text before a character where it comes first, and behind it. -/
theorem split_first {x : Char} (ha : x ∉ a) :
    (a ++ x :: b).takeWhile (· ≠ x) = a ∧ ((a ++ x :: b).dropWhile (· ≠ x)).drop 1 = b := by
  have hall : ∀ c ∈ a, decide (c ≠ x) = true := fun c hc => by
    simp only [ne_eq, decide_not, Bool.not_eq_eq_eq_not, Bool.not_true, decide_eq_false_iff_not]
    rintro rfl
    exact ha hc
  rw [List.takeWhile_append_of_pos hall, List.dropWhile_append_of_pos hall]
  simp

theorem parseOp_between (ha : Numeric a) (hb : Numeric b) :
    parseOp (a ++ ',' :: b) =
      done { op := some .between, val1 := some a, val2 := some b, str := a } := by
  obtain ⟨v, hv⟩ := ha
  obtain ⟨w, hw⟩ := sscanfLfc_eq_one_iff.mpr hb
  obtain ⟨htake, hdrop⟩ := split_first (b := b) (Numeric.comma ⟨v, hv⟩)
  have hfirst : sscanfLfc (a ++ ',' :: b) = .two v ',' := by
    rw [sscanfLfc, scanLf_comma, hv]
    rfl
  simp only [parseOp, hfirst, if_true, htake, hdrop, hw]

/-- An operator is no number. -/
theorem sscanfLfc_operator {c : Char} (hc : c ∈ ['=', '>', '<', '!']) (t : Text) :
    sscanfLfc (c :: t) = .zero := by
  simp only [List.mem_cons, List.not_mem_nil, or_false] at hc
  obtain rfl | rfl | rfl | rfl := hc <;> rfl

theorem parseOp_char {c : Char} (hc : c ∈ ['=', '>', '<', '!']) (h : Numeric t) :
    parseOp (c :: t) = done { op := opOfChar c, val1 := some t, str := c :: t } := by
  obtain ⟨v, hv⟩ := sscanfLfc_eq_one_iff.mpr h
  have hstring : stringAt (c :: t) 1 = done t := by simp [stringAt]
  rw [parseOp, sscanfLfc_operator hc]
  simp only [parseOpBehind, hstring, done_bind, hv]
  rfl

theorem parseOp_two {c d : Char} (hc : c ∈ ['=', '>', '<', '!']) (hd : d ∈ ['=', '>', '<', '!'])
    (h : Numeric t) :
    parseOp (c :: d :: t) =
      done { op := opOfTwo [c, d], val1 := some t, str := c :: d :: t } := by
  obtain ⟨v, hv⟩ := sscanfLfc_eq_one_iff.mpr h
  have hone : stringAt (c :: d :: t) 1 = done (d :: t) := by simp [stringAt]
  have htwo : stringAt (c :: d :: t) 2 = done t := by simp [stringAt]
  rw [parseOp, sscanfLfc_operator hc]
  simp only [parseOpBehind, hone, htwo, done_bind, hv, sscanfLfc_operator hd]
  rfl

/-- An operator of the table in front of a number. -/
theorem parseOp_operator {o : Text} {c : Cmp} (ho : (o, c) ∈ operators) (h : Numeric t) :
    parseOp (o ++ t) = done { op := some (.cmp c), val1 := some t, str := o ++ t } := by
  simp only [operators, List.mem_cons, List.not_mem_nil, or_false, Prod.mk.injEq] at ho
  obtain ⟨rfl, rfl⟩ | ⟨rfl, rfl⟩ | ⟨rfl, rfl⟩ | ⟨rfl, rfl⟩ | ⟨rfl, rfl⟩ | ⟨rfl, rfl⟩ |
    ⟨rfl, rfl⟩ | ⟨rfl, rfl⟩ | ⟨rfl, rfl⟩ := ho
  · exact parseOp_char (by decide) h
  · exact parseOp_char (by decide) h
  · exact parseOp_char (by decide) h
  · exact parseOp_two (by decide) (by decide) h
  · exact parseOp_two (by decide) (by decide) h
  · exact parseOp_two (by decide) (by decide) h
  · exact parseOp_two (by decide) (by decide) h
  · exact parseOp_two (by decide) (by decide) h
  · exact parseOp_two (by decide) (by decide) h

/-- What stands in front of the comma at which a number ends is that number. -/
theorem numeric_of_two {v : Lf} (h : sscanfLfc s = .two v ',') :
    ∃ a b, s = a ++ ',' :: b ∧ ',' ∉ a ∧ Numeric a := by
  obtain ⟨rest, hscan⟩ : ∃ rest, scanLf s = .ok v (',' :: rest) := by
    unfold sscanfLfc at h
    split at h
    · cases h
    · cases h
    · cases h
    · next heq =>
        obtain ⟨rfl, rfl⟩ := Probe.two.inj h
        exact ⟨_, heq⟩
  obtain ⟨a, b, rfl, ha⟩ := List.eq_append_cons_of_mem
    ((suffix_of_scanLf hscan).subset List.mem_cons_self)
  refine ⟨a, b, rfl, ha, v, ?_⟩
  rw [scanLf_comma] at hscan
  split at hscan
  · next w r hread =>
      obtain ⟨rfl, hrest⟩ := Scan.ok.inj hscan
      cases r with
      | nil => exact hread
      | cons c r =>
          obtain ⟨rfl, -⟩ := List.cons.inj hrest
          exact absurd ((suffix_of_scanLf hread).subset List.mem_cons_self) ha
  · cases hscan

theorem opOfChar_eq_some {c : Char} {op : FattrOp} (h : opOfChar c = some op) :
    ∃ k, op = .cmp k ∧ ([c], k) ∈ operators := by
  unfold opOfChar at h
  split at h
  · exact ⟨_, (Option.some.inj h).symm, by decide⟩
  · exact ⟨_, (Option.some.inj h).symm, by decide⟩
  · exact ⟨_, (Option.some.inj h).symm, by decide⟩
  · cases h

theorem opOfTwo_eq_some {op : FattrOp} (h : opOfTwo s = some op) :
    ∃ k, op = .cmp k ∧ (s.take 2, k) ∈ operators := by
  unfold opOfTwo at h
  split_ifs at h with h₁ h₂ h₃
  · refine ⟨_, (Option.some.inj h).symm, ?_⟩
    obtain h₁ | h₁ := h₁ <;> rw [h₁] <;> decide
  · refine ⟨_, (Option.some.inj h).symm, ?_⟩
    obtain h₂ | h₂ := h₂ <;> rw [h₂] <;> decide
  · refine ⟨_, (Option.some.inj h).symm, ?_⟩
    obtain h₃ | h₃ := h₃ <;> rw [h₃] <;> decide

/-- The probes at the offsets 1 and 2 find an operator of the table in front of a number,
or nothing. -/
theorem parseOpBehind_cons (c : Char) (t : Text) :
    ∃ r, parseOpBehind (c :: t) = done r ∧ r.str = c :: t ∧
      (r.op = none ∨ ∃ o k u, (o, k) ∈ operators ∧ c :: t = o ++ u ∧ Numeric u) := by
  have hone : stringAt (c :: t) 1 = done t := by simp [stringAt]
  unfold parseOpBehind
  simp only [hone, done_bind]
  cases hprobe : sscanfLfc t with
  | eof => exact ⟨_, rfl, rfl, .inl rfl⟩
  | two v ch => exact ⟨_, rfl, rfl, .inl rfl⟩
  | one v =>
      refine ⟨{ op := opOfChar c, val1 := some t, str := c :: t }, rfl, rfl, ?_⟩
      cases hc : opOfChar c with
      | none => exact .inl rfl
      | some op =>
          obtain ⟨k, -, hk⟩ := opOfChar_eq_some hc
          exact .inr ⟨[c], k, t, hk, rfl, sscanfLfc_eq_one_iff.mp ⟨v, hprobe⟩⟩
  | zero =>
      -- a probe that finds no number has found a character
      obtain ⟨d, u, rfl⟩ : ∃ d u, t = d :: u := by
        cases t with
        | nil => cases hprobe
        | cons d u => exact ⟨d, u, rfl⟩
      have htwo : stringAt (c :: d :: u) 2 = done u := by simp [stringAt]
      simp only [htwo, done_bind]
      cases hlast : sscanfLfc u with
      | eof => exact ⟨_, rfl, rfl, .inl rfl⟩
      | zero => exact ⟨_, rfl, rfl, .inl rfl⟩
      | two v ch => exact ⟨_, rfl, rfl, .inl rfl⟩
      | one v =>
          refine ⟨{ op := opOfTwo (c :: d :: u), val1 := some u, str := c :: d :: u }, rfl, rfl, ?_⟩
          cases hc : opOfTwo (c :: d :: u) with
          | none => exact .inl rfl
          | some op =>
              obtain ⟨k, -, hk⟩ := opOfTwo_eq_some hc
              exact .inr ⟨[c, d], k, u, hk, rfl, sscanfLfc_eq_one_iff.mp ⟨v, hlast⟩⟩

/-- Where the first probe finds a number and something else, the string is two numbers,
or text. -/
theorem parseOp_of_two {v : Lf} {ch : Char} (h : sscanfLfc s = .two v ch) :
    ∃ r, parseOp s = done r ∧ ((r.op = none ∧ r.str = s) ∨
      ∃ a b, s = a ++ ',' :: b ∧ Numeric a ∧ Numeric b) := by
  rw [parseOp, h]
  by_cases hch : ch = ','
  · subst hch
    obtain ⟨a, b, rfl, ha, hnum⟩ := numeric_of_two h
    obtain ⟨htake, hdrop⟩ := split_first (b := b) ha
    simp only [if_true, hdrop]
    split
    · next w hb => exact ⟨_, rfl, .inr ⟨a, b, rfl, hnum, sscanfLfc_eq_one_iff.mp ⟨w, hb⟩⟩⟩
    · exact ⟨_, rfl, .inl ⟨rfl, rfl⟩⟩
  · simp only [if_neg hch]
    exact ⟨_, rfl, .inl ⟨rfl, rfl⟩⟩

/-- Any other string is left to be searched for as text. -/
theorem parseOp_other (hs : s ≠ []) (hnum : ¬ Numeric s)
    (hbetween : ∀ a b, s = a ++ ',' :: b → ¬ (Numeric a ∧ Numeric b))
    (hop : ∀ o c t, (o, c) ∈ operators → s = o ++ t → ¬ Numeric t) :
    ∃ r, parseOp s = done r ∧ r.op = none ∧ r.str = s := by
  have hbehind : ∃ r, parseOpBehind s = done r ∧ r.op = none ∧ r.str = s := by
    obtain ⟨c, t, rfl⟩ := List.exists_cons_of_ne_nil hs
    obtain ⟨r, hr, hstr, hnone | ⟨o, k, u, ho, hu, hnumber⟩⟩ := parseOpBehind_cons c t
    · exact ⟨r, hr, hnone, hstr⟩
    · exact absurd hnumber (hop o k u ho hu)
  cases hprobe : sscanfLfc s with
  | one v => exact absurd (sscanfLfc_eq_one_iff.mp ⟨v, hprobe⟩) hnum
  | eof => simpa only [parseOp, hprobe] using hbehind
  | zero => simpa only [parseOp, hprobe] using hbehind
  | two v ch =>
      obtain ⟨r, hr, hnone | ⟨a, b, hab, hboth⟩⟩ := parseOp_of_two hprobe
      · exact ⟨r, hr, hnone⟩
      · exact absurd hboth (hbetween a b hab)

/-- `parse_op` looks behind its string exactly if the string is empty. -/
theorem parseOp_ne_crash_iff : parseOp s ≠ crash ↔ s ≠ [] := by
  constructor
  · rintro h rfl
    exact h rfl
  · intro hs
    obtain ⟨c, t, rfl⟩ := List.exists_cons_of_ne_nil hs
    obtain ⟨r, hbehind, -⟩ := parseOpBehind_cons c t
    cases hprobe : sscanfLfc (c :: t) with
    | one v => simp [parseOp, hprobe]
    | eof => simp [parseOp, hprobe, hbehind]
    | zero => simp [parseOp, hprobe, hbehind]
    | two v ch =>
        obtain ⟨r, hr, -⟩ := parseOp_of_two hprobe
        simp [hr]

/-- **The grammar of conditions**: a number, two numbers with a comma, an operator with a
number; everything else is text. -/
theorem parseOp_grammar (hs : s ≠ []) :
    (Numeric s → parseOp s = done { op := some (.cmp .eq), val1 := some s, str := s }) ∧
      (∀ a b, s = a ++ ',' :: b → Numeric a → Numeric b → parseOp s =
        done { op := some .between, val1 := some a, val2 := some b, str := a }) ∧
      (∀ o c t, (o, c) ∈ operators → s = o ++ t → Numeric t → parseOp s =
        done { op := some (.cmp c), val1 := some t, str := s }) ∧
      ((¬ Numeric s ∧ (∀ a b, s = a ++ ',' :: b → ¬ (Numeric a ∧ Numeric b)) ∧
          ∀ o c t, (o, c) ∈ operators → s = o ++ t → ¬ Numeric t) →
        ∃ r, parseOp s = done r ∧ r.op = none ∧ r.str = s) := by
  refine ⟨parseOp_number, ?_, ?_, fun h => parseOp_other hs h.1 h.2.1 h.2.2⟩
  · rintro a b rfl ha hb
    exact parseOp_between ha hb
  · rintro o c t ho rfl ht
    exact parseOp_operator ho ht

end Grammar

/-- An operator of two characters. -/
theorem parseOp_grammar_ge :
    (Numeric [ '>', '=', '5' ] → parseOp [ '>', '=', '5' ] =
        done { op := some (.cmp .eq), val1 := some [ '>', '=', '5' ], str := [ '>', '=', '5' ] }) ∧
      (∀ a b, [ '>', '=', '5' ] = a ++ ',' :: b → Numeric a → Numeric b →
        parseOp [ '>', '=', '5' ] =
          done { op := some .between, val1 := some a, val2 := some b, str := a }) ∧
      (∀ o c t, (o, c) ∈ operators → [ '>', '=', '5' ] = o ++ t → Numeric t →
        parseOp [ '>', '=', '5' ] =
          done { op := some (.cmp c), val1 := some t, str := [ '>', '=', '5' ] }) ∧
      ((¬ Numeric [ '>', '=', '5' ] ∧
          (∀ a b, [ '>', '=', '5' ] = a ++ ',' :: b → ¬ (Numeric a ∧ Numeric b)) ∧
          ∀ o c t, (o, c) ∈ operators → [ '>', '=', '5' ] = o ++ t → ¬ Numeric t) →
        ∃ r, parseOp [ '>', '=', '5' ] = done r ∧ r.op = none ∧ r.str = [ '>', '=', '5' ]) :=
  parseOp_grammar (List.cons_ne_nil _ _)

example : parseOp "<>1.5".toList =
    done { op := some (.cmp .ne), val1 := some "1.5".toList, str := "<>1.5".toList } := by
  decide +kernel

/-! ## conditions -/

/-- `add_tag_cond` up to `parse_op`: the name, the expression, and what was read in it;
without a colon it exits. -/
def addTagCondStr (str : Text) : Fate (Option (Text × Text × ParsedOp)) :=
  if ':' ∈ str then do
    let name := str.takeWhile (· ≠ ':')
    let val := (str.dropWhile (· ≠ ':')).drop 1
    let parsed ← parseOp val
    pure (some (name, val, parsed))
  else pure none

/-- `parse_fattr_condition` with what `cond` holds from an earlier call; without a
condition it is refused. -/
def parseFattrCondition (cond : FattrCond) (str : Text) : Fate (Option FattrCond) := do
  let parsed ← parseOp str
  match parsed.op with
  | none => pure none
  | some op =>
      pure (some {
        op
        val1 := UInt64.ofNat (strtoull (parsed.val1.getD []))
        val2 := (parsed.val2.map fun val2 => UInt64.ofNat (strtoull val2)).getD cond.val2 })

end Hpssix
