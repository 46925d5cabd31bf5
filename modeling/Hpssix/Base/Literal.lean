import Hpssix.Base.Decimal
import Hpssix.Base.ScanFloat

/-!
# Base.Literal

Decimal literals: an optional sign, digits without a leading zero, an optional
fraction and an optional exponent.

* `scanLf_literal` — `%lf` takes a literal as a whole, with its value;
* `strtoull_literal` — `strtoull` takes its sign and its whole part.
-/

namespace Scanf

open CText Reader

/-! ## literals -/

inductive Sign where
  | none
  | plus
  | minus
deriving DecidableEq

def Sign.text : Sign → Text
  | .none => []
  | .plus => ['+']
  | .minus => ['-']

def Sign.apply {α : Type} [Neg α] (a : α) : Sign → α
  | .minus => -a
  | _ => a

/-- The letter, a sign and digits. -/
structure Exponent where
  upper : Bool
  sign : Sign
  digits : Text
  digitsNe : digits ≠ []
  isDigit : ∀ c ∈ digits, c.isDigit = true

def Exponent.text (e : Exponent) : Text :=
  (if e.upper then 'E' else 'e') :: (e.sign.text ++ e.digits)

def Exponent.value (e : Exponent) : Int := e.sign.apply (digitsVal 10 e.digits : Int)

structure Literal where
  sign : Sign
  whole : Text
  frac : Option Text
  exp : Option Exponent
  wholeNe : whole ≠ []
  wholeIsDigit : ∀ c ∈ whole, c.isDigit = true
  wholeLead : whole.head? = some '0' → whole = ['0']
  fracIsDigit : ∀ c ∈ frac.getD [], c.isDigit = true

namespace Literal
variable (l : Literal)

/-- How it is written behind the whole part. -/
def tail : Text := l.frac.elim [] (fun ds => '.' :: ds) ++ l.exp.elim [] Exponent.text

def text : Text := l.sign.text ++ (l.whole ++ l.tail)

/-- The whole part as a number. -/
def integer : Nat := digitsVal 10 l.whole

/-- The number in front of the exponent, without its sign. -/
def mantissa : Rat :=
  digitsVal 10 l.whole + digitsVal 10 (l.frac.getD []) / 10 ^ (l.frac.getD []).length

/-- The value of the exponent. -/
def power : Int := l.exp.elim 0 Exponent.value

/-- The number it denotes. -/
def value : Rat := l.sign.apply (scale 10 l.mantissa l.power)

/-- The digits of a number. -/
def ofNat (n : Nat) : Literal where
  sign := .none
  whole := decimal n
  frac := none
  exp := none
  wholeNe := Nat.toDigits_ne_nil
  wholeIsDigit := fun _ hc => isDigit_of_mem_decimal hc
  wholeLead := fun h => by
    obtain rfl | hn := Nat.eq_zero_or_pos n
    · rfl
    · exact absurd h (head?_decimal_ne_zero hn)
  fracIsDigit := fun _ hc => absurd hc List.not_mem_nil

@[simp] theorem text_ofNat (n : Nat) : (ofNat n).text = decimal n := by
  simp [text, tail, ofNat, Sign.text]

@[simp] theorem integer_ofNat (n : Nat) : (ofNat n).integer = n := digitsVal_decimal n

end Literal

/-! ## %lf -/

section Read
variable {p : Char → Bool} {ds rest : Text} (l : Literal)

/-- A run ends where its characters do. -/
theorem many_append (hds : ∀ c ∈ ds, p c = true) (hrest : ∀ c, rest.head? = some c → p c = false) :
    many p (ds ++ rest) = some (ds, rest) := by
  have hnone : rest.takeWhile p = [] ∧ rest.dropWhile p = rest := by
    cases rest with
    | nil => exact ⟨rfl, rfl⟩
    | cons c rest => simp [hrest c rfl]
  rw [many, List.takeWhile_append_of_pos hds, List.dropWhile_append_of_pos hds, hnone.1, hnone.2,
    List.append_nil]

/-- A character that is not looked for is left to the other reader. -/
theorem ifChar_skip {α : Type} {r : Char → Read α} {r' : Read α} {t : Text}
    (h : ∀ c, t.head? = some c → p c = false) : ifChar p r r' t = r' t := by
  cases t with
  | nil => rfl
  | cons c t => rw [ifChar, h c rfl, if_neg Bool.false_ne_true]

/-- What begins with a digit is none of the characters that a reader looks for. -/
theorem ifChar_digit {α : Type} {r : Char → Read α} {r' : Read α} {t : Text}
    (ht : ∀ c, t.head? = some c → c.isDigit = true) (hp : ∀ c, c.isDigit = true → p c = false) :
    ifChar p r r' t = r' t :=
  ifChar_skip fun c hc => hp c (ht c hc)

/-- A sign in front of what a reader reads. -/
theorem signed_text {α : Type} {neg : α → α} {r : Read α} {t : Text} {v : α} (s : Sign)
    (ht : ∀ c, t.head? = some c → c.isDigit = true) (h : r t = some (v, rest)) :
    signed neg r (s.text ++ t) = some (match s with | .minus => neg v | _ => v, rest) := by
  have hskip : signed neg r t = r t := by
    rw [signed, ifChar_digit ht, ifChar_digit ht]
    · rintro c hc
      exact decide_eq_false fun h => absurd (h ▸ hc) (by decide)
    · rintro c hc
      exact decide_eq_false fun h => absurd (h ▸ hc) (by decide)
  cases s with
  | none => rw [Sign.text, List.nil_append, hskip, h]
  | plus =>
      have hminus : decide ('+' = '-') = false := rfl
      simp only [Sign.text, List.singleton_append, signed, ifChar, hminus, decide_true, if_true,
        Bool.false_eq_true, if_false, h]
  | minus =>
      simp only [Sign.text, List.singleton_append, signed, ifChar, decide_true, if_true, bind_apply,
        h, Option.bind_some, pure_apply]

/-- A text of digits is read as its value. -/
theorem digits_eq (hne : ds ≠ []) (hds : ∀ c ∈ ds, c.isDigit = true) :
    digits ds = some ((digitsVal 10 ds : Int), []) := by
  have hmany : many (isDigitOf 10) (ds ++ []) = some (ds, []) :=
    many_append (fun c hc => by rw [isDigitOf_ten, hds c hc]) (by simp)
  rw [List.append_nil] at hmany
  rw [digits, bind_apply, hmany]
  simp only [Option.bind_some, if_neg hne, pure_apply]

theorem head?_of_isDigit (hds : ∀ c ∈ ds, c.isDigit = true) :
    ∀ c, ds.head? = some c → c.isDigit = true :=
  fun c hc => hds c (List.mem_of_mem_head? hc)

/-- An exponent is read as its value, and none as zero. -/
theorem exponent_text (e : Option Exponent) :
    exponent 'e' (e.elim [] Exponent.text) = some (e.elim 0 Exponent.value, []) := by
  cases e with
  | none => rfl
  | some e =>
      have hread : signed (fun e => -e) digits (e.sign.text ++ e.digits) = _ :=
        signed_text e.sign (head?_of_isDigit e.isDigit) (digits_eq e.digitsNe e.isDigit)
      have hletter : (if e.upper then 'E' else 'e').toLower = 'e' := by cases e.upper <;> rfl
      simp only [Option.elim_some, Exponent.text, exponent, ifChar, hletter, decide_true, if_true,
        hread, Exponent.value]
      cases e.sign <;> rfl

/-- An exponent begins with no digit and no point. -/
theorem head?_exponent (e : Option Exponent) {c : Char} (hc : (e.elim [] Exponent.text).head? = some c) :
    c.isDigit = false ∧ c ≠ '.' := by
  cases e with
  | none => cases hc
  | some e =>
      simp only [Option.elim_some, Exponent.text, List.head?_cons, Option.some.injEq] at hc
      subst hc
      cases e.upper <;> decide

/-- Behind the whole part of a literal there is no digit. -/
theorem head?_tail {c : Char} (hc : l.tail.head? = some c) : c.isDigit = false := by
  unfold Literal.tail at hc
  cases hf : l.frac with
  | none =>
      rw [hf] at hc
      exact (head?_exponent l.exp hc).1
  | some ds =>
      rw [hf] at hc
      obtain rfl := Option.some.inj hc
      rfl

/-- The mantissa of a literal is read up to its exponent. -/
theorem mantissa_text : mantissa 10 (l.whole ++ l.tail) =
    some (l.mantissa, l.exp.elim [] Exponent.text) := by
  have hwhole : many (isDigitOf 10) (l.whole ++ l.tail) = some (l.whole, l.tail) :=
    many_append (fun c hc => by rw [isDigitOf_ten, l.wholeIsDigit c hc])
      fun c hc => by rw [isDigitOf_ten, head?_tail l hc]
  have hfrac : ifChar (fun c => decide (c = '.')) (fun _ => many (isDigitOf 10)) (pure []) l.tail =
      some (l.frac.getD [], l.exp.elim [] Exponent.text) := by
    have hdig := l.fracIsDigit
    unfold Literal.tail
    cases hf : l.frac with
    | none => exact ifChar_skip fun c hc => decide_eq_false (head?_exponent l.exp hc).2
    | some ds =>
        rw [hf, Option.getD_some] at hdig
        exact many_append (fun c hc => by rw [isDigitOf_ten, hdig c hc])
          fun c hc => by rw [isDigitOf_ten, (head?_exponent l.exp hc).1]
  rw [mantissa, bind_apply, hwhole, Option.bind_some, bind_apply, hfrac, Option.bind_some,
    if_neg fun h => l.wholeNe h.1]
  rfl

/-- A literal begins with a digit of its whole part. -/
theorem head?_whole {c : Char} (hc : (l.whole ++ rest).head? = some c) :
    l.whole.head? = some c ∧ c.isDigit = true := by
  obtain ⟨d, ds, hds⟩ := List.exists_cons_of_ne_nil l.wholeNe
  rw [hds] at hc ⊢
  exact ⟨hc, head?_of_isDigit l.wholeIsDigit c (hds ▸ hc)⟩

/-- Behind the whole part stands a point or the letter of an exponent. -/
theorem toLower_head?_tail {c : Char} (hc : l.tail.head? = some c) : c.toLower ≠ 'x' := by
  unfold Literal.tail at hc
  cases hf : l.frac with
  | some ds =>
      rw [hf] at hc
      obtain rfl := Option.some.inj hc
      decide
  | none =>
      rw [hf] at hc
      cases he : l.exp with
      | none =>
          rw [he] at hc
          cases hc
      | some e =>
          rw [he] at hc
          obtain rfl := Option.some.inj hc
          cases e.upper <;> decide

/-- A literal has no prefix of a hexadecimal number. -/
theorem ifHex_text {α : Type} (r r' : Read α) :
    ifHex r r' (l.whole ++ l.tail) = r' (l.whole ++ l.tail) := by
  generalize htext : l.whole ++ l.tail = t
  unfold ifHex
  split
  · next c t =>
      have hlead : l.whole = ['0'] := l.wholeLead (head?_whole l (congrArg List.head? htext)).1
      rw [hlead] at htext
      obtain ⟨-, htail⟩ := List.cons.inj htext
      exact if_neg (toLower_head?_tail l (congrArg List.head? htail))
  · rfl

theorem toLower_of_isDigit {c : Char} (h : c.isDigit = true) : c.toLower = c := by
  have hle : ¬ (c.toNat ≥ 65 ∧ c.toNat ≤ 90) := by
    simp only [Char.isDigit, Bool.and_eq_true, decide_eq_true_eq] at h
    have hnine : c.toNat ≤ 57 := h.2
    omega
  unfold Char.toLower
  exact dif_neg hle

/-- A literal begins with no white space. -/
theorem dropWhile_literal : l.text.dropWhile isSpace = l.text ∧ l.text ≠ [] := by
  obtain ⟨d, ds, hds⟩ := List.exists_cons_of_ne_nil l.wholeNe
  have hd : isSpace d = false := not_isSpace_of_isDigit (l.wholeIsDigit d (hds ▸ List.mem_cons_self))
  rw [Literal.text, hds]
  cases l.sign with
  | none => simp [Sign.text, hd]
  | plus => exact ⟨rfl, List.cons_ne_nil _ _⟩
  | minus => exact ⟨rfl, List.cons_ne_nil _ _⟩

/-- **%lf**: a literal is read as a whole. -/
theorem scanLf_literal : scanLf l.text = .ok (.num l.value) [] := by
  have hhead : ∀ c, (l.whole ++ l.tail).head? = some c → c.isDigit = true :=
    fun c hc => (head?_whole l hc).2
  have hfloat : float 10 10 'e' (l.whole ++ l.tail) =
      some (.num (scale 10 l.mantissa l.power), []) := by
    rw [float, bind_apply, mantissa_text, Option.bind_some, bind_apply, exponent_text]
    rfl
  have hunsigned : unsignedLf (l.whole ++ l.tail) =
      some (.num (scale 10 l.mantissa l.power), []) := by
    have hletter : ∀ k : Char, k.isDigit = false → ∀ c : Char, c.isDigit = true →
        decide (c.toLower = k) = false := fun k hk c hc => decide_eq_false fun h => by
      rw [toLower_of_isDigit hc] at h
      rw [h, hk] at hc
      cases hc
    rw [unsignedLf, ifChar_digit hhead (hletter 'i' rfl), ifChar_digit hhead (hletter 'n' rfl),
      ifHex_text, hfloat]
  have hsigned : signedLf l.text = some (.num l.value, []) := by
    rw [signedLf, Literal.text, signed_text l.sign hhead hunsigned, Literal.value]
    cases l.sign <;> rfl
  obtain ⟨hspace, hne⟩ := dropWhile_literal l
  rw [scanLf, hspace, if_neg hne, hsigned]

/-- Digits are a number. -/
theorem numeric_decimal (n : Nat) : Numeric (decimal n) :=
  ⟨_, Literal.text_ofNat n ▸ scanLf_literal (Literal.ofNat n)⟩

end Read

/-! ## strtoull -/

section Strtoull
variable (l : Literal)

/-- An octal digit is a decimal digit. -/
theorem isDigit_of_isDigitOf_eight {c : Char} (h : isDigitOf 8 c = true) : c.isDigit = true := by
  rw [← isDigitOf_ten]
  unfold isDigitOf at h ⊢
  split at h
  · simp only [decide_eq_true_eq] at h ⊢
    omega
  · cases h

/-- The digits of the whole part end where it ends. -/
theorem takeWhile_whole : (l.whole ++ l.tail).takeWhile (isDigitOf 10) = l.whole := by
  have hmany := many_append (p := isDigitOf 10)
    (fun c hc => by rw [isDigitOf_ten, l.wholeIsDigit c hc])
    fun c hc => by rw [isDigitOf_ten, head?_tail l hc]
  exact congrArg Prod.fst (Option.some.inj hmany)

/-- `strtoull` reads the whole part of a literal. -/
theorem strtoullDigits_whole : strtoullDigits (l.whole ++ l.tail) = l.integer := by
  by_cases hlead : l.whole.head? = some '0'
  · -- the base is eight, and the number zero
    have hzero := l.wholeLead hlead
    have height : ('0' :: l.tail).takeWhile (isDigitOf 8) = ['0'] := by
      have hstop : ∀ c, l.tail.head? = some c → isDigitOf 8 c = false := fun c hc => by
        by_contra h
        have hdig := isDigit_of_isDigitOf_eight (by simpa using h)
        rw [head?_tail l hc] at hdig
        cases hdig
      have hone : ∀ c ∈ ['0'], isDigitOf 8 c = true := fun c hc => by
        rw [List.mem_singleton.mp hc]
        rfl
      exact congrArg Prod.fst (Option.some.inj (many_append hone hstop))
    have hoctal : strtoullDigits ('0' :: l.tail) = digitsVal 8 ['0'] := by
      unfold strtoullDigits
      split
      · next x d t heq =>
          have htail := (List.cons.inj heq).2
          have hx : (x = 'x' || x = 'X') = false := by
            have hlower := toLower_head?_tail l (congrArg List.head? htail)
            simp only [Bool.or_eq_false_iff, decide_eq_false_iff_not]
            constructor
            · rintro rfl
              exact hlower rfl
            · rintro rfl
              exact hlower rfl
          simp only [hx, Bool.false_and, Bool.false_eq_true, if_false, height]
      · simp only [height]
      · next hother => exact absurd rfl (hother _)
    rw [Literal.integer, hzero, List.singleton_append, hoctal]
    rfl
  · obtain ⟨d, ds, hds⟩ := List.exists_cons_of_ne_nil l.wholeNe
    have hd : d ≠ '0' := by
      rintro rfl
      exact hlead (hds ▸ rfl)
    have htake := takeWhile_whole l
    rw [hds, List.cons_append] at htake ⊢
    rw [strtoullDigits_of_ne_zero _ hd, htake, Literal.integer, hds]

/-- **strtoull**: the sign and the whole part of a literal. -/
theorem strtoull_literal : strtoull l.text =
    if l.integer ≤ ullongMax then
      (if l.sign = .minus then (2 ^ 64 - l.integer) % 2 ^ 64 else l.integer)
    else ullongMax := by
  have hhead : ∀ c, (l.whole ++ l.tail).head? = some c → c.isDigit = true :=
    fun c hc => (head?_whole l hc).2
  rw [strtoull, (dropWhile_literal l).1, Literal.text]
  cases l.sign with
  | none =>
      simp only [Sign.text, List.nil_append, reduceCtorEq, if_false]
      split
      · next t heq => exact absurd (hhead '+' (heq ▸ rfl)) (by decide)
      · next t heq => exact absurd (hhead '-' (heq ▸ rfl)) (by decide)
      · rw [strtoullDigits_whole]
        split <;> omega
  | plus =>
      simp only [Sign.text, List.singleton_append, strtoullDigits_whole, reduceCtorEq, if_false]
      split <;> omega
  | minus =>
      simp only [Sign.text, List.singleton_append, strtoullDigits_whole, if_true]
      split <;> split <;> omega

end Strtoull

/-! ## what a text denotes -/

/-- The text is a decimal literal of that value. -/
def Denotes (t : Text) (q : Rat) : Prop := ∃ l : Literal, l.text = t ∧ l.value = q

/-- A text has one value. -/
theorem Denotes.unique {t : Text} {q r : Rat} (hq : Denotes t q) (hr : Denotes t r) : q = r := by
  obtain ⟨l, rfl, rfl⟩ := hq
  obtain ⟨l', htext, rfl⟩ := hr
  have hscan := scanLf_literal l'
  rw [htext, scanLf_literal l] at hscan
  exact Lf.num.inj (Scan.ok.inj hscan).1

/-- A text denotes one number only. -/
theorem denotes_iff {t : Text} {q r : Rat} (hr : Denotes t r) : Denotes t q ↔ r = q :=
  ⟨fun hq => hr.unique hq, fun h => h ▸ hr⟩

/-- A whole part and six digits of a fraction. -/
def Literal.fixed (sign : Sign) (n m : Nat) : Literal :=
  { Literal.ofNat n with
    sign
    frac := some (zeroPad 6 m)
    fracIsDigit := fun _ hc => isDigit_of_mem_zeroPad hc }

/-- The digits of a number denote it. -/
theorem denotes_decimal (n : Nat) : Denotes (decimal n) n := by
  have hnil : digitsVal 10 [] = 0 := rfl
  refine ⟨Literal.ofNat n, Literal.text_ofNat n, ?_⟩
  simp [Literal.value, Literal.ofNat, Sign.apply, Literal.mantissa, Literal.power, scale, hnil]

/-- The value of a literal with six digits behind the point. -/
theorem Literal.value_fixed (s : Sign) (n : Nat) {m : Nat} (hm : m < 10 ^ 6) :
    (Literal.fixed s n m).value = s.apply ((n : Rat) + m / 10 ^ 6) := by
  have hmantissa : (Literal.fixed s n m).mantissa = (n : Rat) + m / 10 ^ 6 := by
    simp only [mantissa, fixed, ofNat, Option.getD_some, digitsVal_decimal, digitsVal_zeroPad]
    rw [length_zeroPad (by decide) hm]
  rw [Literal.value, hmantissa]
  simp [fixed, ofNat, power, scale]

/-- The text of a literal with six digits behind the point. -/
theorem Literal.text_fixed (s : Sign) (n m : Nat) :
    (Literal.fixed s n m).text = s.text ++ (decimal n ++ '.' :: zeroPad 6 m) := by
  simp [text, tail, fixed, ofNat]

/-- What `%lf` prints denotes the rounded number. -/
theorem denotes_lf (q : Rat) : Denotes (Decimal.lf q) (Decimal.rounded q) := by
  have hvalue := Literal.value_fixed (if q < 0 then .minus else .none) (Decimal.micro q / 10 ^ 6)
    (Nat.mod_lt (Decimal.micro q) (by decide : 0 < 10 ^ 6))
  refine ⟨_, ?_, hvalue.trans ?_⟩
  · rw [Literal.text_fixed, Decimal.lf, List.append_assoc]
    split <;> rfl
  · rw [Decimal.micro_split, Decimal.rounded]
    split
    · exact (neg_one_mul _).symm
    · exact (one_mul _).symm

end Scanf
