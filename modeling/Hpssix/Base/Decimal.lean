import Mathlib.Algebra.Order.Field.Basic
import Mathlib.Algebra.Order.Field.Rat
import Mathlib.Tactic.Ring
import Hpssix.Base.CText

/-!
# Base.Decimal

Decimal fractions as text: what `%lf` prints for a finite `double`, and what a
decimal constant of SQL denotes.

`%lf` rounds to six digits after the point (`micro`, ties to even), so a
number that needs no more (`SixDigits`) is read back as itself
(`rounded_of_sixDigits`), and any other as the rounded one (`value_lf`).
-/

namespace Decimal

open CText

/-! ## printing -/

/-- The nearest whole number to `n / d`, ties to even. -/
def roundDiv (n d : Nat) : Nat :=
  let k := n / d
  if 2 * (n % d) < d then k
  else if d < 2 * (n % d) then k + 1
  else if k % 2 = 0 then k else k + 1

/-- The distance from zero in millionths. -/
def micro (q : Rat) : Nat := roundDiv (q.num.natAbs * 10 ^ 6) q.den

/-- What `%lf` prints. -/
def lf (q : Rat) : Text :=
  (if q < 0 then ['-'] else []) ++ decimal (micro q / 10 ^ 6) ++ '.' :: zeroPad 6 (micro q % 10 ^ 6)

/-! ## reading -/

/-- The value of digits, a point and digits. -/
def unsigned (t : Text) : Option Rat :=
  match t.dropWhile Char.isDigit with
  | '.' :: frac =>
    if frac.all Char.isDigit then
      some (digitsVal 10 (t.takeWhile Char.isDigit) + digitsVal 10 frac / 10 ^ frac.length)
    else none
  | _ => none

/-- The value of a decimal constant. -/
def value : Text → Option Rat
  | '-' :: t => (unsigned t).map fun q => -q
  | t => unsigned t

/-! ## read-back -/

theorem unsigned_fixed {k m : Nat} (hm : m < 10 ^ 6) :
    unsigned (decimal k ++ '.' :: zeroPad 6 m) = some ((k : Rat) + m / 10 ^ 6) := by
  have hdig : ∀ c ∈ decimal k, c.isDigit = true := fun c hc => isDigit_of_mem_decimal hc
  have hdrop : (decimal k ++ '.' :: zeroPad 6 m).dropWhile Char.isDigit = '.' :: zeroPad 6 m := by
    rw [List.dropWhile_append_of_pos hdig]
    rfl
  have htake : (decimal k ++ '.' :: zeroPad 6 m).takeWhile Char.isDigit = decimal k := by
    rw [List.takeWhile_append_of_pos hdig]
    simp
  have hall : (zeroPad 6 m).all Char.isDigit = true :=
    List.all_eq_true.mpr fun c hc => isDigit_of_mem_zeroPad hc
  simp only [unsigned, hdrop, htake]
  rw [if_pos hall, digitsVal_decimal, digitsVal_zeroPad, length_zeroPad (by decide) hm]

/-- What a printed number denotes. -/
def rounded (q : Rat) : Rat := (if q < 0 then -1 else 1) * (micro q / 10 ^ 6)

theorem value_of_ne_minus {t : Text} (h : t.head? ≠ some '-') : value t = unsigned t := by
  unfold value
  split
  · simp at h
  · rfl

/-- The digits in front of the point, and behind it. -/
theorem micro_split (q : Rat) :
    ((micro q / 10 ^ 6 : Nat) : Rat) + (micro q % 10 ^ 6 : Nat) / 10 ^ 6 = micro q / 10 ^ 6 := by
  have h := Nat.div_add_mod (micro q) (10 ^ 6)
  have hq : ((10 ^ 6 * (micro q / 10 ^ 6) + micro q % 10 ^ 6 : Nat) : Rat) = micro q := by rw [h]
  rw [← hq, Nat.cast_add, Nat.cast_mul]
  norm_num
  ring

theorem value_lf (q : Rat) : value (lf q) = some (rounded q) := by
  have hfix := unsigned_fixed (k := micro q / 10 ^ 6) (Nat.mod_lt (micro q) (by decide : 0 < 10 ^ 6))
  rw [micro_split] at hfix
  rw [lf, rounded]
  by_cases hneg : q < 0
  · rw [if_pos hneg, if_pos hneg, List.append_assoc, neg_one_mul]
    exact congrArg (Option.map fun q => -q) hfix
  · rw [if_neg hneg, if_neg hneg, List.nil_append, one_mul, value_of_ne_minus, hfix]
    intro hhead
    have hmem : '-' ∈ decimal (micro q / 10 ^ 6) := by
      cases hd : decimal (micro q / 10 ^ 6) with
      | nil => exact absurd hd Nat.toDigits_ne_nil
      | cons c cs =>
          rw [hd] at hhead
          simp_all
    exact absurd (isDigit_of_mem_decimal hmem) (by decide)

/-- A number that six digits after the point represent exactly. -/
def SixDigits (q : Rat) : Prop := q.den ∣ 10 ^ 6

instance (q : Rat) : Decidable (SixDigits q) := inferInstanceAs (Decidable (_ ∣ _))

theorem roundDiv_mul (d k : Nat) (hd : 0 < d) : roundDiv (d * k) d = k := by
  simp [roundDiv, Nat.mul_div_cancel_left k hd, hd]

theorem rounded_of_sixDigits {q : Rat} (h : SixDigits q) : rounded q = q := by
  obtain ⟨k, hk⟩ := h
  have hmicro : micro q = q.num.natAbs * k := by
    rw [micro, hk, Nat.mul_left_comm, roundDiv_mul _ _ q.den_pos]
  have hk' : (10 : Rat) ^ 6 = q.den * k := by exact_mod_cast hk
  have hk0 : (k : Rat) ≠ 0 := by
    intro h0
    simp [h0] at hk'
  have habs : ((micro q : Nat) : Rat) / 10 ^ 6 = |q| := by
    rw [hmicro, hk', Nat.cast_mul, mul_div_mul_right _ _ hk0, Nat.cast_natAbs, Int.cast_abs]
    conv_rhs => rw [← Rat.num_div_den q, abs_div, Nat.abs_cast]
  rw [rounded, habs]
  by_cases hneg : q < 0
  · rw [if_pos hneg, abs_of_neg hneg, neg_one_mul, neg_neg]
  · rw [if_neg hneg, abs_of_nonneg (not_lt.mp hneg), one_mul]

theorem rounded_eq_iff {q : Rat} : rounded q = q ↔ SixDigits q := by
  refine ⟨fun h => ?_, rounded_of_sixDigits⟩
  -- a rounded number is a number of millionths
  have hmillionths : rounded q = (((if q < 0 then -1 else 1) * micro q : Int) : Rat) / (10 ^ 6 : Int) := by
    rw [rounded]
    split <;> push_cast <;> ring
  have hden := Rat.den_dvd ((if q < 0 then -1 else 1) * micro q : Int) (10 ^ 6 : Int)
  rw [SixDigits, ← h, hmillionths]
  exact_mod_cast hden

end Decimal
