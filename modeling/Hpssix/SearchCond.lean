import Hpssix.Schema
import Hpssix.Base.Decimal
import Hpssix.Base.Sql

/-!
# Hpssix.SearchCond

The conditions of `hpssix-search` (`utils/hpssix-search/src/hpssix-search.h`):
the operators and what they mean for the values of a column.
-/

namespace Hpssix

open CText Sql

/-- The six comparisons, `HPSSIX_OP_EQ` to `HPSSIX_OP_NE`. -/
inductive Cmp where
  | eq
  | gt
  | ge
  | lt
  | le
  | ne
deriving DecidableEq

/-- `opstr`. -/
def opstr : Cmp → Text
  | .eq => "=".toList
  | .gt => ">".toList
  | .ge => ">=".toList
  | .lt => "<".toList
  | .le => "<=".toList
  | .ne => "<>".toList

/-- A comparison, from equality and the strict order of a type. -/
def Cmp.holds {α : Type _} [DecidableEq α] (lt : α → α → Bool) : Cmp → α → α → Bool
  | .eq, a, b => a = b
  | .gt, a, b => lt b a
  | .ge, a, b => !lt a b
  | .lt, a, b => lt a b
  | .le, a, b => !lt b a
  | .ne, a, b => a ≠ b

/-- The order of `DOUBLE PRECISION` in PostgreSQL, where NaN is equal to itself
and above every other value. -/
def Float8.lt : Float8 → Float8 → Bool
  | .negInf, b => b ≠ .negInf
  | .num a, .num b => a < b
  | .num _, b => b ≠ .negInf
  | .posInf, b => b = .nan
  | .nan, _ => false

/-- A numeric constant in a statement: its text, and the number it denotes. -/
structure NumLit where
  text : Text
  value : Rat
  reads : Decimal.value text = some value

/-- The constant that `%lf` prints. -/
def NumLit.lf (q : Rat) : NumLit := ⟨Decimal.lf q, Decimal.rounded q, Decimal.value_lf q⟩

@[simp] theorem NumLit.text_lf (q : Rat) : (NumLit.lf q).text = Decimal.lf q := rfl

theorem NumLit.value_lf {q : Rat} (h : Decimal.SixDigits q) : (NumLit.lf q).value = q :=
  Decimal.rounded_of_sixDigits h

end Hpssix
