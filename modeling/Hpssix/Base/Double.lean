import Hpssix.Base.Decimal
import Hpssix.Base.ScanFloat

/-!
# Base.Double

Numbers that go through a `double`: the nearest one with a significand of 53 bits,
and the text that `%lf` prints for what `%lf` reads.
-/

namespace Double

open CText Scanf

/-- The exponent of two of a number above zero. -/
def binExponent (q : Rat) : Int :=
  let k : Int := q.num.natAbs.log2 - q.den.log2
  if scale 2 1 k ≤ q then k else k - 1

/-- The nearest `double` to a number that is not negative, ties to even; below `2 ^ -1022` the
significand is shorter, and from `2 ^ 1024` on there is none. -/
def nearest (q : Rat) : Lf :=
  let e := max (-1074) (binExponent q - 52)
  let m := scale 2 q (-e)
  let r := scale 2 (Decimal.roundDiv m.num.natAbs m.den) e
  if r < 2 ^ 1024 then .num r else .inf false

/-- What `%lf` prints for a value without its sign. -/
def unsignedText : Lf → Text
  | .num q =>
    match nearest |q| with
    | .num r => Decimal.lf r
    | _ => "inf".toList
  | .inf _ => "inf".toList
  | .nan => "nan".toList

/-- What `%lf` prints for the value that `%lf` reads.  The sign is kept, also that of a zero;
a text that is no number leaves a zero. -/
def lfText (s : Text) : Text :=
  match scanLf s with
  | .ok v _ =>
    (if (s.dropWhile isSpace).head? = some '-' then ['-'] else []) ++ unsignedText v
  | _ => Decimal.lf 0

example : lfText "-1e23".toList = "-99999999999999991611392.000000".toList := by decide +kernel

end Double
