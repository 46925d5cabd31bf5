import Mathlib.Algebra.Order.Field.Rat
import Hpssix.Base.Reader
import Hpssix.Base.Scanf

/-!
# Base.ScanFloat

The conversion `%lf` of `sscanf`: a decimal or hexadecimal number with a point
and an exponent, an infinity or a nan.  The conversion takes the longest text
that is, or begins, such a number, and fails if it only begins one.  Values are
exact.
-/

namespace Scanf

open CText Reader

/-! ## numbers -/

/-- What `%lf` reads. -/
inductive Lf where
  | num (q : Rat)
  | inf (negative : Bool)
  | nan
deriving DecidableEq

def Lf.neg : Lf → Lf
  | .num q => .num (-q)
  | .inf negative => .inf !negative
  | .nan => .nan

/-- A number times a power of a base. -/
def scale (b : Nat) (q : Rat) (e : Int) : Rat :=
  if 0 ≤ e then q * b ^ e.toNat else q / b ^ (-e).toNat

/-- Digits, with or without a point. -/
def mantissa (b : Nat) : Read Rat := do
  let whole ← many (isDigitOf b)
  let frac ← ifChar (· = '.') (fun _ => many (isDigitOf b)) (pure [])
  if whole = [] ∧ frac = [] then fail
  else pure (digitsVal b whole + digitsVal b frac / b ^ frac.length)

def digits : Read Int := do
  let ds ← many (isDigitOf 10)
  if ds = [] then fail else pure (digitsVal 10 ds)

/-- A sign, if there is one, in front of something. -/
def signed {α : Type} (neg : α → α) (r : Read α) : Read α :=
  ifChar (· = '-') (fun _ => do let v ← r; pure (neg v)) (ifChar (· = '+') (fun _ => r) r)

/-- An exponent behind its letter. -/
def exponent (letter : Char) : Read Int :=
  ifChar (fun c => c.toLower = letter) (fun _ => signed (fun e => -e) digits) (pure 0)

/-- A mantissa of a base with an exponent of two or ten. -/
def float (b e : Nat) (letter : Char) : Read Lf := do
  let m ← mantissa b
  let k ← exponent letter
  pure (.num (scale e m k))

/-- The prefix of a hexadecimal number decides between two readers. -/
def ifHex {α : Type} (r r' : Read α) : Read α
  | '0' :: c :: t => if c.toLower = 'x' then r t else r' ('0' :: c :: t)
  | t => r' t

/-- The rest of an infinity. -/
def infinity : Read Lf := do
  word "nf".toList
  ifChar (fun c => c.toLower = 'i') (fun _ => do word "nity".toList; pure (.inf false))
    (pure (.inf false))

/-- The rest of a nan, which may go on in parentheses. -/
def nanChars : Read Lf := do
  word "an".toList
  ifChar (· = '(') (fun _ => do
    let _ ← many fun c => c.isAlphanum || c = '_'
    let _ ← char (· = ')')
    pure .nan) (pure .nan)

def unsignedLf : Read Lf :=
  ifChar (fun c => c.toLower = 'i') (fun _ => infinity)
    (ifChar (fun c => c.toLower = 'n') (fun _ => nanChars)
      (ifHex (float 16 2 'p') (float 10 10 'e')))

def signedLf : Read Lf := signed Lf.neg unsignedLf

/-- The conversion `%lf`, as ISO C has it: the longest text that begins a number has to be a
number.  The C library of GNU differs at `1e`, `0x1p` and `0x.`, which it takes, and at
`nan(1)`, which it refuses. -/
def scanLf (s : Text) : Scan Lf :=
  let t := s.dropWhile isSpace
  if t = [] then .eof
  else
    match signedLf t with
    | none => .fail
    | some (v, rest) => .ok v rest

/-- What comes of `sscanf(s, "%lf%c", &rval, &ch)`: `EOF`, 0, 1 or 2, with what is stored. -/
inductive Probe where
  | eof
  | zero
  | one (rval : Lf)
  | two (rval : Lf) (ch : Char)
deriving DecidableEq

def sscanfLfc (s : Text) : Probe :=
  match scanLf s with
  | .eof => .eof
  | .fail => .zero
  | .ok v [] => .one v
  | .ok v (c :: _) => .two v c

/-- The text is a number, and nothing else. -/
def Numeric (s : Text) : Prop := ∃ v, scanLf s = .ok v []

/-! ## a comma ends a number -/

/-- A comma ends a number with a sign. -/
theorem ends_signed {α : Type} {neg : α → α} {r : Read α} (h : Ends ',' r) :
    Ends ',' (signed neg r) :=
  ends_ifChar rfl (fun _ => ends_bind h fun _ => ends_pure _) (ends_ifChar rfl (fun _ => h) h)

/-- A comma ends a mantissa. -/
theorem ends_mantissa {b : Nat} (hb : isDigitOf b ',' = false) : Ends ',' (mantissa b) := by
  refine ends_bind (ends_many hb) fun whole => ?_
  refine ends_bind (ends_ifChar rfl (fun _ => ends_many hb) (ends_pure [])) fun frac => ?_
  split
  · exact ends_fail
  · exact ends_pure _

/-- A comma ends a number with its exponent. -/
theorem ends_float {b e : Nat} {letter : Char} (hb : isDigitOf b ',' = false)
    (hletter : letter ≠ ',') : Ends ',' (float b e letter) := by
  refine ends_bind (ends_mantissa hb) fun m => ends_bind ?_ fun k => ends_pure _
  refine ends_ifChar (by simpa using fun h => hletter h.symm) (fun _ => ends_signed ?_)
    (ends_pure 0)
  refine ends_bind (ends_many rfl) fun ds => ?_
  split
  · exact ends_fail
  · exact ends_pure _

/-- A comma ends either kind of number. -/
theorem ends_ifHex {α : Type} {r r' : Read α} (h : Ends ',' r) (h' : Ends ',' r') :
    Ends ',' (ifHex r r') := by
  intro a b
  match a with
  | [] => exact h' [] b
  | [c] =>
      by_cases hc : c = '0'
      · subst hc
        exact h' ['0'] b
      · have hskip : ∀ t, ifHex r r' (c :: t) = r' (c :: t) := fun t => by
          rw [ifHex]
          rintro d u ⟨⟩
          exact hc rfl
        rw [List.cons_append, hskip, hskip]
        exact h' [c] b
  | c :: d :: a =>
      by_cases hc : c = '0'
      · subst hc
        simp only [List.cons_append, ifHex]
        split
        · exact h a b
        · exact h' ('0' :: d :: a) b
      · have hskip : ∀ t, ifHex r r' (c :: t) = r' (c :: t) := fun t => by
          rw [ifHex]
          rintro d u ⟨⟩
          exact hc rfl
        rw [List.cons_append, hskip, hskip]
        exact h' (c :: d :: a) b

/-- A comma ends whatever `%lf` reads. -/
theorem ends_signedLf : Ends ',' signedLf := by
  refine ends_signed (ends_ifChar rfl (fun _ => ?_) (ends_ifChar rfl (fun _ => ?_) ?_))
  · refine ends_bind (ends_word (by decide)) fun _ => ends_ifChar rfl (fun _ => ?_) (ends_pure _)
    exact ends_bind (ends_word (by decide)) fun _ => ends_pure _
  · refine ends_bind (ends_word (by decide)) fun _ => ends_ifChar rfl (fun _ => ?_) (ends_pure _)
    exact ends_bind (ends_many rfl) fun _ => ends_bind (ends_char rfl) fun _ => ends_pure _
  · exact ends_ifHex (ends_float rfl (by decide)) (ends_float rfl (by decide))

/-- What is read up to a comma is what is read of the text before it. -/
theorem scanLf_comma (a b : Text) :
    scanLf (a ++ ',' :: b) =
      match scanLf a with
      | .ok v rest => .ok v (rest ++ ',' :: b)
      | _ => .fail := by
  have hends : signedLf (a.dropWhile isSpace ++ ',' :: b) = _ := ends_signedLf _ b
  rw [scanLf, scanLf, dropWhile_isSpace_append rfl, if_neg (by simp), hends]
  by_cases hblank : a.dropWhile isSpace = []
  · rw [if_pos hblank, hblank]
    rfl
  · rw [if_neg hblank]
    cases signedLf (a.dropWhile isSpace) <;> rfl

/-! ## what is left behind a number -/

/-- Behind a sign an end of the input is left. -/
theorem leaves_signed {α : Type} {neg : α → α} {r : Read α} (h : Leaves r) :
    Leaves (signed neg r) :=
  leaves_ifChar (fun _ => leaves_bind h fun _ => leaves_pure _) (leaves_ifChar (fun _ => h) h)

/-- Behind a number an end of the input is left. -/
theorem leaves_float (b e : Nat) (letter : Char) : Leaves (float b e letter) := by
  refine leaves_bind ?_ fun m => leaves_bind ?_ fun k => leaves_pure _
  · refine leaves_bind leaves_many fun whole => ?_
    refine leaves_bind (leaves_ifChar (fun _ => leaves_many) (leaves_pure [])) fun frac => ?_
    split
    · exact leaves_fail
    · exact leaves_pure _
  · refine leaves_ifChar (fun _ => leaves_signed ?_) (leaves_pure 0)
    refine leaves_bind leaves_many fun ds => ?_
    split
    · exact leaves_fail
    · exact leaves_pure _

/-- So it is behind either kind of number. -/
theorem leaves_ifHex {α : Type} {r r' : Read α} (h : Leaves r) (h' : Leaves r') :
    Leaves (ifHex r r') := by
  intro t v hv
  unfold ifHex at hv
  split at hv
  · next c u =>
      split at hv
      · exact (h hv).trans ((List.suffix_cons c u).trans (List.suffix_cons '0' _))
      · exact h' hv
  · exact h' hv

/-- So it is behind whatever `%lf` reads. -/
theorem leaves_signedLf : Leaves signedLf := by
  refine leaves_signed (leaves_ifChar (fun _ => ?_) (leaves_ifChar (fun _ => ?_) ?_))
  · refine leaves_bind (leaves_word _) fun _ => leaves_ifChar (fun _ => ?_) (leaves_pure _)
    exact leaves_bind (leaves_word _) fun _ => leaves_pure _
  · refine leaves_bind (leaves_word _) fun _ => leaves_ifChar (fun _ => ?_) (leaves_pure _)
    exact leaves_bind leaves_many fun _ => leaves_bind leaves_char fun _ => leaves_pure _
  · exact leaves_ifHex (leaves_float 16 2 'p') (leaves_float 10 10 'e')

/-- What the conversion leaves is an end of the input. -/
theorem suffix_of_scanLf {s rest : Text} {v : Lf} (h : scanLf s = .ok v rest) : rest <:+ s := by
  simp only [scanLf] at h
  split at h
  · cases h
  · split at h
    · cases h
    · next hread =>
        obtain ⟨-, rfl⟩ := Scan.ok.inj h
        exact (leaves_signedLf hread).trans (List.dropWhile_suffix _)

end Scanf
