import Mathlib.Data.List.Induction
import Hpssix.Base.CText

/-!
# Base.Scanf

`sscanf` for the integer conversions `%d`, `%u` and `%lu` and literal
characters.

A conversion skips white space and reads the longest run of an optional sign
and decimal digits; it fails where there is none, and a scan ends at the first
conversion or character that fails.

* `length_scan_commas` — how many numbers are converted from a line of comma
  separated fields;
* `scan_commas` — which, where the fields are numbers;
* `mem_scan_fixed` — how large a number is that a conversion with a width reads.
-/

namespace Scanf

open CText

/-! ## conversions -/

/-- The end of one conversion: the input ends before it, it does not match, or it reads
something and leaves the rest. -/
inductive Scan (α : Type _) where
  | eof
  | fail
  | ok (a : α) (rest : Text)
deriving DecidableEq

/-- An optional sign and decimal digits. -/
def signedDigits : Text → Option (Int × Text)
  | '+' :: t => (digitRun 10 t).map fun p => (p.1, p.2)
  | '-' :: t => (digitRun 10 t).map fun p => (-p.1, p.2)
  | t => (digitRun 10 t).map fun p => (p.1, p.2)

/-- An integer conversion.  A width bounds the characters that are looked at, white
space apart. -/
def scanInt (width : Option Nat) (s : Text) : Scan Int :=
  let t := s.dropWhile isSpace
  if t = [] then .eof
  else
    match signedDigits (width.elim t t.take) with
    | none => .fail
    | some (v, rest) => .ok v (rest ++ width.elim [] t.drop)

/-- A piece of a format. -/
inductive Directive where
  | d (width : Option Nat)
  | u
  | lu
  | lit (c : Char)
deriving DecidableEq

/-- The value of `%lu`: one that does not fit becomes `ULONG_MAX`, a negative one wraps. -/
def ulong (v : Int) : Nat :=
  if ullongMax < v.natAbs then ullongMax else (v % ((2 ^ 64 : Nat) : Int)).toNat

/-- What a conversion stores. -/
def Directive.store : Directive → Int → Int
  | .d _, v => Int.bmod (max (-((2 ^ 63 : Nat) : Int)) (min v ((2 ^ 63 - 1 : Nat) : Int))) (2 ^ 32)
  | .u, v => (ulong v % 2 ^ 32 : Nat)
  | .lu, v => ulong v
  | .lit _, v => v

/-- The width of a conversion. -/
def Directive.width : Directive → Option Nat
  | .d width => width
  | _ => none

/-- `sscanf`: the numbers that are stored, and whether the input ended in front of a
directive. -/
def scan : List Directive → Text → List Int × Bool
  | [], _ => ([], false)
  | .lit c :: ds, s =>
      match s with
      | [] => ([], true)
      | x :: t => if x = c then scan ds t else ([], false)
  | conv :: ds, s =>
      match scanInt conv.width s with
      | .eof => ([], true)
      | .fail => ([], false)
      | .ok v rest => (conv.store v :: (scan ds rest).1, (scan ds rest).2)

/-- The return value: the number of conversions, or `EOF`. -/
def sscanf (format : List Directive) (s : Text) : Int :=
  match scan format s with
  | ([], true) => -1
  | (values, _) => values.length

/-! ## fields -/

/-- How many numbers lead a list of fields: a field that is a number and nothing else lets
the scan go on, and one that only begins with a number is the last. -/
def leadingNumbers : List Text → Nat
  | [] => 0
  | f :: fs =>
      match signedDigits (f.dropWhile isSpace) with
      | none => 0
      | some (_, []) => 1 + leadingNumbers fs
      | some (_, _ :: _) => 1

section Stop
variable {x : Char}

theorem dropWhile_isSpace_append (hx : isSpace x = false) (f rest : Text) :
    (f ++ x :: rest).dropWhile isSpace = f.dropWhile isSpace ++ x :: rest := by
  induction f with
  | nil => simp [hx]
  | cons c f ih =>
      rw [List.cons_append, List.dropWhile_cons, List.dropWhile_cons]
      split
      · exact ih
      · rfl

/-- A run of digits ends in front of a character that is none. -/
theorem digitRun_append {b : Nat} (hx : isDigitOf b x = false) (t rest : Text) :
    digitRun b (t ++ x :: rest) = (digitRun b t).map fun p => (p.1, p.2 ++ x :: rest) := by
  have htake : (t ++ x :: rest).takeWhile (isDigitOf b) = t.takeWhile (isDigitOf b) := by
    induction t with
    | nil => simp [hx]
    | cons c t ih =>
        rw [List.cons_append, List.takeWhile_cons, List.takeWhile_cons, ih]
  have hdrop : (t ++ x :: rest).dropWhile (isDigitOf b) = t.dropWhile (isDigitOf b) ++ x :: rest := by
    clear htake
    induction t with
    | nil => simp [hx]
    | cons c t ih =>
        rw [List.cons_append, List.dropWhile_cons, List.dropWhile_cons]
        split
        · exact ih
        · rfl
  rw [digitRun, digitRun, htake, hdrop]
  split <;> rfl

/-- A conversion ends in front of a character that is neither digit nor sign. -/
theorem signedDigits_append (hx : isDigitOf 10 x = false) (hsign : x ≠ '+' ∧ x ≠ '-')
    (t rest : Text) :
    signedDigits (t ++ x :: rest) = (signedDigits t).map fun p => (p.1, p.2 ++ x :: rest) := by
  match t with
  | [] =>
      have hnone : digitRun 10 (x :: rest) = none := digitRun_append hx [] rest
      rw [List.nil_append, signedDigits, hnone]
      · rfl
      · rintro u ⟨⟩
        exact hsign.1 rfl
      · rintro u ⟨⟩
        exact hsign.2 rfl
  | c :: t =>
      by_cases hplus : c = '+'
      · subst hplus
        simp only [List.cons_append, signedDigits, digitRun_append hx, Option.map_map]
        rfl
      · by_cases hminus : c = '-'
        · subst hminus
          simp only [List.cons_append, signedDigits, digitRun_append hx, Option.map_map]
          rfl
        · have hother : ∀ u : Text, signedDigits (c :: u) =
              (digitRun 10 (c :: u)).map fun p => ((p.1 : Int), p.2) := fun u => by
            rw [signedDigits]
            · rintro v ⟨⟩
              exact hplus rfl
            · rintro v ⟨⟩
              exact hminus rfl
          rw [List.cons_append, hother, hother, ← List.cons_append, digitRun_append hx,
            Option.map_map, Option.map_map]
          rfl

end Stop

/-! ## fields between commas -/

/-- `%u` or `%lu`. -/
def Directive.Plain (k : Directive) : Prop := k = .u ∨ k = .lu

/-- What is left behind a number is an end of the text. -/
theorem suffix_of_signedDigits {t rest : Text} {v : Int} (h : signedDigits t = some (v, rest)) :
    rest <:+ t := by
  have hrun : ∀ {u : Text} {n : Nat} {r : Text}, digitRun 10 u = some (n, r) → r <:+ u := by
    intro u n r hu
    obtain ⟨-, -, rfl⟩ := digitRun_eq_some hu
    exact List.dropWhile_suffix _
  unfold signedDigits at h
  split at h <;> obtain ⟨⟨n, r⟩, hu, heq⟩ := Option.map_eq_some_iff.mp h <;>
    obtain ⟨-, rfl⟩ := Prod.mk.inj heq
  · exact (hrun hu).trans (List.suffix_cons ..)
  · exact (hrun hu).trans (List.suffix_cons ..)
  · exact hrun hu

/-- A scan that begins with a plain conversion. -/
theorem scan_plain {k : Directive} (hk : k.Plain) (ds : List Directive) (s : Text) :
    (scan (k :: ds) s).1 =
      match signedDigits (s.dropWhile isSpace) with
      | none => []
      | some (v, rest) => k.store v :: (scan ds rest).1 := by
  have hscan : (scan (k :: ds) s).1 = match scanInt none s with
      | .ok v rest => k.store v :: (scan ds rest).1
      | _ => [] := by
    obtain rfl | rfl := hk
    · rw [scan]
      · simp only [Directive.width]
        cases scanInt none s <;> rfl
      · simp
    · rw [scan]
      · simp only [Directive.width]
        cases scanInt none s <;> rfl
      · simp
  rw [hscan, scanInt]
  by_cases hnil : s.dropWhile isSpace = []
  · rw [if_pos hnil, hnil]
    rfl
  · rw [if_neg hnil]
    simp only [Option.elim_none]
    cases signedDigits (s.dropWhile isSpace) with
    | none => rfl
    | some p => simp

theorem scan_lit_self (c : Char) (ds : List Directive) (t : Text) :
    scan (.lit c :: ds) (c :: t) = scan ds t := by
  simp [scan]

/-- A comma that is not there ends the scan. -/
theorem scan_lit_of_ne {c : Char} {t : Text} (h : t.head? ≠ some c) (ds : List Directive) :
    (scan (.lit c :: ds) t).1 = [] := by
  match t with
  | [] => rfl
  | x :: t =>
      have hx : x ≠ c := fun hx => h (by rw [hx]; rfl)
      simp [scan, hx]

theorem intersperse_cons (sep k : Directive) (ks : List Directive) :
    (k :: ks).intersperse sep = k :: if ks = [] then [] else sep :: ks.intersperse sep := by
  cases ks <;> rfl

/-- **How many**: conversions between commas are as many as there are fields to read. -/
theorem length_scan_commas {ks : List Directive} (hk : ∀ k ∈ ks, k.Plain) (line : Text) :
    (scan (ks.intersperse (.lit ',')) line).1.length =
      min ks.length (leadingNumbers (line.splitOn ',')) := by
  induction ks generalizing line with
  | nil => simp [scan]
  | cons k ks ih =>
      have hk₁ := hk k List.mem_cons_self
      have hks := ih fun k' hk' => hk k' (List.mem_cons_of_mem k hk')
      -- the first field, and whether a comma follows it
      obtain ⟨f, fs, hfs, hread⟩ : ∃ f fs, line.splitOn ',' = f :: fs ∧ ',' ∉ f ∧
          (fs = [] ∧ line = f ∨ ∃ rest, line = f ++ ',' :: rest ∧ fs = rest.splitOn ',') := by
        by_cases hcomma : ',' ∈ line
        · obtain ⟨f, rest, rfl, hf⟩ := List.eq_append_cons_of_mem hcomma
          exact ⟨f, _, List.splitOn_append_cons_self_of_not_mem hf rest, hf, .inr ⟨rest, rfl, rfl⟩⟩
        · exact ⟨line, [], List.splitOn_eq_singleton hcomma, hcomma, .inl ⟨rfl, rfl⟩⟩
      obtain ⟨hf, hread⟩ := hread
      have hstop : ∀ {v : Int} {c : Char} {r : Text},
          signedDigits (f.dropWhile isSpace) = some (v, c :: r) → c ≠ ',' := by
        rintro v c r h rfl
        have hsuf := (suffix_of_signedDigits h).trans (List.dropWhile_suffix _)
        exact hf (hsuf.subset List.mem_cons_self)
      -- what is scanned behind the first field
      generalize hmore : (if ks = [] then [] else .lit ',' :: ks.intersperse (.lit ',')) = more
      have hend : ∀ {r : Text}, r.head? ≠ some ',' → (scan more r).1 = [] := by
        intro r hr
        rw [← hmore]
        split
        · rfl
        · exact scan_lit_of_ne hr _
      have hgo : ∀ rest : Text, (scan more (',' :: rest)).1.length =
          min ks.length (leadingNumbers (rest.splitOn ',')) := by
        intro rest
        rw [← hmore]
        split
        · next hnil => simp [hnil, scan]
        · rw [scan_lit_self, hks]
      rw [hfs, leadingNumbers, intersperse_cons, hmore, scan_plain hk₁]
      obtain ⟨rfl, rfl⟩ | ⟨rest, rfl, rfl⟩ := hread
      · cases hnum : signedDigits (line.dropWhile isSpace) with
        | none => simp
        | some p =>
            obtain ⟨v, r⟩ := p
            cases r with
            | nil =>
                have hnothing : (scan more []).1 = [] := hend (by simp)
                simp [hnothing, leadingNumbers]
            | cons c r =>
                have hnothing : (scan more (c :: r)).1 = [] := hend (by simpa using hstop hnum)
                simp [hnothing]
      · rw [dropWhile_isSpace_append rfl, signedDigits_append rfl (by decide)]
        cases hnum : signedDigits (f.dropWhile isSpace) with
        | none => simp
        | some p =>
            obtain ⟨v, r⟩ := p
            cases r with
            | nil =>
                simp only [Option.map_some, List.nil_append, List.length_cons, hgo]
                omega
            | cons c r =>
                have hnothing : (scan more (c :: (r ++ ',' :: rest))).1 = [] :=
                  hend (by simpa using hstop hnum)
                simp [hnothing]

/-- Digits in front of a text that does not begin with one are read, and nothing else. -/
theorem signedDigits_digits {f : Text} (hne : f ≠ []) (hdig : ∀ c ∈ f, c.isDigit = true)
    {rest : Text} (hrest : ∀ c, rest.head? = some c → c.isDigit = false) :
    signedDigits ((f ++ rest).dropWhile isSpace) = some ((digitsVal 10 f : Int), rest) := by
  obtain ⟨c, f, rfl⟩ := List.exists_cons_of_ne_nil hne
  have hc := hdig c List.mem_cons_self
  have htake : (c :: f ++ rest).takeWhile (isDigitOf 10) = c :: f := by
    rw [List.takeWhile_append_of_pos fun d hd => by rw [isDigitOf_ten, hdig d hd]]
    cases rest with
    | nil => simp
    | cons x rest => simp [isDigitOf_ten, hrest x rfl]
  have hdrop : (c :: f ++ rest).dropWhile (isDigitOf 10) = rest := by
    rw [List.dropWhile_append_of_pos fun d hd => by rw [isDigitOf_ten, hdig d hd]]
    cases rest with
    | nil => rfl
    | cons x rest => simp [isDigitOf_ten, hrest x rfl]
  have hrun : digitRun 10 (c :: f ++ rest) = some (digitsVal 10 (c :: f), rest) := by
    rw [digitRun, htake, hdrop, if_neg (List.cons_ne_nil c f)]
  rw [List.cons_append, List.dropWhile_cons, not_isSpace_of_isDigit hc, ← List.cons_append,
    if_neg Bool.false_ne_true, List.cons_append, signedDigits, ← List.cons_append, hrun]
  · rfl
  · rintro t ⟨⟩
    exact absurd hc (by decide)
  · rintro t ⟨⟩
    exact absurd hc (by decide)

/-- **Which**: fields that are digits are converted to their values, up to a text that
neither a digit nor a comma begins. -/
theorem scan_commas {ks : List Directive} (hk : ∀ k ∈ ks, k.Plain) {fs : List Text}
    (hfs : ∀ f ∈ fs, f ≠ [] ∧ ∀ c ∈ f, c.isDigit = true) (hne : fs ≠ [])
    (hlen : fs.length ≤ ks.length) {tail : Text}
    (htail : ∀ c, tail.head? = some c → c.isDigit = false ∧ c ≠ ',') :
    (scan (ks.intersperse (.lit ',')) (List.intercalate [','] fs ++ tail)).1 =
      List.zipWith (fun k f => k.store (digitsVal 10 f)) ks fs := by
  induction fs generalizing ks with
  | nil => exact absurd rfl hne
  | cons f fs ih =>
      obtain ⟨k, ks, rfl⟩ : ∃ k ks', ks = k :: ks' := by
        cases ks with
        | nil => simp at hlen
        | cons k ks => exact ⟨k, ks, rfl⟩
      obtain ⟨hfne, hfdig⟩ := hfs f List.mem_cons_self
      rw [intersperse_cons, scan_plain (hk k List.mem_cons_self), List.zipWith_cons_cons]
      cases fs with
      | nil =>
          have hend : (scan (if ks = [] then [] else .lit ',' :: ks.intersperse (.lit ',')) tail).1 =
              [] := by
            split
            · rfl
            · exact scan_lit_of_ne (fun h => (htail ',' h).2 rfl) _
          rw [List.intercalate_singleton,
            signedDigits_digits hfne hfdig fun c hc => (htail c hc).1]
          simp only [hend, List.zipWith_nil_right]
      | cons f' fs =>
          have hks : ks ≠ [] := by
            rintro rfl
            simp at hlen
          have hrest := ih (fun k' hk' => hk k' (List.mem_cons_of_mem k hk'))
            (fun g hg => hfs g (List.mem_cons_of_mem f hg)) (List.cons_ne_nil f' fs)
            (by simpa using hlen)
          rw [List.intercalate_cons_cons, List.append_assoc, List.append_assoc,
            List.singleton_append, signedDigits_digits hfne hfdig (by rintro c ⟨⟩; rfl), if_neg hks]
          simp only [scan_lit_self, hrest]

/-! ## fields of a fixed width -/

theorem dropWhile_isSpace_digits {f : Text} (hne : f ≠ []) (hdig : ∀ c ∈ f, c.isDigit = true)
    (rest : Text) : (f ++ rest).dropWhile isSpace = f ++ rest := by
  obtain ⟨c, f, rfl⟩ := List.exists_cons_of_ne_nil hne
  rw [List.cons_append, List.dropWhile_cons, not_isSpace_of_isDigit (hdig c List.mem_cons_self),
    if_neg Bool.false_ne_true]

/-- A number that an `int` holds is stored as it is. -/
theorem store_d (width : Option Nat) {n : Nat} (h : n < 2 ^ 31) :
    (Directive.d width).store n = n := by
  have hclamp : max (-((2 ^ 63 : Nat) : Int)) (min n ((2 ^ 63 - 1 : Nat) : Int)) = n := by
    omega
  rw [Directive.store, hclamp, Int.bmod_eq_of_le] <;> omega

/-- **%d**: digits are read up to the width, or to what is none. -/
theorem scan_d {width : Option Nat} {f : Text} (ds : List Directive) (hne : f ≠ [])
    (hdig : ∀ c ∈ f, c.isDigit = true) (hval : digitsVal 10 f < 2 ^ 31) {rest : Text}
    (hend : width = some f.length ∨
      width = none ∧ ∀ c, rest.head? = some c → c.isDigit = false) :
    scan (.d width :: ds) (f ++ rest) =
      ((digitsVal 10 f : Int) :: (scan ds rest).1, (scan ds rest).2) := by
  have hspace := dropWhile_isSpace_digits hne hdig
  have hread : scanInt width (f ++ rest) = .ok (digitsVal 10 f : Int) rest := by
    rw [scanInt, hspace, if_neg (List.append_ne_nil_of_left_ne_nil hne rest)]
    obtain rfl | ⟨rfl, hrest⟩ := hend
    · have hall : signedDigits ((f ++ []).dropWhile isSpace) = _ :=
        signedDigits_digits hne hdig (by simp)
      rw [hspace, List.append_nil] at hall
      simp [hall]
    · have hall := signedDigits_digits hne hdig hrest
      rw [hspace] at hall
      simp [hall]
  rw [scan]
  · simp only [Directive.width, hread, store_d width hval]
  · simp

/-! ## how large a field of a fixed width is -/

theorem digitsVal_lt {b : Nat} {ds : Text} (h : ∀ c ∈ ds, isDigitOf b c = true) :
    digitsVal b ds < b ^ ds.length := by
  induction ds using List.reverseRecOn with
  | nil => exact Nat.one_pos
  | append_singleton ds c ih =>
      have hrest := ih fun d hd => h d (List.mem_append_left _ hd)
      have hc : isDigitOf b c = true := h c (by simp)
      obtain ⟨n, hn, hlt⟩ : ∃ n, digitVal c = some n ∧ n < b := by
        unfold isDigitOf at hc
        split at hc
        · next n hn => exact ⟨n, hn, by simpa using hc⟩
        · exact Bool.noConfusion hc
      have hval : digitsVal b [c] = n := by simp [digitsVal, hn]
      calc digitsVal b (ds ++ [c]) = digitsVal b ds * b + n := by
            rw [digitsVal_append, hval, List.length_singleton, Nat.pow_one]
        _ < (digitsVal b ds + 1) * b := by rw [Nat.succ_mul]; omega
        _ ≤ b ^ ds.length * b := Nat.mul_le_mul_right b hrest
        _ = b ^ (ds ++ [c]).length := by simp [Nat.pow_succ]

theorem digitRun_lt {b n w : Nat} {t rest : Text} (hb : 0 < b) (hw : t.length ≤ w)
    (h : digitRun b t = some (n, rest)) : n < b ^ w := by
  obtain ⟨-, rfl, -⟩ := digitRun_eq_some h
  have hlen : (t.takeWhile (isDigitOf b)).length ≤ w :=
    Nat.le_trans (List.takeWhile_sublist _).length_le hw
  exact Nat.lt_of_lt_of_le (digitsVal_lt fun c hc => List.mem_takeWhile_imp hc)
    (Nat.pow_le_pow_right hb hlen)

/-- A minus takes up one of the characters. -/
theorem signedDigits_bounds {t rest : Text} {v : Int} {w : Nat} (hw : t.length ≤ w + 1)
    (h : signedDigits t = some (v, rest)) : -(10 ^ w : Nat) < v ∧ v < (10 ^ (w + 1) : Nat) := by
  have hpos : 0 < 10 ^ w := Nat.pow_pos (by decide)
  have hmono : 10 ^ w ≤ 10 ^ (w + 1) := Nat.pow_le_pow_right (by decide) (Nat.le_succ w)
  unfold signedDigits at h
  split at h
  · obtain ⟨⟨n, u⟩, hn, heq⟩ := Option.map_eq_some_iff.mp h
    obtain ⟨rfl, -⟩ := Prod.mk.inj heq
    have hlt := digitRun_lt (by decide) (by simpa using hw) hn
    omega
  · obtain ⟨⟨n, u⟩, hn, heq⟩ := Option.map_eq_some_iff.mp h
    obtain ⟨rfl, -⟩ := Prod.mk.inj heq
    have hlt := digitRun_lt (by decide) (by simpa using hw) hn
    omega
  · obtain ⟨⟨n, u⟩, hn, heq⟩ := Option.map_eq_some_iff.mp h
    obtain ⟨rfl, -⟩ := Prod.mk.inj heq
    have hlt := digitRun_lt (by decide) hw hn
    omega

theorem scanInt_bounds {w : Nat} {s rest : Text} {v : Int}
    (h : scanInt (some (w + 1)) s = .ok v rest) :
    -(10 ^ w : Nat) < v ∧ v < (10 ^ (w + 1) : Nat) := by
  unfold scanInt at h
  dsimp only at h
  split at h
  · cases h
  · split at h
    · cases h
    · next u t hsigned =>
      obtain ⟨rfl, -⟩ := Scan.ok.inj h
      exact signedDigits_bounds (by simp [List.length_take]) hsigned

theorem store_int (width : Option Nat) {v : Int} (hlow : -2 ^ 31 ≤ v) (hhigh : v < 2 ^ 31) :
    (Directive.d width).store v = v := by
  have hclamp : max (-((2 ^ 63 : Nat) : Int)) (min v ((2 ^ 63 - 1 : Nat) : Int)) = v := by omega
  rw [Directive.store, hclamp, Int.bmod_eq_of_le] <;> omega

/-- A conversion with a width, or a character. -/
def Directive.Fixed (w : Nat) : Directive → Prop
  | .d width => width = some w
  | .lit _ => True
  | _ => False

/-- **How large**: what is stored from conversions of a fixed width. -/
theorem mem_scan_fixed {w : Nat} (hw : w < 9) {ds : List Directive}
    (hds : ∀ d ∈ ds, d.Fixed (w + 1)) {s : Text} {v : Int} (hv : v ∈ (scan ds s).1) :
    -(10 ^ w : Nat) < v ∧ v < (10 ^ (w + 1) : Nat) := by
  induction ds generalizing s with
  | nil => simp [scan] at hv
  | cons d ds ih =>
      have hrest : ∀ d ∈ ds, d.Fixed (w + 1) := fun d hd => hds d (List.mem_cons_of_mem _ hd)
      have hd : d.Fixed (w + 1) := hds d List.mem_cons_self
      cases d with
      | u => exact hd.elim
      | lu => exact hd.elim
      | lit c =>
          cases s with
          | nil => simp [scan] at hv
          | cons x t =>
              rw [scan] at hv
              split at hv
              · exact ih hrest hv
              · cases hv
      | d width =>
          obtain rfl : width = some (w + 1) := hd
          rw [scan] at hv
          · simp only [Directive.width] at hv
            cases hread : scanInt (some (w + 1)) s with
            | eof => simp [hread] at hv
            | fail => simp [hread] at hv
            | ok u rest =>
                simp only [hread, List.mem_cons] at hv
                have hu := scanInt_bounds hread
                have hlow : 10 ^ w ≤ 10 ^ 8 := Nat.pow_le_pow_right (by decide) (by omega)
                have hhigh : 10 ^ (w + 1) ≤ 10 ^ 9 := Nat.pow_le_pow_right (by decide) (by omega)
                obtain rfl | hv := hv
                · rwa [store_int _ (by omega) (by omega)]
                · exact ih hrest hv
          · simp

end Scanf
