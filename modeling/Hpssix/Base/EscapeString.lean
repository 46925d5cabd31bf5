import Hpssix.Base.SqlLexer

/-!
# Base.EscapeString

Escape string constants, `E'…'`, for the lexer of `Base.SqlLexer`: in them a
backslash is special, too.

* `lexFrom_pqEscapeLiteral` — what `PQescapeLiteral` writes is one constant, with
  the text as its content.
-/

namespace SqlLexer

open CText Sql Doubling

/-- The content of an escape string constant behind its opening quote, and how many
characters it takes up to the closing one.  Of the escapes only the doubled backslash is
read. -/
def readEscape : Text → Option (Text × Nat)
  | [] => none
  | [c] => if c = quoteChar then some ([], 1) else none
  | c :: d :: s =>
    if c = quoteChar then
      if d = quoteChar then (readEscape s).map fun r => (c :: r.1, r.2 + 2) else some ([], 1)
    else if c = escapeChar then
      if d = escapeChar then (readEscape s).map fun r => (c :: r.1, r.2 + 2) else none
    else (readEscape (d :: s)).map fun r => (c :: r.1, r.2 + 1)

/-- The reader of special constructs that knows escape string constants. -/
def escapeReader (s t : Text) : Option (Option Text × Nat) :=
  if s = ['E'] ∨ s = ['e'] then (readEscape t.tail).map fun r => (some r.1, r.2) else none

/-- The token of what `PQescapeLiteral` writes. -/
def constant (v : Text) : Tok := if escapeChar ∈ v then .extra v else .literal v

/-! ## the content -/

theorem readEscape_cons {c : Char} (hquote : c ≠ quoteChar) (hescape : c ≠ escapeChar) (s : Text) :
    readEscape (c :: s) = (readEscape s).map fun r => (c :: r.1, r.2 + 1) := by
  cases s with
  | nil => simp [readEscape, hquote]
  | cons d s => rw [readEscape, if_neg hquote, if_neg hescape]

theorem readEscape_end {x : Text} (hx : x.head? ≠ some quoteChar) :
    readEscape (quoteChar :: x) = some ([], 1) := by
  cases x with
  | nil => rw [readEscape, if_pos rfl]
  | cons d x =>
      have hd : d ≠ quoteChar := fun heq => hx (congrArg some heq)
      rw [readEscape, if_pos rfl, if_neg hd]

/-- Text with its backslashes and then its quotes doubled is read back. -/
theorem readEscape_double {x : Text} (hx : x.head? ≠ some quoteChar) (v : Text) :
    readEscape (double (· = quoteChar) (double (· = escapeChar) v) ++ quoteChar :: x) =
      some (v, (double (· = quoteChar) (double (· = escapeChar) v)).length + 1) := by
  have hne : escapeChar ≠ quoteChar := by decide
  induction v with
  | nil => exact readEscape_end hx
  | cons c v ih =>
      by_cases hescape : c = escapeChar
      · subst hescape
        rw [double_cons_of_pos (p := (· = escapeChar)) rfl,
          double_cons_of_neg (p := (· = quoteChar)) hne, double_cons_of_neg (p := (· = quoteChar)) hne,
          List.cons_append, List.cons_append, readEscape, if_neg hne, if_pos rfl, if_pos rfl, ih]
        rfl
      · rw [double_cons_of_neg (p := (· = escapeChar)) hescape]
        by_cases hquote : c = quoteChar
        · subst hquote
          rw [double_cons_of_pos (p := (· = quoteChar)) rfl, List.cons_append, List.cons_append,
            readEscape, if_pos rfl, if_pos rfl, ih]
          rfl
        · rw [double_cons_of_neg (p := (· = quoteChar)) hquote, List.cons_append,
            readEscape_cons hquote hescape, ih]
          rfl

/-! ## the constant -/

section Constant
variable {other : Text → Text → Option (Option Text × Nat)} {m : Mode} {x : Text}

/-- A construct that was read is passed over. -/
theorem lexFrom_skip (s x : Text) :
    lexFrom other (.skip s.length) (s ++ x) = lexFrom other .start x := by
  induction s with
  | nil =>
      cases x with
      | nil => rfl
      | cons c x => rfl
  | cons c s ih =>
      have hstep : step (.skip (c :: s).length) c = ([], .skip s.length) := rfl
      rw [List.cons_append, lexFrom_cons_silent hstep (fun _ => Mode.noConfusion), ih]

/-- An escape string constant behind its letter. -/
theorem lexFrom_escape (v : Text) (hx : x.head? ≠ some quoteChar) :
    lexFrom escapeReader (.word ['E']) (quote (double (· = escapeChar) v) ++ x) =
      (lexFrom escapeReader .start x).map (.extra v :: ·) := by
  have hbegin : step (.word ['E']) quoteChar = ([], .special ['E']) := by decide
  have hread : escapeReader ['E'] (quote (double (· = escapeChar) v) ++ x) =
      some (some v, (double (· = quoteChar) (double (· = escapeChar) v) ++ [quoteChar]).length) := by
    have hcontent := readEscape_double hx v
    rw [quote_eq, List.cons_append, List.append_assoc, List.singleton_append, escapeReader,
      if_pos (.inl rfl), List.tail_cons, hcontent, Option.map_some, List.length_append]
    rfl
  rw [quote_eq, List.cons_append] at hread ⊢
  rw [lexFrom, hbegin]
  simp only [hread, lexFrom_skip]
  rfl

/-- **What `PQescapeLiteral` writes** is one constant. -/
theorem lexFrom_pqEscapeLiteral (hm : m.opens = true) (v : Text)
    (hx : ∀ c, (x.dropWhile isSpace).head? = some c → c ≠ quoteChar ∧ c ≠ '-')
    (hhead : x.head? ≠ some quoteChar) :
    lexFrom escapeReader m (pqEscapeLiteral v ++ x) =
      (lexFrom escapeReader .start x).map (pending m ++ constant v :: ·) := by
  rw [pqEscapeLiteral, constant]
  split
  · -- the blank ends what was begun, and the quote behind the word begins the constant
    have hblank : step m ' ' = (pending m, .start) := by
      rw [step_separator hm (.inr (by decide : ' ' ∈ breakChars)),
        show stepStart ' ' = ([], .start) by decide, List.append_nil]
    have hword : step .start 'E' = ([], .word ['E']) := by decide
    rw [List.cons_append, List.cons_append, lexFrom_cons hblank (fun _ => Mode.noConfusion),
      lexFrom_cons_silent hword (fun _ => Mode.noConfusion), lexFrom_escape v hhead, Option.map_map]
    rfl
  · rw [lexFrom_quote hm, lexFrom_closing hx, Option.map_map]
    rfl

end Constant

end SqlLexer
