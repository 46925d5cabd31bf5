import Hpssix.Base.Doubling

/-!
# Base.Csv

Reading the rows of a `COPY … FROM STDIN WITH DELIMITER … CSV QUOTE …` stream:
a quote opens and closes a quoted part anywhere in a field, two quotes in a
quoted part stand for one, and a newline outside of quotes ends the row.  A field
that is empty and has no quotes is NULL.

A server takes the first line end outside of quotes for the line ends of the whole
stream (`newlines`).  The line `\.`, by which some versions end a stream, has no
meaning here.
-/

namespace Csv

open Doubling

/-- Where in a field the reader is: outside of quotes, inside, or behind a quote
that closes the quoted part if no other follows. -/
inductive Mode where
  | plain
  | quoted
  | closing
deriving DecidableEq

/-- The value of a field. -/
def value (field : List Char) (hasQuotes : Bool) : Option (List Char) :=
  if field = [] ∧ hasQuotes = false then none else some field

section Reader
variable (delim quote : Char)

/-- The rows of a stream, after part of a field and some fields of a row are
read. -/
def rowsFrom (mode : Mode) (field : List Char) (hasQuotes : Bool)
    (fields : List (Option (List Char))) : List Char → Option (List (List (Option (List Char))))
  | [] =>
    if mode = .quoted then none
    else if field = [] ∧ hasQuotes = false ∧ fields = [] then some []
    else some [fields ++ [value field hasQuotes]]
  | c :: cs =>
    if mode = .quoted then
      if c = quote then rowsFrom .closing field hasQuotes fields cs
      else rowsFrom .quoted (field ++ [c]) hasQuotes fields cs
    else if c = quote then
      rowsFrom .quoted (if mode = .closing then field ++ [c] else field) true fields cs
    else if c = delim then rowsFrom .plain [] false (fields ++ [value field hasQuotes]) cs
    else if c = '\n' then
      (rowsFrom .plain [] false [] cs).map fun rows => (fields ++ [value field hasQuotes]) :: rows
    else rowsFrom .plain (field ++ [c]) hasQuotes fields cs

/-- The rows of a stream. -/
def rows (stream : List Char) : Option (List (List (Option (List Char)))) :=
  rowsFrom delim quote .plain [] false [] stream

variable {delim quote} {field s t : List Char} {hasQuotes : Bool} {fields : List (Option (List Char))}

/-- Characters without a meaning of their own. -/
theorem rowsFrom_plain (h : ∀ c ∈ s, c ≠ quote ∧ c ≠ delim ∧ c ≠ '\n') :
    rowsFrom delim quote .plain field hasQuotes fields (s ++ t) =
      rowsFrom delim quote .plain (field ++ s) hasQuotes fields t := by
  induction s generalizing field with
  | nil => simp
  | cons c s ih =>
      obtain ⟨hq, hd, hn⟩ := h c List.mem_cons_self
      rw [List.cons_append, rowsFrom, if_neg Mode.noConfusion, if_neg hq, if_neg hd, if_neg hn,
        ih fun d hd => h d (List.mem_cons_of_mem c hd)]
      simp

/-- A plain field, up to the delimiter. -/
theorem rowsFrom_field (h : ∀ c ∈ s, c ≠ quote ∧ c ≠ delim ∧ c ≠ '\n') (hne : s ≠ [])
    (hd : delim ≠ quote) :
    rowsFrom delim quote .plain [] false fields (s ++ delim :: t) =
      rowsFrom delim quote .plain [] false (fields ++ [some s]) t := by
  rw [rowsFrom_plain h, List.nil_append, rowsFrom]
  simp [hd, value, hne]

/-- The inside of quotes is read back. -/
theorem rowsFrom_quoted :
    rowsFrom delim quote .quoted field true fields (double (· = quote) s ++ quote :: t) =
      rowsFrom delim quote .closing (field ++ s) true fields t := by
  induction s generalizing field with
  | nil => simp [rowsFrom]
  | cons c s ih =>
      by_cases hc : c = quote
      · subst hc
        simp only [double_cons, if_true, List.cons_append, List.nil_append]
        rw [rowsFrom, if_pos rfl, if_pos rfl, rowsFrom, if_neg Mode.noConfusion, if_pos rfl,
          if_pos rfl, ih]
        simp
      · simp only [double_cons, hc, if_false, List.cons_append, List.nil_append]
        rw [rowsFrom, if_pos rfl, if_neg hc, ih]
        simp

/-- A field of plain text and a quoted part, at the end of a row. -/
theorem rowsFrom_literal (hs : ∀ c ∈ s, c ≠ quote ∧ c ≠ delim ∧ c ≠ '\n') {u : List Char}
    (hn : '\n' ≠ quote) (hd : '\n' ≠ delim) :
    rowsFrom delim quote .plain [] false fields
        (s ++ quote :: (double (· = quote) u ++ quote :: '\n' :: t)) =
      (rows delim quote t).map fun rows => (fields ++ [some (s ++ u)]) :: rows := by
  rw [rowsFrom_plain hs, List.nil_append, rowsFrom, if_neg Mode.noConfusion, if_pos rfl,
    if_neg Mode.noConfusion, rowsFrom_quoted, rowsFrom, if_neg Mode.noConfusion, if_neg hn,
    if_neg hd, if_pos rfl]
  simp [rows, value]

end Reader

/-! ## line ends -/

/-- What ends the lines of a stream. -/
inductive Newline where
  | nl
  | cr
  | crnl
deriving DecidableEq

/-- The stream with a newline for each line end: the first one outside of quotes settles
which kind there is, and another kind is refused. -/
def newlines (quote : Char) (kind : Option Newline) (quoted : Bool) :
    List Char → Option (List Char)
  | [] => some []
  | c :: cs =>
    if c = quote then (newlines quote kind (!quoted) cs).map (c :: ·)
    else if quoted = true ∨ c ≠ '\n' ∧ c ≠ '\r' then (newlines quote kind quoted cs).map (c :: ·)
    else if c = '\n' then
      if kind = none ∨ kind = some .nl then (newlines quote (some .nl) false cs).map ('\n' :: ·)
      else none
    else
      match cs with
      | '\n' :: cs =>
        if kind = none ∨ kind = some .crnl then (newlines quote (some .crnl) false cs).map ('\n' :: ·)
        else none
      | cs =>
        if kind = none ∨ kind = some .cr then (newlines quote (some .cr) false cs).map ('\n' :: ·)
        else none

section Newlines
variable {quote : Char} {kind : Option Newline} {quoted : Bool} {s t : List Char}

/-- A quote opens or closes. -/
theorem newlines_quote :
    newlines quote kind quoted (quote :: t) = (newlines quote kind (!quoted) t).map (quote :: ·) := by
  rw [newlines.eq_def]
  exact if_pos rfl

/-- A character inside of quotes, or one that ends no line. -/
theorem newlines_char {c : Char} (hq : c ≠ quote) (hc : quoted = true ∨ c ≠ '\n' ∧ c ≠ '\r') :
    newlines quote kind quoted (c :: t) = (newlines quote kind quoted t).map (c :: ·) := by
  rw [newlines.eq_def]
  exact (if_neg hq).trans (if_pos hc)

theorem newlines_newline (hn : '\n' ≠ quote) (hkind : kind = none ∨ kind = some .nl) :
    newlines quote kind false ('\n' :: t) = (newlines quote (some .nl) false t).map ('\n' :: ·) := by
  rw [newlines.eq_def]
  exact (if_neg hn).trans ((if_neg (by simp)).trans ((if_pos rfl).trans (if_pos hkind)))

/-- Characters that are neither quotes nor line ends. -/
theorem newlines_plain (h : ∀ c ∈ s, c ≠ quote ∧ c ≠ '\n' ∧ c ≠ '\r') :
    newlines quote kind quoted (s ++ t) = (newlines quote kind quoted t).map (s ++ ·) := by
  induction s with
  | nil => simp
  | cons c s ih =>
      obtain ⟨hq, hline⟩ := h c List.mem_cons_self
      rw [List.cons_append, newlines_char hq (.inr hline),
        ih fun d hd => h d (List.mem_cons_of_mem c hd), Option.map_map]
      rfl

/-- The inside of quotes stays. -/
theorem newlines_quoted : newlines quote kind true (double (· = quote) s ++ t) =
    (newlines quote kind true t).map (double (· = quote) s ++ ·) := by
  induction s with
  | nil => simp
  | cons c s ih =>
      by_cases hc : c = quote
      · subst hc
        simp only [double_cons, if_true, List.cons_append, List.nil_append]
        rw [newlines_quote, newlines_quote, Bool.not_not, ih]
        simp only [Option.map_map]
        rfl
      · simp only [double_cons, hc, if_false, List.cons_append, List.nil_append]
        rw [newlines_char hc (.inl rfl), ih, Option.map_map]
        rfl

/-- A record of plain text and a quoted part, in a stream of newlines. -/
theorem newlines_literal (hs : ∀ c ∈ s, c ≠ quote ∧ c ≠ '\n' ∧ c ≠ '\r') {u : List Char}
    (hn : '\n' ≠ quote) (hkind : kind = none ∨ kind = some .nl) :
    newlines quote kind false (s ++ quote :: (double (· = quote) u ++ quote :: '\n' :: t)) =
      (newlines quote (some .nl) false t).map fun t =>
        s ++ quote :: (double (· = quote) u ++ quote :: '\n' :: t) := by
  rw [newlines_plain hs, newlines_quote, Bool.not_false, newlines_quoted, newlines_quote,
    Bool.not_true, newlines_newline hn hkind]
  simp only [Option.map_map]
  rfl

end Newlines

end Csv
