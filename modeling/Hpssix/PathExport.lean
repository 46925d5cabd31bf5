import Hpssix.Base.Csv
import Hpssix.CopyStream
import Hpssix.Schema

/-!
# Hpssix.PathExport

The path export on its way into the database: `sql_path` of
`hpssix-db2-scan.sh.in` writes the file, `hpssix_builder_process_path` hands it to
`hpssix_db_copy`, and the server reads what it is sent as CSV.

A path may hold newlines, and a record with one is read in pieces.  A piece that
looks like an empty line or a comment is left out, so that the server can get
other paths than the scan has written, or another number of them.

* `copyPath_of_whole` — where no piece is left out, the server reads the lines of
  the export;
* `pathsWhole_of_fits` — so it is where no path has a newline and each record fits
  the buffer;
* `sentText_pathJob` — what the server reads is what `hpssix_db_copy` sends.
-/

namespace Hpssix

open CText Doubling Rel

/-! ## the export -/

/-- The double quote. -/
def delQuote : Char := Char.ofNat 34

/-- What stands before the text in a record of an object. -/
def delHead (o : Oid) : Text := decimal o.val ++ [',', delQuote]

/-- A record of `sql_path` in the DEL format, which doubles the quotes. -/
def pathRecord (line : Oid × Text) : Text :=
  delHead line.1 ++ double (· = delQuote) line.2 ++ [delQuote, '\n']

/-- The file that `sql_path` writes. -/
def exportPath (path : List (Oid × Text)) : Text := path.flatMap pathRecord

/-! ## the copy -/

/-- What is sent of the export. -/
def sentPath (path : List (Oid × Text)) : Text := (copyRecords (exportPath path)).flatten

/-- A copy of the export whose calls all succeed sends this. -/
theorem sentText_pathJob (scannerOutput : Text) {replies : CopyReplies} {path : List (Oid × Text)}
    (hok : replies.Ok (exportPath path)) :
    sentText (hpssixDbCopyCalls (pathJob scannerOutput) replies).calls = sentPath path :=
  sentText_hpssixDbCopyCalls hok rfl rfl rfl

/-! ## what the server reads -/

/-- A `BIGINT` as `COPY` reads it, between blanks and with a sign, in decimal; newer
servers also take other bases and underscores.  A negative number is refused here
already: it is no object's id, so that the statement behind fails on it. -/
def bigintIn (s : Text) : Option Oid :=
  let s := s.dropWhile isSpace
  let digits := if s.head? = some '+' ∨ s.head? = some '-' then s.tail else s
  if digits.takeWhile Char.isDigit = [] ∨ ¬ (digits.dropWhile Char.isDigit).all isSpace then none
  else if s.head? = some '-' ∧ digitsVal 10 (digits.takeWhile Char.isDigit) ≠ 0 then none
  else int8 (digitsVal 10 (digits.takeWhile Char.isDigit))

/-- A row of `__file`.  A NULL is refused by `hpssix_file` only, in the next statement. -/
def filePathRow : List (Option Text) → Option (Oid × Text)
  | [some oid, some path] => (bigintIn oid).map fun o => (o, path)
  | _ => none

/-- `COPY __file`: the rows that the server reads of what is sent. -/
def copyPath (path : List (Oid × Text)) : Option (List (Oid × Text)) := do
  let stream ← Csv.newlines delQuote none false (sentPath path)
  let rows ← Csv.rows ',' delQuote stream
  rows.mapM filePathRow

/-! ## exports that get through -/

/-- The whole export is sent: no name has a NUL, and no piece that is read looks like an
empty line. -/
def PathsWhole (path : List (Oid × Text)) : Prop :=
  Char.ofNat 0 ∉ exportPath path ∧ ∀ p ∈ fgets (lineMax - 1) (exportPath path), isLineEmpty p = false

instance (path : List (Oid × Text)) : Decidable (PathsWhole path) :=
  inferInstanceAs (Decidable (_ ∧ _))

section Whole
variable {path : List (Oid × Text)} {o : Oid}

/-- A number begins with a digit. -/
theorem exists_decimal_eq_cons (n : Nat) : ∃ c cs, decimal n = c :: cs ∧ c.isDigit = true := by
  obtain ⟨c, cs, hcs⟩ := List.exists_cons_of_ne_nil (Nat.toDigits_ne_nil (b := 10) (n := n))
  exact ⟨c, cs, hcs, isDigit_of_mem_decimal (n := n) (by rw [decimal, hcs]; exact List.mem_cons_self)⟩

theorem bigintIn_decimal (o : Oid) : bigintIn (decimal o.val) = some o := by
  have hdigit : ∀ c ∈ decimal o.val, c.isDigit = true := fun c => isDigit_of_mem_decimal
  obtain ⟨c, cs, hcs, hc⟩ := exists_decimal_eq_cons o.val
  have hspace : (decimal o.val).dropWhile isSpace = decimal o.val := by
    rw [hcs, List.dropWhile_cons_of_neg (by simp [not_isSpace_of_isDigit hc])]
  have hsign : ∀ x : Char, x.isDigit = false → (decimal o.val).head? ≠ some x := fun x hx h => by
    have hmem : x ∈ decimal o.val := List.mem_of_mem_head? h
    simp [hdigit x hmem] at hx
  have hrun : (decimal o.val).takeWhile Char.isDigit = decimal o.val :=
    List.takeWhile_eq_self_iff.mpr hdigit
  have hrest : (decimal o.val).dropWhile Char.isDigit = [] := List.dropWhile_eq_nil_iff.mpr hdigit
  have hne : decimal o.val ≠ [] := Nat.toDigits_ne_nil
  simp only [bigintIn, hspace, hsign '+' (by decide), hsign '-' (by decide), or_self, if_false, hrun,
    hrest, hne, List.all_nil, not_true, false_and, digitsVal_decimal, int8_val]

/-- The characters in front of the quote have no meaning of their own. -/
theorem digits_comma {c : Char} (hc : c ∈ decimal o.val ++ [',']) :
    c ≠ delQuote ∧ c ≠ '\n' ∧ c ≠ '\r' := by
  obtain hc | hc := List.mem_append.mp hc
  · have hdigit := isDigit_of_mem_decimal hc
    refine ⟨?_, ?_, ?_⟩ <;> (rintro rfl; revert hdigit; decide)
  · obtain rfl := List.mem_singleton.mp hc
    decide

/-- The line ends of the export are newlines. -/
theorem newlines_exportPath (path : List (Oid × Text)) {kind : Option Csv.Newline}
    (hkind : kind = none ∨ kind = some .nl) :
    Csv.newlines delQuote kind false (exportPath path) = some (exportPath path) := by
  induction path generalizing kind with
  | nil => rfl
  | cons line path ih =>
      have hrecord : exportPath (line :: path) = (decimal line.1.val ++ [',']) ++
          delQuote :: (double (· = delQuote) line.2 ++ delQuote :: '\n' :: exportPath path) := by
        simp [exportPath, pathRecord, delHead]
      rw [hrecord, Csv.newlines_literal (fun c => digits_comma) (by decide) hkind, ih (.inr rfl),
        Option.map_some]

/-- The rows of the export are its lines. -/
theorem rows_exportPath (path : List (Oid × Text)) :
    Csv.rows ',' delQuote (exportPath path) =
      some (path.map fun line => [some (decimal line.1.val), some line.2]) := by
  induction path with
  | nil => rfl
  | cons line path ih =>
      have hrecord : exportPath (line :: path) = decimal line.1.val ++ ',' :: ([] ++
          delQuote :: (double (· = delQuote) line.2 ++ delQuote :: '\n' :: exportPath path)) := by
        simp [exportPath, pathRecord, delHead]
      have hplain : ∀ c ∈ decimal line.1.val, c ≠ delQuote ∧ c ≠ ',' ∧ c ≠ '\n' := fun c hc => by
        have hother := digits_comma (List.mem_append_left [','] hc)
        exact ⟨hother.1, fun h => not_mem_decimal _ (by decide) (h ▸ hc), hother.2.1⟩
      rw [hrecord, Csv.rows, Csv.rowsFrom_field hplain Nat.toDigits_ne_nil (by decide),
        Csv.rowsFrom_literal (fun c hc => absurd hc List.not_mem_nil) (by decide) (by decide), ih]
      rfl

/-- An export without pieces that look empty is sent as it is. -/
theorem sentPath_of_whole (h : PathsWhole path) : sentPath path = exportPath path := by
  obtain ⟨hnul, hkept⟩ := h
  have hpieces : (fgets (lineMax - 1) (exportPath path)).map cString =
      fgets (lineMax - 1) (exportPath path) :=
    (List.map_congr_left fun p hp => cString_of_mem_fgets hnul hp).trans (List.map_id _)
  rw [sentPath, copyRecords, hpieces, List.filter_eq_self.mpr fun p hp => by simp [hkept p hp], fgets,
    flatten_fgetsFrom, List.nil_append]

/-- **The server reads the export**, if no piece of it is left out. -/
theorem copyPath_of_whole (h : PathsWhole path) : copyPath path = some path := by
  have hread : (path.map fun line => [some (decimal line.1.val), some line.2]).mapM filePathRow =
      some path := by
    rw [mapM_eq_some, List.map_map]
    exact List.map_congr_left fun line _ => by simp [filePathRow, bigintIn_decimal]
  simp only [copyPath, sentPath_of_whole h, newlines_exportPath path (.inl rfl), rows_exportPath,
    Option.bind_eq_bind, Option.bind_some, hread]

/-- Paths without newlines, in records that fit the buffer, get through. -/
theorem pathsWhole_of_fits (h : ∀ line ∈ path, '\n' ∉ line.2 ∧ Char.ofNat 0 ∉ line.2 ∧
    (pathRecord line).length ≤ lineMax - 2) : PathsWhole path := by
  have hrecord : ∀ line : Oid × Text, pathRecord line =
      (delHead line.1 ++ double (· = delQuote) line.2 ++ [delQuote]) ++ ['\n'] := fun line => by
    simp [pathRecord]
  have hmem : ∀ c : Char, c.isDigit = false → c ≠ ',' → c ≠ delQuote → ∀ line : Oid × Text,
      c ∉ line.2 → c ∉ delHead line.1 ++ double (· = delQuote) line.2 ++ [delQuote] := by
    intro c hdigit hcomma hquote line hc
    simp [delHead, not_mem_decimal _ hdigit, hcomma, hquote, hc]
  have hpieces : Pieces (lineMax - 2) (path.map pathRecord) := by
    refine ⟨List.forall_mem_map.mpr fun line hl => ⟨?_, ?_, (h line hl).2.2⟩, ?_⟩
    · simp [hrecord]
    · rw [hrecord, List.dropLast_concat]
      exact hmem _ (by decide) (by decide) (by decide) line (h line hl).1
    · refine List.pairwise_map.mpr (List.pairwise_of_forall fun line _ => .inl ?_)
      rw [hrecord, List.getLast?_concat]
  have hread : fgets (lineMax - 1) (exportPath path) = path.map pathRecord := by
    rw [exportPath, List.flatMap_def]
    exact hpieces.fgets_flatten
  refine ⟨fun hnul => ?_, ?_⟩
  · obtain ⟨line, hl, hnul⟩ := List.mem_flatMap.mp hnul
    rw [hrecord, List.mem_append] at hnul
    obtain hnul | hnul := hnul
    · exact hmem _ (by decide) (by decide) (by decide) line (h line hl).2.1 hnul
    · exact absurd hnul (by decide)
  · rw [hread]
    refine List.forall_mem_map.mpr fun line _ => ?_
    obtain ⟨c, cs, hcs, hdigit⟩ := exists_decimal_eq_cons line.1.val
    have hne : c ≠ '#' := by
      rintro rfl
      exact absurd hdigit (by decide)
    simp [pathRecord, delHead, hcs, isLineEmpty, hne, not_isSpace_of_isDigit hdigit]

end Whole

end Hpssix
