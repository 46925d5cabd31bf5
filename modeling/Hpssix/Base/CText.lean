import Mathlib.Algebra.GroupWithZero.Nat
import Mathlib.Data.List.TakeWhile
import Mathlib.Tactic.Ring

/-!
# Base.CText

C character strings as lists of characters: the bytes before the
terminating NUL, in order.  The module gives the handful of `<string.h>`
and `<stdlib.h>` functions that programs use to read numbers out of text
lines, and the one read-back fact such programs rely on: the decimal
digits that `%lu` prints are read back by `strtoull` as the same number.
-/

namespace CText

/-- A C string: its bytes up to, and not including, the terminating NUL. -/
abbrev Text := List Char

/-- A literal is the list of its characters. -/
theorem of_literal {p : Text → Prop} {s : List Char} (h : p s) : p (String.ofList s).toList := by
  rw [String.toList_ofList]
  exact h

/-! ## character classes -/

/-- `isspace` in the C locale. -/
def isSpace (c : Char) : Bool :=
  c = ' ' || (9 ≤ c.toNat && c.toNat ≤ 13)

/-- The value of a digit of a base up to 16, if the character is one. -/
def digitVal (c : Char) : Option Nat :=
  if c.isDigit then some (c.toNat - '0'.toNat)
  else if 'a' ≤ c && c ≤ 'f' then some (c.toNat - 'a'.toNat + 10)
  else if 'A' ≤ c && c ≤ 'F' then some (c.toNat - 'A'.toNat + 10)
  else none

/-- Whether the character is a digit of base `b`. -/
def isDigitOf (b : Nat) (c : Char) : Bool :=
  match digitVal c with
  | some d => d < b
  | none => false

/-! ## searching -/

/-- `strrchr(s, c)`: the suffix that starts at the last `c`, if there is one. -/
def strrchr (c : Char) : Text → Option Text
  | [] => none
  | x :: xs => match strrchr c xs with
    | some t => some t
    | none => if x = c then some (x :: xs) else none

/-- `strncmp(s, key, strlen(key)) == 0`. -/
def hasPrefix (key s : Text) : Bool := key.isPrefixOf s

/-- A character that is not in the text is not found. -/
theorem strrchr_eq_none {c : Char} {s : Text} (h : c ∉ s) : strrchr c s = none := by
  induction s with
  | nil => rfl
  | cons x xs ih =>
      rw [List.mem_cons, not_or] at h
      simp [strrchr, ih h.2, Ne.symm h.1]

/-- A character that is in the text is found. -/
theorem isSome_strrchr {c : Char} {s : Text} (h : c ∈ s) : (strrchr c s).isSome := by
  induction s with
  | nil => contradiction
  | cons x xs ih =>
      rw [strrchr]
      cases hxs : strrchr c xs with
      | some t => rfl
      | none =>
          obtain rfl | hmem := List.mem_cons.mp h
          · simp
          · simp [hxs] at ih
            contradiction

/-- The last `c` is the one that no other `c` follows. -/
theorem strrchr_append {c : Char} {s : Text} (h : c ∉ s) (t : Text) :
    strrchr c (t ++ c :: s) = some (c :: s) := by
  induction t with
  | nil => simp [strrchr, strrchr_eq_none h]
  | cons x xs ih => simp [strrchr, ih]

/-- What is found is the last one, with what follows. -/
theorem strrchr_eq_some_iff {c : Char} {s t : Text} :
    strrchr c s = some t ↔ ∃ pre post, s = pre ++ c :: post ∧ c ∉ post ∧ t = c :: post := by
  constructor
  · induction s generalizing t with
    | nil => simp [strrchr]
    | cons x xs ih =>
        intro h
        rw [strrchr] at h
        cases hxs : strrchr c xs with
        | some u =>
            rw [hxs] at h
            obtain ⟨pre, post, rfl, hc, hu⟩ := ih hxs
            exact ⟨x :: pre, post, rfl, hc, hu ▸ (Option.some.inj h).symm⟩
        | none =>
            have hc : c ∉ xs := fun hmem => by simpa [hxs] using isSome_strrchr hmem
            by_cases hx : x = c
            · simp only [hxs, hx, if_true, Option.some.injEq] at h
              exact ⟨[], xs, by rw [hx]; rfl, hc, h.symm⟩
            · simp [hxs, hx] at h
  · rintro ⟨pre, post, rfl, hc, rfl⟩
    exact strrchr_append hc pre

/-- `strstr(s, key)`: the suffix that starts at the first `key`, if there is one. -/
def strstr (key : Text) : Text → Option Text
  | [] => if key = [] then some [] else none
  | c :: cs => if key.isPrefixOf (c :: cs) then some (c :: cs) else strstr key cs

/-- The key is found where its first character comes first. -/
theorem strstr_append {k : Char} {key pre : Text} (h : k ∉ pre) (t : Text) :
    strstr (k :: key) (pre ++ k :: key ++ t) = some (k :: key ++ t) := by
  induction pre with
  | nil =>
      rw [List.nil_append, List.cons_append, strstr, if_pos]
      rw [List.isPrefixOf_iff_prefix]
      exact ⟨t, rfl⟩
  | cons c pre ih =>
      rw [List.mem_cons, not_or] at h
      rw [List.cons_append, List.cons_append, strstr, if_neg (by simp [h.1]), ih h.2]

/-- A text is found exactly if it is a part. -/
theorem isSome_strstr {key s : Text} : (strstr key s).isSome ↔ key <:+: s := by
  induction s with
  | nil =>
      rw [strstr, List.infix_nil]
      split <;> simp [*]
  | cons c s ih =>
      rw [strstr, List.infix_cons_iff, ← ih, ← List.isPrefixOf_iff_prefix]
      split <;> simp [*]

/-! ## fgets -/

/-- The string in a buffer: a NUL that was read ends it. -/
def cString (s : Text) : Text := s.takeWhile fun c => c ≠ Char.ofNat 0

/-- A string without a NUL is all there is in the buffer. -/
theorem cString_eq_self {s : Text} (h : Char.ofNat 0 ∉ s) : cString s = s := by
  refine List.takeWhile_eq_self_iff.mpr fun c hc => decide_eq_true ?_
  rintro rfl
  exact h hc

/-- The pieces that `fgets` goes on to read when it has read `acc` and has room
for `left` characters more. -/
def fgetsFrom (room : Nat) : Text → Nat → Text → List Text
  | acc, _, [] => if acc = [] then [] else [acc]
  | acc, left, c :: cs =>
    if c = '\n' ∨ left ≤ 1 then (acc ++ [c]) :: fgetsFrom room [] room cs
    else fgetsFrom room (acc ++ [c]) (left - 1) cs

/-- `LINE_MAX`, the size of a line buffer. -/
def lineMax : Nat := 2048

/-- What the calls `fgets(buf, size, fp)` read from a file: a piece ends with its
newline, or when the buffer is full. -/
def fgets (size : Nat) (file : Text) : List Text := fgetsFrom (size - 1) [] (size - 1) file

/-- `fgets` begins a piece anew behind a newline. -/
theorem fgetsFrom_append (room : Nat) (acc : Text) (left : Nat) (s t : Text) :
    fgetsFrom room acc left (s ++ '\n' :: t) =
      fgetsFrom room acc left (s ++ ['\n']) ++ fgetsFrom room [] room t := by
  induction s generalizing acc left with
  | nil => simp [fgetsFrom]
  | cons c s ih =>
      simp only [List.cons_append, fgetsFrom, ih]
      split <;> rfl

/-- The pieces are the file. -/
theorem flatten_fgetsFrom (room : Nat) (acc : Text) (left : Nat) (s : Text) :
    (fgetsFrom room acc left s).flatten = acc ++ s := by
  induction s generalizing acc left with
  | nil =>
      rw [fgetsFrom]
      split <;> simp [*]
  | cons c s ih =>
      rw [fgetsFrom]
      split <;> simp [ih]

/-- A line that fits is one piece. -/
theorem fgetsFrom_line (room : Nat) (acc : Text) {left : Nat} {l : Text} (hl : '\n' ∉ l)
    (hlen : l.length < left) : fgetsFrom room acc left (l ++ ['\n']) = [acc ++ l ++ ['\n']] := by
  induction l generalizing acc left with
  | nil => simp [fgetsFrom]
  | cons c l ih =>
      rw [List.mem_cons, not_or] at hl
      rw [List.length_cons] at hlen
      rw [List.cons_append, fgetsFrom, if_neg (by simp [Ne.symm hl.1]; omega), ih _ hl.2 (by omega)]
      simp

/-- The pieces of a file of lines that fit are its lines. -/
theorem fgets_lines {size : Nat} {ls : List Text}
    (h : ∀ l ∈ ls, '\n' ∉ l ∧ l.length + 1 < size) :
    fgets size (ls.flatMap (· ++ ['\n'])) = ls.map (· ++ ['\n']) := by
  rw [fgets]
  induction ls with
  | nil => rfl
  | cons l ls ih =>
      obtain ⟨hl, hlen⟩ := h l List.mem_cons_self
      rw [List.flatMap_cons, List.append_assoc, List.singleton_append, fgetsFrom_append,
        fgetsFrom_line _ _ hl (by omega), ih fun l' hl' => h l' (List.mem_cons_of_mem l hl')]
      rfl

/-- The first piece: it has a newline only at its end, and ends because of it, or
because the buffer is full or the file read. -/
theorem fgetsFrom_cons (room : Nat) (acc : Text) {left : Nat} (hleft : 0 < left) {s : Text}
    (hs : s ≠ []) :
    ∃ p rest, fgetsFrom room acc left s = (acc ++ p) :: fgetsFrom room [] room rest ∧
      s = p ++ rest ∧ p ≠ [] ∧ p.length ≤ left ∧ '\n' ∉ p.dropLast ∧
      (rest = [] ∨ p.getLast? = some '\n' ∨ p.length = left) := by
  induction s generalizing acc left with
  | nil => exact absurd rfl hs
  | cons c s ih =>
      rw [fgetsFrom]
      split
      · next h =>
          refine ⟨[c], s, rfl, rfl, by simp, hleft, by simp, .inr ?_⟩
          obtain rfl | h := h
          · exact .inl rfl
          · exact .inr (Nat.le_antisymm hleft h)
      · next h =>
          rw [not_or] at h
          by_cases hnil : s = []
          · subst hnil
            exact ⟨[c], [], by simp [fgetsFrom], rfl, by simp, hleft, by simp, .inl rfl⟩
          · obtain ⟨p, rest, hp, rfl, hne, hlen, hnl, hend⟩ :=
              ih (acc ++ [c]) (show 0 < left - 1 by omega) hnil
            refine ⟨c :: p, rest, by simpa using hp, rfl, by simp, by simp; omega, ?_, ?_⟩
            · rw [List.dropLast_cons_of_ne_nil hne, List.mem_cons, not_or]
              exact ⟨fun hc => h.1 hc.symm, hnl⟩
            · rw [List.getLast?_cons_of_ne_nil hne]
              refine hend.imp_right (.imp_right fun hfull => ?_)
              rw [List.length_cons, hfull]
              omega

/-- The lines of a file, without their newlines. -/
def lines (file : Text) : List Text := file.splitOn '\n'

/-- A newline begins a line, and any other character belongs to the first one. -/
theorem lines_cons (c : Char) (cs : Text) :
    ∃ l ls, lines cs = l :: ls ∧
      lines (c :: cs) = if c = '\n' then [] :: l :: ls else (c :: l) :: ls := by
  obtain ⟨l, ls, hl⟩ := List.exists_cons_of_ne_nil (List.splitOn_ne_nil '\n' cs)
  refine ⟨l, ls, hl, ?_⟩
  rw [lines, List.splitOn_cons_eq_if_modifyHead, hl]
  by_cases hc : c = '\n' <;> simp [hc]

/-- The current line continues in the piece that is being read, and every later
line begins a piece. -/
theorem fgetsFrom_lines (room : Nat) (acc : Text) (left : Nat) (hleft : 0 < left) (file : Text)
    {l : Text} {ls : List Text} (hl : lines file = l :: ls) (hroom : 0 < room) :
    (acc ++ l ≠ [] → ∃ piece ∈ fgetsFrom room acc left file,
      acc ++ l.take left <+: piece ∧ piece <+: acc ++ l ++ ['\n']) ∧
      ∀ l' ∈ ls, l' ≠ [] → ∃ piece ∈ fgetsFrom room acc left file,
        l'.take room <+: piece ∧ piece <+: l' ++ ['\n'] := by
  induction file generalizing acc left l ls with
  | nil =>
      obtain ⟨rfl, rfl⟩ : l = [] ∧ ls = [] := by simpa [lines, eq_comm] using hl
      refine ⟨fun hne => ?_, fun l' hl' => absurd hl' List.not_mem_nil⟩
      rw [List.append_nil] at hne
      exact ⟨acc, by simp [fgetsFrom, hne], by simp, by simp⟩
  | cons c cs ih =>
      obtain ⟨k, ks, hk, hcons⟩ := lines_cons c cs
      rw [hl] at hcons
      obtain ⟨hfirst, hlater⟩ := ih [] room hroom hk
      rw [fgetsFrom]
      by_cases hc : c = '\n'
      · -- the piece ends with its line
        obtain ⟨rfl, rfl⟩ : l = [] ∧ ls = k :: ks := by simpa [hc] using hcons
        rw [if_pos (.inl hc), hc]
        refine ⟨fun _ => ⟨_, List.mem_cons_self, by simp, by simp⟩, fun l' hl' hne => ?_⟩
        obtain rfl | hl' := List.mem_cons.mp hl'
        · obtain ⟨piece, hp, h⟩ := hfirst (by simpa using hne)
          exact ⟨piece, List.mem_cons_of_mem _ hp, by simpa using h⟩
        · obtain ⟨piece, hp, h⟩ := hlater l' hl' hne
          exact ⟨piece, List.mem_cons_of_mem _ hp, h⟩
      · obtain ⟨rfl, rfl⟩ : l = c :: k ∧ ls = ks := by simpa [hc] using hcons
        by_cases hfull : left ≤ 1
        · -- the buffer is full
          obtain rfl : left = 1 := by omega
          rw [if_pos (.inr hfull)]
          refine ⟨fun _ => ⟨_, List.mem_cons_self, by simp, by simp⟩, fun l' hl' hne => ?_⟩
          obtain ⟨piece, hp, h⟩ := hlater l' hl' hne
          exact ⟨piece, List.mem_cons_of_mem _ hp, h⟩
        · rw [if_neg (by simp [hc, hfull])]
          obtain ⟨hcur, hrest⟩ := ih (acc ++ [c]) (left - 1) (by omega) hk
          refine ⟨fun _ => ?_, hrest⟩
          obtain ⟨piece, hp, hpre, hpost⟩ := hcur (by simp)
          obtain ⟨n, rfl⟩ : ∃ n, left = n + 1 := ⟨left - 1, by omega⟩
          exact ⟨piece, hp, by simpa using hpre, by simpa using hpost⟩

/-! ## strtoull -/

/-- The number a run of base-`b` digits denotes. -/
def digitsVal (b : Nat) (ds : Text) : Nat :=
  ds.foldl (fun acc c => b * acc + (digitVal c).getD 0) 0

/-- The largest value of an `unsigned long long`. -/
def ullongMax : Nat := 2 ^ 64 - 1

/-- The number that `strtoull(s, NULL, 0)` finds after white space and sign, of any
size: the base comes from the prefix, and the longest run of digits is read. -/
def strtoullDigits (s : Text) : Nat :=
  let base (b : Nat) (t : Text) := digitsVal b (t.takeWhile (isDigitOf b))
  match s with
  | '0' :: x :: d :: t =>
      if (x = 'x' || x = 'X') && isDigitOf 16 d then base 16 (d :: t) else base 8 s
  | '0' :: _ => base 8 s
  | _ => base 10 s

/-- `strtoull(s, NULL, 0)`: a number that does not fit becomes `ULLONG_MAX`, a leading
minus negates one that does modulo `2 ^ 64`, and a string without digits reads as zero. -/
def strtoull (s : Text) : Nat :=
  match s.dropWhile isSpace with
  | '+' :: t => min ullongMax (strtoullDigits t)
  | '-' :: t =>
      if ullongMax < strtoullDigits t then ullongMax else (2 ^ 64 - strtoullDigits t) % 2 ^ 64
  | t => min ullongMax (strtoullDigits t)

/-- Where `strtoull(s, &endptr, 0)` leaves `endptr`. -/
def strtoullEnd (s : Text) : Text :=
  let digits (t : Text) : Text :=
    match t with
    | '0' :: x :: d :: u =>
        if (x = 'x' || x = 'X') && isDigitOf 16 d then (d :: u).dropWhile (isDigitOf 16)
        else t.dropWhile (isDigitOf 8)
    | '0' :: _ => t.dropWhile (isDigitOf 8)
    | c :: _ => if isDigitOf 10 c then t.dropWhile (isDigitOf 10) else s
    | [] => s
  match s.dropWhile isSpace with
  | '+' :: t => digits t
  | '-' :: t => digits t
  | t => digits t

/-! ## numbers of any size -/

/-- A run of digits of base `b`, with what follows it. -/
def digitRun (b : Nat) (s : Text) : Option (Nat × Text) :=
  if s.takeWhile (isDigitOf b) = [] then none
  else some (digitsVal b (s.takeWhile (isDigitOf b)), s.dropWhile (isDigitOf b))

/-- A number without a sign, of any size, with what follows it: the base comes from
the prefix. -/
def unsignedNumber (s : Text) : Option (Nat × Text) :=
  match s with
  | '0' :: x :: d :: t =>
      if (x = 'x' || x = 'X') && isDigitOf 16 d then digitRun 16 (d :: t) else digitRun 8 s
  | '0' :: _ => digitRun 8 s
  | _ => digitRun 10 s

/-- A number as C writes it, behind white space. -/
def number (s : Text) : Option (Int × Text) :=
  match s.dropWhile isSpace with
  | '+' :: t => (unsignedNumber t).map fun p => (p.1, p.2)
  | '-' :: t => (unsignedNumber t).map fun p => (-p.1, p.2)
  | t => (unsignedNumber t).map fun p => (p.1, p.2)

/-- A run of digits is the value of the leading digits, with what follows. -/
theorem digitRun_eq_some {b n : Nat} {s rest : Text} (h : digitRun b s = some (n, rest)) :
    s.takeWhile (isDigitOf b) ≠ [] ∧ digitsVal b (s.takeWhile (isDigitOf b)) = n ∧
      s.dropWhile (isDigitOf b) = rest := by
  unfold digitRun at h
  split at h
  · contradiction
  · next hne =>
      rw [Option.some.injEq, Prod.mk.injEq] at h
      exact ⟨hne, h⟩

/-- A number that is read at all is what `strtoull` reads. -/
theorem strtoullDigits_unsignedNumber {s rest : Text} {n : Nat}
    (h : unsignedNumber s = some (n, rest)) : strtoullDigits s = n := by
  unfold unsignedNumber at h
  unfold strtoullDigits
  split at h
  · split at h
    · next hhex =>
        simp only [hhex, if_true, (digitRun_eq_some h).2.1]
    · next hhex =>
        simp only [hhex, Bool.false_eq_true, if_false, (digitRun_eq_some h).2.1]
  · next hshort => 
      simp only [(digitRun_eq_some h).2.1]
  · simp only [(digitRun_eq_some h).2.1]

/-- Where the digits of a number end, for `strtoullEnd s`. -/
theorem end_unsignedNumber {s t rest : Text} {n : Nat} : unsignedNumber t = some (n, rest) →
    (match t with
      | '0' :: x :: d :: u =>
          if (x = 'x' || x = 'X') && isDigitOf 16 d then (d :: u).dropWhile (isDigitOf 16)
          else t.dropWhile (isDigitOf 8)
      | '0' :: _ => t.dropWhile (isDigitOf 8)
      | c :: _ => if isDigitOf 10 c then t.dropWhile (isDigitOf 10) else s
      | [] => s) = rest := by
  intro h
  split
  · simp only [unsignedNumber] at h
    split at h
    · next hhex =>
        rw [if_pos hhex]
        exact (digitRun_eq_some h).2.2
    · next hhex =>
        rw [if_neg hhex]
        exact (digitRun_eq_some h).2.2
  · next hshort =>
      rw [unsignedNumber] at h
      · exact (digitRun_eq_some h).2.2
      · exact hshort
  · next c u hhex hzero =>
      rw [unsignedNumber] at h
      · obtain ⟨hne, -, hrest⟩ := digitRun_eq_some h
        rw [List.takeWhile_cons] at hne
        split at hne
        · next hc =>
            rw [if_pos hc]
            exact hrest
        · contradiction
      · rintro x d v heq
        injection heq with hc hu
        exact hhex x d v hc hu
      · rintro v heq
        injection heq with hc
        exact hzero hc
  · contradiction

/-- **A number** that fits is read as it is. -/
theorem strtoull_number {s rest : Text} {n : Nat} (h : number s = some ((n : Int), rest))
    (hn : n < 2 ^ 64) : strtoull s = n ∧ strtoullEnd s = rest := by
  have hvalue : ∀ {t : Text} {m : Nat}, unsignedNumber t = some (m, rest) → m < 2 ^ 64 →
      min ullongMax (strtoullDigits t) = m := by
    intro t m ht hm
    rw [strtoullDigits_unsignedNumber ht, ullongMax]
    omega
  unfold number at h
  split at h
  · next t hs =>
      obtain ⟨⟨m, r⟩, hm, heq⟩ := Option.map_eq_some_iff.mp h
      obtain ⟨hmn, rfl⟩ := Prod.mk.inj heq
      obtain rfl : m = n := by exact_mod_cast hmn
      simp only [strtoull, strtoullEnd, hs]
      exact ⟨hvalue hm hn, end_unsignedNumber hm⟩
  · next t hs =>
      obtain ⟨⟨m, r⟩, hm, heq⟩ := Option.map_eq_some_iff.mp h
      obtain ⟨hmn, rfl⟩ := Prod.mk.inj heq
      obtain ⟨rfl, rfl⟩ : m = 0 ∧ n = 0 := by
        simp only at hmn
        omega
      simp only [strtoull, strtoullEnd, hs]
      exact ⟨by rw [strtoullDigits_unsignedNumber hm]; rfl, end_unsignedNumber hm⟩
  · next t hplus hminus =>
      obtain ⟨⟨m, r⟩, hm, heq⟩ := Option.map_eq_some_iff.mp h
      obtain ⟨hmn, rfl⟩ := Prod.mk.inj heq
      obtain rfl : m = n := by exact_mod_cast hmn
      unfold strtoull strtoullEnd
      generalize s.dropWhile isSpace = t at *
      split
      · exact absurd rfl (hplus _)
      · exact absurd rfl (hminus _)
      · refine ⟨hvalue hm hn, ?_⟩
        exact end_unsignedNumber hm

/-- The result of `strtoull` has 64 bits. -/
theorem strtoull_lt (s : Text) : strtoull s < 2 ^ 64 := by
  unfold strtoull
  split
  · rw [ullongMax]
    omega
  · split
    · decide
    · exact Nat.mod_lt _ (by decide)
  · rw [ullongMax]
    omega

/-! ## decimal text -/

/-- What `%lu` prints. -/
def decimal (n : Nat) : Text := Nat.toDigits 10 n

/-- A decimal number consists of digits. -/
theorem isDigit_of_mem_decimal {c : Char} {n : Nat} (h : c ∈ decimal n) : c.isDigit = true :=
  Nat.isDigit_of_mem_toDigits (by decide) (by decide) h

/-- It has no other character. -/
theorem not_mem_decimal {c : Char} (n : Nat) (h : c.isDigit = false) : c ∉ decimal n := by
  intro hc
  rw [isDigit_of_mem_decimal hc] at h
  contradiction

/-- A positive number is printed without leading zeros. -/
theorem head?_decimal_ne_zero {n : Nat} (h : 0 < n) : (decimal n).head? ≠ some '0' := by
  induction n using Nat.strongRecOn with
  | ind n ih =>
      rw [decimal, Nat.toDigits_eq_if (by decide)]
      split
      · next hlt =>
          have hd : Nat.digitChar n ≠ '0' := by
            intro he
            have := Nat.toNat_digitChar_of_lt_ten hlt
            rw [he] at this
            simp at this
            omega
          simpa using hd
      · next hge =>
          have hq : (decimal (n / 10)).head? ≠ some '0' := ih (n / 10) (by omega) (by omega)
          cases hs : decimal (n / 10) with
          | nil => exact absurd hs Nat.toDigits_ne_nil
          | cons d ds =>
              rw [hs] at hq
              rw [← decimal, hs]
              exact hq

theorem digitVal_of_isDigit {c : Char} (h : c.isDigit = true) :
    digitVal c = some (c.toNat - '0'.toNat) := by
  simp [digitVal, h]

theorem isDigitOf_ten {c : Char} : isDigitOf 10 c = c.isDigit := by
  by_cases h : c.isDigit = true
  · have hle : c.toNat ≤ 57 := by
      simp only [Char.isDigit, Bool.and_eq_true, decide_eq_true_eq] at h
      exact h.2
    simp only [isDigitOf, digitVal_of_isDigit h, h, decide_eq_true_eq]
    simp
    omega
  · simp only [isDigitOf, digitVal, h, Bool.false_eq_true, if_false]
    split
    · next d hd => split at hd <;> (try split at hd) <;> simp_all <;> omega
    · rfl

/-- On decimal digits the general reading is the core library's. -/
theorem digitsVal_ten {ds : Text} (h : ∀ c ∈ ds, c.isDigit = true) :
    digitsVal 10 ds = Nat.ofDigitChars 10 ds 0 := by
  rw [digitsVal, Nat.ofDigitChars_eq_foldl]
  suffices ∀ acc, ds.foldl (fun acc c => 10 * acc + (digitVal c).getD 0) acc =
      ds.foldl (fun acc c => 10 * acc + (c.toNat - '0'.toNat)) acc from this 0
  induction ds with
  | nil => intro acc; rfl
  | cons c cs ih =>
      intro acc
      rw [List.foldl_cons, List.foldl_cons, digitVal_of_isDigit (h c List.mem_cons_self),
        Option.getD_some, ih fun d hd => h d (List.mem_cons_of_mem c hd)]

/-- The value of digits behind digits. -/
theorem digitsVal_append (b : Nat) (xs ys : Text) :
    digitsVal b (xs ++ ys) = digitsVal b xs * b ^ ys.length + digitsVal b ys := by
  have hfold : ∀ (acc : Nat) (ys : Text),
      ys.foldl (fun acc c => b * acc + (digitVal c).getD 0) acc =
        acc * b ^ ys.length + digitsVal b ys := by
    intro acc ys
    induction ys generalizing acc with
    | nil => simp [digitsVal]
    | cons c ys ih =>
        rw [digitsVal, List.foldl_cons, List.foldl_cons, ih, ih ((b * 0 : Nat) + _), List.length_cons]
        ring
  rw [digitsVal, List.foldl_append]
  exact hfold _ ys

/-- The digits that are printed have the value that was printed. -/
@[simp] theorem digitsVal_decimal (n : Nat) : digitsVal 10 (decimal n) = n := by
  rw [digitsVal_ten fun c hc => isDigit_of_mem_decimal hc]
  exact Nat.ofDigitChars_ten_toDigits

/-- Leading zeros do not change the value. -/
@[simp] theorem digitsVal_replicate_zero (k : Nat) (ds : Text) :
    digitsVal 10 (List.replicate k '0' ++ ds) = digitsVal 10 ds := by
  rw [digitsVal, List.foldl_append]
  congr 1
  induction k with
  | zero => rfl
  | succ k ih => rwa [List.replicate_succ, List.foldl_cons]

/-- Decimal numbers tell numbers apart. -/
theorem decimal_inj {m n : Nat} : decimal m = decimal n ↔ m = n :=
  ⟨fun h => by simpa using congrArg (digitsVal 10) h, congrArg decimal⟩

/-- What `%0kd` prints for a number of at most `k` digits. -/
def zeroPad (k n : Nat) : Text := List.replicate (k - (decimal n).length) '0' ++ decimal n

/-- A padded number has as many digits as it is padded to. -/
theorem length_zeroPad {k n : Nat} (hk : 0 < k) (h : n < 10 ^ k) : (zeroPad k n).length = k := by
  have hle : (decimal n).length ≤ k := (Nat.length_toDigits_le_iff (by decide) hk).mpr h
  rw [zeroPad, List.length_append, List.length_replicate]
  omega

theorem isDigit_of_mem_zeroPad {c : Char} {k n : Nat} (h : c ∈ zeroPad k n) : c.isDigit = true := by
  obtain h | h := List.mem_append.mp h
  · rw [List.eq_of_mem_replicate h]
    rfl
  · exact isDigit_of_mem_decimal h

@[simp] theorem digitsVal_zeroPad (k n : Nat) : digitsVal 10 (zeroPad k n) = n := by
  rw [zeroPad, digitsVal_replicate_zero, digitsVal_decimal]

/-- Reading a run of digits stops at the first character that is none. -/
theorem takeWhile_decimal_append (n : Nat) {rest : Text}
    (hr : ∀ c, rest.head? = some c → c.isDigit = false) :
    (decimal n ++ rest).takeWhile (isDigitOf 10) = decimal n := by
  rw [List.takeWhile_append_of_pos]
  · cases rest with
    | nil => simp
    | cons c cs => simp [isDigitOf_ten, hr c rfl]
  · intro c hc
    rw [isDigitOf_ten]
    exact isDigit_of_mem_decimal hc

theorem not_isSpace_of_isDigit {c : Char} (h : c.isDigit = true) : isSpace c = false := by
  have hge : 48 ≤ c.toNat := by
    simp only [Char.isDigit, Bool.and_eq_true, decide_eq_true_eq] at h
    exact h.1
  have hne : c ≠ ' ' := by rintro rfl; simp at hge
  simp [isSpace, hne]
  omega

/-- A string that starts with a digit has neither white space nor sign. -/
theorem strtoull_of_isDigit {c : Char} (s : Text) (h : c.isDigit = true) :
    strtoull (c :: s) = min ullongMax (strtoullDigits (c :: s)) := by
  rw [strtoull, List.dropWhile_cons, not_isSpace_of_isDigit h]
  split
  · next heq => injection heq with hc; subst hc; simp at h
  · next heq => injection heq with hc; subst hc; simp at h
  · rfl

/-- Without a leading zero the base is ten. -/
theorem strtoullDigits_of_ne_zero {c : Char} (s : Text) (h : c ≠ '0') :
    strtoullDigits (c :: s) = digitsVal 10 ((c :: s).takeWhile (isDigitOf 10)) := by
  unfold strtoullDigits
  split
  · next heq => injection heq with hc; contradiction
  · next heq => injection heq with hc; contradiction
  · rfl

/-- Such a number ends where its digits end. -/
theorem strtoullEnd_of_isDigit {c : Char} (s : Text) (h : c.isDigit = true) (h0 : c ≠ '0') :
    strtoullEnd (c :: s) = (c :: s).dropWhile (isDigitOf 10) := by
  have h10 : isDigitOf 10 c = true := by rw [isDigitOf_ten, h]
  rw [strtoullEnd, List.dropWhile_cons, not_isSpace_of_isDigit h]
  split
  · next heq => injection heq with hc; subst hc; simp at h
  · next heq => injection heq with hc; subst hc; simp at h
  · simp only [Bool.false_eq_true, if_false]
    split
    · next heq => injection heq with hc; contradiction
    · next heq => injection heq with hc; contradiction
    · next heq =>
        injection heq with hc
        subst hc
        rw [if_pos h10]
    · next heq => contradiction

/-- **Read-back**: the digits printed by `%lu`, up to a character that belongs to
no number, are read by `strtoull` as the number printed. -/
theorem strtoull_decimal_append {n : Nat} (hn : n < 2 ^ 64) {x : Char} (rest : Text)
    (hx : digitVal x = none) (hhex : x ≠ 'x' ∧ x ≠ 'X') :
    strtoull (decimal n ++ x :: rest) = n ∧ strtoullEnd (decimal n ++ x :: rest) = x :: rest := by
  have hnone : ∀ b, isDigitOf b x = false := fun b => by simp [isDigitOf, hx]
  rcases Nat.eq_zero_or_pos n with rfl | hpos
  · have h0 : decimal 0 = ['0'] := rfl
    have hs : isSpace '0' = false := rfl
    have h8 : isDigitOf 8 '0' = true := rfl
    have hval : digitsVal 8 ['0'] = 0 := rfl
    rw [h0]
    cases rest <;> simp [strtoull, strtoullEnd, strtoullDigits, hs, h8, hnone, hhex, hval]
  · have hnd : x.isDigit = false := by
      rw [← isDigitOf_ten]
      exact hnone 10
    have htake : (decimal n ++ x :: rest).takeWhile (isDigitOf 10) = decimal n :=
      takeWhile_decimal_append n (by rintro c ⟨⟩; exact hnd)
    have hval := digitsVal_decimal n
    have hhead := head?_decimal_ne_zero hpos
    have hdig : ∀ c ∈ decimal n, c.isDigit = true := fun c hc => isDigit_of_mem_decimal hc
    have hdrop : (decimal n ++ x :: rest).dropWhile (isDigitOf 10) = x :: rest := by
      rw [List.dropWhile_append_of_pos fun c hc => by rw [isDigitOf_ten]; exact hdig c hc,
        List.dropWhile_cons_of_neg (by simp [hnone])]
    cases hs : decimal n with
    | nil => exact absurd hs Nat.toDigits_ne_nil
    | cons c cs =>
        rw [hs] at htake hval hhead hdig hdrop
        have hc : c ≠ '0' := by simpa using hhead
        have hcd := hdig c List.mem_cons_self
        rw [List.cons_append] at htake hdrop ⊢
        constructor
        · rw [strtoull_of_isDigit _ hcd, strtoullDigits_of_ne_zero _ hc, htake, hval, ullongMax]
          omega
        · rw [strtoullEnd_of_isDigit _ hcd hc, hdrop]

/-- **Read-back**: the digits printed by `%lu`, up to the end of the line,
are read by `strtoull` as the number printed. -/
theorem strtoull_decimal {n : Nat} (hn : n < 2 ^ 64) :
    strtoull (decimal n ++ ['\n']) = n :=
  (strtoull_decimal_append hn [] rfl (by decide)).1

/-- **Read-back**: the digits alone. -/
theorem strtoull_decimal_nil {n : Nat} (hn : n < 2 ^ 64) : strtoull (decimal n) = n := by
  obtain rfl | hpos := Nat.eq_zero_or_pos n
  · rfl
  · have hval := digitsVal_decimal n
    have hhead := head?_decimal_ne_zero hpos
    have hdig : ∀ c ∈ decimal n, c.isDigit = true := fun c hc => isDigit_of_mem_decimal hc
    have htake : (decimal n ++ []).takeWhile (isDigitOf 10) = decimal n :=
      takeWhile_decimal_append n (by simp)
    rw [List.append_nil] at htake
    cases hs : decimal n with
    | nil => exact absurd hs Nat.toDigits_ne_nil
    | cons c cs =>
        rw [hs] at htake hval hhead hdig
        rw [strtoull_of_isDigit _ (hdig c List.mem_cons_self),
          strtoullDigits_of_ne_zero _ (by simpa using hhead), htake, hval, ullongMax]
        omega

/-- A line that ends where the number should be reads as zero. -/
theorem strtoull_newline : strtoull ['\n'] = 0 := by decide

end CText
