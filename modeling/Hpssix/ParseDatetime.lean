import Hpssix.Base.Literal
import Hpssix.ParseOp

/-!
# Hpssix.ParseDatetime

Dates on the command line of `hpssix-search`
(`utils/hpssix-search/src/hpssix-search.c`): `parse_datetime` writes a date, or
two, as the seconds that `mktime` gives, and the result is read again as a
condition on the modification time.

* `parsing_in_bounds_iff` — when no function looks behind the end of its string;
* `date_condition_kept` — the condition that comes of it is the one that was written.
-/

namespace Hpssix

open CText Fate Scanf

/-! ## dates -/

/-- The fields of `struct tm` that `parse_datetime_str` sets; `tm_isdst` is `-1`. -/
structure DateFields where
  tmSec : Int
  tmMin : Int
  tmHour : Int
  tmMday : Int
  tmMon : Int
  tmYear : Int
deriving DecidableEq

/-- `"%d-%02d:%02d:%02d"`. -/
def datetimeFormat : List Directive :=
  [.d none, .lit '-', .d (some 2), .lit ':', .d (some 2), .lit ':', .d (some 2)]

section Dates
variable (mktime : DateFields → Int64)

/-- `parse_datetime_str`; without a value it exits. -/
def parseDatetimeStr (str : Text) : Option UInt64 :=
  match (scan datetimeFormat str).1 with
  | [date, hour, min, sec] =>
      let year := date.tdiv 10000
      let month := (date.tmod 10000).tdiv 100
      let day := date.tmod 100
      let tm := ⟨sec, min, hour, day, month - 1, year - 1900⟩
      some (mktime tm).toUInt64
  | _ => none

/-- `parse_datetime`: what it prints into `datetimebuf`; without a text it exits. -/
def parseDatetime (str : Text) : Fate (Option Text) := do
  let c ← charAt str 0
  if c.isDigit then
    if ',' ∈ str then
      let d1 := parseDatetimeStr mktime (str.takeWhile (· ≠ ','))
      let d2 := parseDatetimeStr mktime ((str.dropWhile (· ≠ ',')).drop 1)
      match d1, d2 with
      | some d1, some d2 => pure (some (decimal d1.toNat ++ ',' :: decimal d2.toNat))
      | _, _ => pure none
    else
      pure ((parseDatetimeStr mktime str).map fun d1 => decimal d1.toNat)
  else do
    let d ← charAt str 1
    if d.isDigit then do
      let str1 ← stringAt str 1
      pure ((parseDatetimeStr mktime str1).map fun d1 => c :: decimal d1.toNat)
    else do
      let e ← charAt str 2
      if e.isDigit then do
        let str2 ← stringAt str 2
        pure ((parseDatetimeStr mktime str2).map fun d1 => c :: d :: decimal d1.toNat)
      else pure none

/-- A date option, read as the condition on the modification time; `cond` is what an
earlier call left. -/
def dateCondition (cond : FattrCond) (str : Text) : Fate (Option FattrCond) := do
  match ← parseDatetime mktime str with
  | some datetimebuf => parseFattrCondition cond datetimebuf
  | none => pure none

end Dates

/-! ## bounds -/

section Bounds
variable {mktime : DateFields → Int64} {str : Text}

theorem charAt_cons (c : Char) (t : Text) : charAt (c :: t) 0 = done c := rfl

theorem charAt_one (c d : Char) (t : Text) : charAt (c :: d :: t) 1 = done d := rfl

/-- With a digit in front the date is looked for from there. -/
theorem parseDatetime_digit {c : Char} {t : Text} (hc : c.isDigit = true) :
    parseDatetime mktime (c :: t) = done (
      if ',' ∈ c :: t then
        (parseDatetimeStr mktime ((c :: t).takeWhile (· ≠ ','))).bind fun d1 =>
          (parseDatetimeStr mktime (((c :: t).dropWhile (· ≠ ',')).drop 1)).map fun d2 =>
            decimal d1.toNat ++ ',' :: decimal d2.toNat
      else (parseDatetimeStr mktime (c :: t)).map fun d1 => decimal d1.toNat) := by
  rw [parseDatetime, charAt_cons, done_bind, if_pos hc]
  split
  · cases parseDatetimeStr mktime ((c :: t).takeWhile (· ≠ ',')) with
    | none => rfl
    | some d1 => cases parseDatetimeStr mktime (((c :: t).dropWhile (· ≠ ',')).drop 1) <;> rfl
  · rfl

/-- Behind one other character, and behind two. -/
theorem parseDatetime_one {c d : Char} {t : Text} (hc : c.isDigit = false) (hd : d.isDigit = true) :
    parseDatetime mktime (c :: d :: t) =
      done ((parseDatetimeStr mktime (d :: t)).map fun d1 => c :: decimal d1.toNat) := by
  have hstring : stringAt (c :: d :: t) 1 = done (d :: t) := by simp [stringAt]
  simp [parseDatetime, charAt_cons, charAt_one, hc, hd, hstring]

/-- A date behind an operator of two characters. -/
theorem parseDatetime_two {c d e : Char} {t : Text} (hc : c.isDigit = false)
    (hd : d.isDigit = false) (he : e.isDigit = true) :
    parseDatetime mktime (c :: d :: e :: t) =
      done ((parseDatetimeStr mktime (e :: t)).map fun d1 => c :: d :: decimal d1.toNat) := by
  have hchar : charAt (c :: d :: e :: t) 2 = done e := rfl
  have hstring : stringAt (c :: d :: e :: t) 2 = done (e :: t) := by simp [stringAt]
  simp [parseDatetime, charAt_cons, charAt_one, hchar, hc, hd, he, hstring]

/-- The strings that `parse_datetime` can read: a character that is no digit is followed by
another. -/
def DateReadable (str : Text) : Prop := str ≠ [] ∧ ∀ c, str = [c] → c.isDigit = true

theorem decimal_ne_nil (n : Nat) : decimal n ≠ [] := Nat.toDigits_ne_nil

/-- Each probe needs the character before it; a text that is printed is not empty. -/
theorem parseDatetime_of_readable (h : DateReadable str) :
    ∃ out, parseDatetime mktime str = done out ∧ out ≠ some [] := by
  obtain ⟨c, t, rfl⟩ := List.exists_cons_of_ne_nil h.1
  cases hc : c.isDigit with
  | true =>
      refine ⟨_, parseDatetime_digit hc, ?_⟩
      split
      · simp [Option.bind_eq_some_iff]
      · simp [decimal_ne_nil]
  | false =>
      cases t with
      | nil =>
          rw [h.2 c rfl] at hc
          cases hc
      | cons d t =>
          cases hd : d.isDigit with
          | true => exact ⟨_, parseDatetime_one hc hd, by simp⟩
          | false =>
              cases t with
              | nil =>
                  have htwo : charAt [c, d] 2 = done (Char.ofNat 0) := rfl
                  have hnul : (Char.ofNat 0).isDigit = false := rfl
                  refine ⟨none, ?_, by simp⟩
                  simp [parseDatetime, charAt_cons, charAt_one, htwo, hnul, hc, hd]
              | cons e t =>
                  cases he : e.isDigit with
                  | true => exact ⟨_, parseDatetime_two hc hd he, by simp⟩
                  | false =>
                      have htwo : charAt (c :: d :: e :: t) 2 = done e := rfl
                      refine ⟨none, ?_, by simp⟩
                      simp [parseDatetime, charAt_cons, charAt_one, htwo, hc, hd, he]

/-- Where a date cannot be read, the pointer is invalid. -/
theorem parseDatetime_of_not_readable (h : ¬ DateReadable str) :
    parseDatetime mktime str = crash := by
  match str with
  | [] => rfl
  | [c] =>
      have hc : c.isDigit = false := by
        by_contra hc
        exact h ⟨List.cons_ne_nil c [], by rintro d ⟨⟩; simpa using hc⟩
      have hone : charAt [c] 1 = done (Char.ofNat 0) := rfl
      have htwo : charAt [c] 2 = crash := rfl
      have hnul : (Char.ofNat 0).isDigit = false := rfl
      simp [parseDatetime, charAt_cons, hone, htwo, hnul, hc]
  | c :: d :: t => exact absurd ⟨List.cons_ne_nil c _, by simp⟩ h

/-- A date is read without harm exactly if it is readable. -/
theorem parseDatetime_ne_crash_iff : parseDatetime mktime str ≠ crash ↔ DateReadable str := by
  constructor
  · intro h
    by_contra hread
    exact h (parseDatetime_of_not_readable hread)
  · intro hread
    obtain ⟨out, hout, -⟩ := @parseDatetime_of_readable mktime str hread
    simp [hout]

/-- A tag option is read without harm exactly if it has a value. -/
theorem addTagCondStr_ne_crash_iff : addTagCondStr str ≠ crash ↔
    ∀ name, ':' ∉ name → str ≠ name ++ [':'] := by
  by_cases hcolon : ':' ∈ str
  · obtain ⟨name, val, rfl, hname⟩ := List.eq_append_cons_of_mem hcolon
    have hval := (split_first (b := val) hname).2
    have hcrash : addTagCondStr (name ++ ':' :: val) ≠ crash ↔ parseOp val ≠ crash := by
      rw [addTagCondStr, if_pos hcolon]
      simp only [hval]
      cases parseOp val <;> simp
    rw [hcrash, parseOp_ne_crash_iff]
    constructor
    · rintro hne other hother heq
      -- the first colon of a string is where it is
      have hsplit := (split_first (b := []) hother).2
      rw [← heq, hval] at hsplit
      exact hne hsplit
    · rintro h rfl
      exact h name hname rfl
  · rw [addTagCondStr, if_neg hcolon]
    refine iff_of_true (by simp) ?_
    rintro name - rfl
    simp at hcolon

/-- A condition is read without harm exactly if it is not empty. -/
theorem parseFattrCondition_ne_crash_iff {cond : FattrCond} :
    parseFattrCondition cond str ≠ crash ↔ str ≠ [] := by
  rw [← parseOp_ne_crash_iff (s := str), parseFattrCondition]
  cases parseOp str with
  | done r => 
    rw [done_bind]
    cases r.op <;> simp
  | crash => simp
  | hang => simp

/-- What a date is rewritten to is read within its bounds. -/
theorem dateCondition_ne_crash_iff {cond : FattrCond} :
    dateCondition mktime cond str ≠ crash ↔ DateReadable str := by
  constructor
  · intro h
    by_contra hread
    exact h (by rw [dateCondition, parseDatetime_of_not_readable hread, crash_bind])
  · intro hread
    obtain ⟨out, hout, hne⟩ := @parseDatetime_of_readable mktime str hread
    rw [dateCondition, hout, done_bind]
    cases out with
    | none => simp
    | some datetimebuf =>
        exact parseFattrCondition_ne_crash_iff.mpr fun h => hne (congrArg some h)

/-- **Bounds**: an empty condition, a date that is a single character and no digit, and a
tag with nothing behind its colon are read beyond their end, and nothing else is. -/
theorem parsing_in_bounds_iff (mktime : DateFields → Int64) (cond : FattrCond) (str : Text) :
    (parseOp str ≠ crash ↔ str ≠ []) ∧
      (parseDatetime mktime str ≠ crash ↔ DateReadable str) ∧
      (dateCondition mktime cond str ≠ crash ↔ DateReadable str) ∧
      (addTagCondStr str ≠ crash ↔ ∀ name, ':' ∉ name → str ≠ name ++ [':']) ∧
      (parseFattrCondition cond str ≠ crash ↔ str ≠ []) :=
  ⟨parseOp_ne_crash_iff, parseDatetime_ne_crash_iff, dateCondition_ne_crash_iff,
    addTagCondStr_ne_crash_iff, parseFattrCondition_ne_crash_iff⟩

/-- A tag without an expression. -/
theorem tag_out_of_bounds : ¬ ∀ (mktime : DateFields → Int64) (cond : FattrCond) (str : Text),
    dateCondition mktime cond str ≠ crash ∧ addTagCondStr str ≠ crash ∧
      parseFattrCondition cond str ≠ crash := by
  intro h
  exact (h (fun _ => 0) condDirMode [ 'p', 'r', 'o', 'j', 'i', 'd', ':' ]).2.1 (by decide +kernel)

end Bounds

/-! ## dates are kept -/

/-- The days of a month. -/
def daysIn (year month : Nat) : Nat :=
  if month = 2 then if year % 4 = 0 ∧ (year % 100 ≠ 0 ∨ year % 400 = 0) then 29 else 28
  else if month = 4 ∨ month = 6 ∨ month = 9 ∨ month = 11 then 30 else 31

/-- A calendar time whose year has four digits. -/
structure DateTime where
  year : Nat
  month : Nat
  day : Nat
  hour : Nat
  min : Nat
  sec : Nat
  yearLt : year < 10000
  monthMem : 1 ≤ month ∧ month ≤ 12
  dayMem : 1 ≤ day ∧ day ≤ daysIn year month
  hourLt : hour < 24
  minLt : min < 60
  secLt : sec < 60

namespace DateTime
variable (d : DateTime)

/-- `YYYYMMDD`. -/
def date : Text := zeroPad 4 d.year ++ (zeroPad 2 d.month ++ zeroPad 2 d.day)

/-- `YYYYMMDD-hh:mm:ss`. -/
def text : Text :=
  d.date ++ '-' :: (zeroPad 2 d.hour ++ ':' :: (zeroPad 2 d.min ++ ':' :: zeroPad 2 d.sec))

/-- What `mktime` is given for it. -/
def fields : DateFields where
  tmSec := d.sec
  tmMin := d.min
  tmHour := d.hour
  tmMday := d.day
  tmMon := d.month - 1
  tmYear := d.year - 1900

theorem day_lt : d.day < 32 := by
  have hday := d.dayMem.2
  unfold daysIn at hday
  split_ifs at hday <;> omega

/-- The digits of a date, as one number. -/
theorem digitsVal_date : digitsVal 10 d.date = d.year * 10000 + d.month * 100 + d.day := by
  have hday := day_lt d
  have hmonth := d.monthMem.2
  have hlen : (zeroPad 2 d.month).length = 2 ∧ (zeroPad 2 d.day).length = 2 :=
    ⟨length_zeroPad (by decide) (by omega), length_zeroPad (by decide) (by omega)⟩
  rw [date, digitsVal_append, digitsVal_append, List.length_append, hlen.1, hlen.2,
    digitsVal_zeroPad, digitsVal_zeroPad, digitsVal_zeroPad]
  omega

theorem isDigit_of_mem_date {c : Char} (hc : c ∈ d.date) : c.isDigit = true := by
  rw [date, List.mem_append, List.mem_append] at hc
  obtain hc | hc | hc := hc <;> exact isDigit_of_mem_zeroPad hc

theorem date_ne_nil : d.date ≠ [] := by
  have hyear := length_zeroPad (k := 4) (by decide) d.yearLt
  rw [date, Ne, List.append_eq_nil_iff]
  intro h
  rw [h.1] at hyear
  cases hyear

end DateTime

/-- A field of two digits. -/
theorem scan_two {n : Nat} (hn : n < 100) (ds : List Directive) (rest : Text) :
    scan (.d (some 2) :: ds) (zeroPad 2 n ++ rest) =
      ((n : Int) :: (scan ds rest).1, (scan ds rest).2) := by
  have hlen : (zeroPad 2 n).length = 2 := length_zeroPad (by decide) hn
  have hne : zeroPad 2 n ≠ [] := by
    intro h
    rw [h] at hlen
    cases hlen
  have hval : digitsVal 10 (zeroPad 2 n) < 2 ^ 31 := by
    rw [digitsVal_zeroPad]
    omega
  rw [scan_d ds hne (fun c hc => isDigit_of_mem_zeroPad hc) hval (.inl (by rw [hlen])),
    digitsVal_zeroPad]

section Kept
variable (mktime : DateFields → Int64) (d : DateTime)

/-- `parse_datetime_str` reads the fields of a date. -/
theorem parseDatetimeStr_text : parseDatetimeStr mktime d.text = some (mktime d.fields).toUInt64 := by
  have hday := d.day_lt
  have hmonth := d.monthMem
  have hyear := d.yearLt
  have hhour := d.hourLt
  have hmin := d.minLt
  have hsec := d.secLt
  have hlast := scan_two (n := d.sec) (by omega) [] []
  rw [List.append_nil] at hlast
  obtain ⟨n, hn⟩ : ∃ n : Int, n = (digitsVal 10 d.date : Int) := ⟨_, rfl⟩
  have hscan : (scan datetimeFormat d.text).1 = [n, (d.hour : Int), (d.min : Int), (d.sec : Int)] := by
    rw [datetimeFormat, DateTime.text, scan_d _ d.date_ne_nil (fun c hc => d.isDigit_of_mem_date hc)
      (by rw [d.digitsVal_date]; omega) (.inr ⟨rfl, by rintro c ⟨⟩; rfl⟩), scan_lit_self,
      scan_two (by omega), scan_lit_self, scan_two (by omega), scan_lit_self, hlast, hn]
    rfl
  rw [d.digitsVal_date] at hn
  -- the date is taken apart as it was put together
  have hfields : (⟨d.sec, d.min, d.hour, n.tmod 100, (n.tmod 10000).tdiv 100 - 1,
      n.tdiv 10000 - 1900⟩ : DateFields) = d.fields := by
    rw [Int.tmod_eq_emod_of_nonneg (by omega), Int.tmod_eq_emod_of_nonneg (by omega),
      Int.tdiv_eq_ediv_of_nonneg (by omega), Int.tdiv_eq_ediv_of_nonneg (by omega)]
    simp only [DateTime.fields, DateFields.mk.injEq, true_and]
    omega
  rw [parseDatetimeStr, hscan]
  exact congrArg (fun tm => some (mktime tm).toUInt64) hfields

/-- A date begins with a digit and has no comma. -/
theorem exists_cons_text : ∃ c t, d.text = c :: t ∧ c.isDigit = true ∧ ',' ∉ d.text := by
  obtain ⟨c, t, hct⟩ := List.exists_cons_of_ne_nil d.date_ne_nil
  have hpad : ∀ n, ',' ∉ zeroPad 2 n := fun n h => absurd (isDigit_of_mem_zeroPad h) (by decide)
  refine ⟨c, _, by rw [DateTime.text, hct, List.cons_append],
    d.isDigit_of_mem_date (hct ▸ List.mem_cons_self), ?_⟩
  have hdate : ',' ∉ d.date := fun h => absurd (d.isDigit_of_mem_date h) (by decide)
  simp [DateTime.text, hdate, hpad]

/-- What is printed is read as it was. -/
theorem ofNat_strtoull_decimal (u : UInt64) : UInt64.ofNat (strtoull (decimal u.toNat)) = u := by
  rw [strtoull_decimal_nil u.toNat_lt, UInt64.ofNat_toNat]

variable (cond : FattrCond)

/-- A date alone asks for equality. -/
theorem dateCondition_date : dateCondition mktime cond d.text =
    done (some { cond with op := .cmp .eq, val1 := (mktime d.fields).toUInt64 }) := by
  obtain ⟨c, t, hct, hc, hcomma⟩ := exists_cons_text d
  have hout := @parseDatetime_digit mktime c t hc
  rw [← hct, if_neg hcomma, parseDatetimeStr_text] at hout
  rw [dateCondition, hout, done_bind]
  simp [parseFattrCondition, parseOp_number (numeric_decimal _), ofNat_strtoull_decimal]

/-- Two dates ask for the time between them. -/
theorem dateCondition_between (d1 d2 : DateTime) :
    dateCondition mktime cond (d1.text ++ ',' :: d2.text) =
      done (some ⟨.between, (mktime d1.fields).toUInt64, (mktime d2.fields).toUInt64⟩) := by
  obtain ⟨c, t, hct, hc, hcomma⟩ := exists_cons_text d1
  obtain ⟨htake, hdrop⟩ := split_first (b := d2.text) hcomma
  have hout := @parseDatetime_digit mktime c (t ++ ',' :: d2.text) hc
  rw [← List.cons_append, ← hct, if_pos (by simp), htake, hdrop, parseDatetimeStr_text,
    parseDatetimeStr_text] at hout
  rw [dateCondition, hout, done_bind]
  simp [parseFattrCondition, parseOp_between (numeric_decimal _) (numeric_decimal _),
    ofNat_strtoull_decimal]

/-- An operator is copied in front of the seconds. -/
theorem parseDatetime_operator {o : Text} {c : Cmp} (ho : (o, c) ∈ operators) :
    parseDatetime mktime (o ++ d.text) =
      done (some (o ++ decimal (mktime d.fields).toUInt64.toNat)) := by
  obtain ⟨e, t, hct, he, -⟩ := exists_cons_text d
  have hstr : parseDatetimeStr mktime (e :: t) = some (mktime d.fields).toUInt64 :=
    hct ▸ parseDatetimeStr_text mktime d
  have hone : ∀ x : Char, x.isDigit = false → parseDatetime mktime ([x] ++ e :: t) =
      done (some ([x] ++ decimal (mktime d.fields).toUInt64.toNat)) := fun x hx => by
    rw [List.singleton_append, parseDatetime_one hx he, hstr]
    rfl
  have htwo : ∀ x y : Char, x.isDigit = false → y.isDigit = false →
      parseDatetime mktime ([x, y] ++ e :: t) =
        done (some ([x, y] ++ decimal (mktime d.fields).toUInt64.toNat)) := fun x y hx hy => by
    rw [List.cons_append, List.singleton_append, parseDatetime_two hx hy he, hstr]
    rfl
  rw [hct]
  simp only [operators, List.mem_cons, List.not_mem_nil, or_false, Prod.mk.injEq] at ho
  obtain ⟨rfl, -⟩ | ⟨rfl, -⟩ | ⟨rfl, -⟩ | ⟨rfl, -⟩ | ⟨rfl, -⟩ | ⟨rfl, -⟩ | ⟨rfl, -⟩ |
    ⟨rfl, -⟩ | ⟨rfl, -⟩ := ho
  · exact hone '=' rfl
  · exact hone '>' rfl
  · exact hone '<' rfl
  · exact htwo '>' '=' rfl rfl
  · exact htwo '=' '>' rfl rfl
  · exact htwo '<' '=' rfl rfl
  · exact htwo '=' '<' rfl rfl
  · exact htwo '!' '=' rfl rfl
  · exact htwo '<' '>' rfl rfl

/-- An operator in front of a date asks for the comparison. -/
theorem dateCondition_operator {o : Text} {c : Cmp} (ho : (o, c) ∈ operators) :
    dateCondition mktime cond (o ++ d.text) =
      done (some { cond with op := .cmp c, val1 := (mktime d.fields).toUInt64 }) := by
  rw [dateCondition, parseDatetime_operator mktime d ho, done_bind]
  simp [parseFattrCondition, parseOp_operator ho (numeric_decimal _), ofNat_strtoull_decimal]

end Kept

/-- **Date conditions**: what is printed for dates is read as the condition that was
written, with the seconds of the dates. -/
theorem date_condition_kept (mktime : DateFields → Int64) (cond : FattrCond) (d d1 d2 : DateTime) :
    dateCondition mktime cond d.text =
        done (some { cond with op := .cmp .eq, val1 := (mktime d.fields).toUInt64 }) ∧
      (∀ o c, (o, c) ∈ operators → dateCondition mktime cond (o ++ d.text) =
        done (some { cond with op := .cmp c, val1 := (mktime d.fields).toUInt64 })) ∧
      dateCondition mktime cond (d1.text ++ ',' :: d2.text) =
        done (some ⟨.between, (mktime d1.fields).toUInt64, (mktime d2.fields).toUInt64⟩) :=
  ⟨dateCondition_date mktime d cond, fun _ _ ho => dateCondition_operator mktime d cond ho,
    dateCondition_between mktime cond d1 d2⟩

end Hpssix
