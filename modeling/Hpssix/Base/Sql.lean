import Mathlib.Data.List.Infix
import Hpssix.Base.Doubling

/-!
# Base.Sql

Pieces of SQL that queries are made of: conditions that may be unknown, string
literals and `LIKE` patterns.

A condition on a NULL is neither true nor false (`Truth`), and a row is
selected if its condition is true.

A literal is written between quotes with every quote inside doubled
(`quote`); text without quotes is written as it is (`quote_of_plain`).
`like` is the meaning of a pattern: `%` stands for any text, `_` for any
character, and a backslash takes the next character as it is.  A text without
these characters between two `%` is found anywhere (`like_contains`).
-/

namespace Sql

open Doubling

/-! ## conditions -/

/-- True, false or unknown. -/
abbrev Truth := Option Bool

/-- `AND`: false if one side is, unknown if one is unknown. -/
def Truth.and : Truth → Truth → Truth
  | some false, _ => some false
  | _, some false => some false
  | some true, b => b
  | none, _ => none

@[simp] theorem Truth.and_eq_true {a b : Truth} :
    a.and b = some true ↔ a = some true ∧ b = some true := by
  match a, b with
  | some false, _ => simp [Truth.and]
  | some true, some false => simp [Truth.and]
  | some true, some true => simp [Truth.and]
  | some true, none => simp [Truth.and]
  | none, some false => simp [Truth.and]
  | none, some true => simp [Truth.and]
  | none, none => simp [Truth.and]

/-- A list of conditions joined by `AND`. -/
def Truth.all (l : List Truth) : Truth := l.foldr Truth.and (some true)

/-- A conjunction is true exactly if all of it is. -/
theorem Truth.all_eq_true {l : List Truth} : Truth.all l = some true ↔ ∀ a ∈ l, a = some true := by
  induction l with
  | nil => simp [Truth.all]
  | cons a l ih => simpa [Truth.all] using fun _ => ih

/-- A comparison of two values, unknown if one is NULL. -/
def compare {α β : Type _} (f : α → β → Bool) (a : Option α) (b : Option β) : Truth :=
  a.bind fun a => b.map (f a)

/-- A comparison is true exactly if both values are there and it holds of them. -/
theorem compare_eq_true {α β : Type _} {f : α → β → Bool} {a : Option α} {b : Option β} :
    compare f a b = some true ↔ ∃ x ∈ a, ∃ y ∈ b, f x y = true := by
  cases a with
  | none => simp [compare]
  | some x => simp [compare]

/-! ## literals -/

/-- The single quote. -/
def quoteChar : Char := Char.ofNat 39

/-- The backslash. -/
def escapeChar : Char := Char.ofNat 92

/-- A string literal. -/
def quote (s : List Char) : List Char :=
  quoteChar :: s.flatMap (fun c => if c = quoteChar then [c, c] else [c]) ++ [quoteChar]

/-- `PQescapeLiteral`, with standard conforming strings: text with a backslash
becomes an escape literal with a blank before it. -/
def pqEscapeLiteral (s : List Char) : List Char :=
  if escapeChar ∈ s then ' ' :: 'E' :: quote (double (· = escapeChar) s) else quote s

/-- A character that is itself in a literal and in a pattern. -/
def PlainChar (c : Char) : Prop := c ≠ quoteChar ∧ c ≠ '%' ∧ c ≠ '_' ∧ c ≠ escapeChar

instance (c : Char) : Decidable (PlainChar c) := inferInstanceAs (Decidable (_ ∧ _ ∧ _ ∧ _))

/-- Text of plain characters. -/
def Plain (s : List Char) : Prop := ∀ c ∈ s, PlainChar c

instance (s : List Char) : Decidable (Plain s) := List.decidableBAll PlainChar s

theorem quote_eq (s : List Char) :
    quote s = quoteChar :: (double (· = quoteChar) s ++ [quoteChar]) := rfl

/-- A text without quotes is put between quotes. -/
theorem quote_of_plain {s : List Char} (h : ∀ c ∈ s, c ≠ quoteChar) :
    quote s = quoteChar :: s ++ [quoteChar] := by
  rw [quote_eq, double_of_forall h]
  rfl

/-- Where a literal ends does not depend on what is behind it. -/
theorem quote_append_inj {a b x y : List Char} (hx : x.head? ≠ some quoteChar)
    (hy : y.head? ≠ some quoteChar) (h : quote a ++ x = quote b ++ y) : a = b ∧ x = y := by
  simp only [quote_eq, List.cons_append, List.append_assoc, List.nil_append,
    List.cons.injEq, true_and] at h
  induction a generalizing b with
  | nil =>
      cases b with
      | nil => exact ⟨rfl, (List.cons.inj h).2⟩
      | cons d b =>
          rw [double_cons] at h
          split at h
          · simp only [double_nil, List.nil_append, List.cons_append, List.cons.injEq] at h
            rw [h.2, ← ‹d = quoteChar›] at hx
            exact absurd rfl hx
          · exact absurd (List.cons.inj h).1.symm ‹_›
  | cons c a ih =>
      cases b with
      | nil =>
          rw [double_cons] at h
          split at h
          · simp only [double_nil, List.nil_append, List.cons_append, List.cons.injEq] at h
            rw [← h.2, ← ‹c = quoteChar›] at hy
            exact absurd rfl hy
          · exact absurd (List.cons.inj h).1 ‹_›
      | cons d b =>
          have hcd : c = d := by
            rw [double_cons, double_cons] at h
            split at h <;> split at h <;> simp_all
          subst hcd
          rw [double_cons, double_cons, List.append_assoc, List.append_assoc] at h
          obtain ⟨rfl, hxy⟩ := ih (List.append_cancel_left h)
          exact ⟨rfl, hxy⟩

/-! ## patterns -/

/-- What a character of a pattern stands for. -/
inductive Wild where
  | text
  | char
  | exactly (c : Char)
deriving DecidableEq

/-- The meaning of a pattern, character by character; `escaped` after a
backslash, which must not end the pattern. -/
def wilds : Bool → List Char → Option (List Wild)
  | false, [] => some []
  | true, [] => none
  | true, c :: p => (wilds false p).map (.exactly c :: ·)
  | false, c :: p =>
    if c = '%' then (wilds false p).map (.text :: ·)
    else if c = '_' then (wilds false p).map (.char :: ·)
    else if c = escapeChar then wilds true p
    else (wilds false p).map (.exactly c :: ·)

/-- Whether a text is of the form that a pattern asks for. -/
def matchWilds : List Wild → List Char → Bool
  | [], s => s.isEmpty
  | .text :: p, s => s.tails.any (matchWilds p)
  | .char :: p, s =>
    match s with
    | [] => false
    | _ :: s => matchWilds p s
  | .exactly c :: p, s =>
    match s with
    | [] => false
    | x :: s => x = c && matchWilds p s

/-- `s LIKE p`, unknown where the pattern is refused. -/
def like (p s : List Char) : Truth := (wilds false p).map fun w => matchWilds w s

/-- Text that stands for itself in a pattern. -/
def Unwild (s : List Char) : Prop := ∀ c ∈ s, c ≠ '%' ∧ c ≠ '_' ∧ c ≠ escapeChar

instance (s : List Char) : Decidable (Unwild s) := List.decidableBAll _ s

/-- A plain text has no wild cards. -/
theorem Plain.unwild {s : List Char} (h : Plain s) : Unwild s := fun c hc => (h c hc).2

/-- A text that a pattern without backslashes asks for. -/
def sample (p : List Char) : List Char :=
  (p.filter (· ≠ '%')).map fun c => if c = '_' then 'x' else c

theorem unwild_sample {p : List Char} (h : escapeChar ∉ p) : Unwild (sample p) := by
  intro c hc
  obtain ⟨d, hd, rfl⟩ := List.mem_map.mp hc
  obtain ⟨hmem, hpercent⟩ := List.mem_filter.mp hd
  split
  · decide
  · exact ⟨by simpa using hpercent, ‹_›, fun heq => h (heq ▸ hmem)⟩

/-- A percent sign matches any text. -/
theorem matchWilds_text {p : List Wild} {s : List Char} :
    matchWilds (.text :: p) s = true ↔ ∃ t, t <:+ s ∧ matchWilds p t = true := by
  simp [matchWilds, List.mem_tails]

/-- Text without wild cards stands for itself. -/
theorem wilds_append {v p : List Char} (h : Unwild v) :
    wilds false (v ++ p) = (wilds false p).map (v.map .exactly ++ ·) := by
  induction v with
  | nil => simp
  | cons c v ih =>
      obtain ⟨hpercent, hany, hescape⟩ := h c List.mem_cons_self
      rw [List.cons_append, wilds, if_neg hpercent, if_neg hany, if_neg hescape,
        ih fun d hd => h d (List.mem_cons_of_mem _ hd), Option.map_map]
      rfl

/-- Other characters match themselves. -/
theorem matchWilds_exactly {v : List Char} {p : List Wild} {s : List Char} :
    matchWilds (v.map .exactly ++ p) s = true ↔ ∃ t, s = v ++ t ∧ matchWilds p t = true := by
  induction v generalizing s with
  | nil => simp
  | cons c v ih =>
      cases s with
      | nil => simp [matchWilds]
      | cons x s => simp [matchWilds, ih, and_assoc]

/-- Wild cards in a row are one. -/
theorem matchWilds_texts {n : Nat} {p : List Wild} {s : List Char} :
    matchWilds (List.replicate (n + 1) .text ++ p) s = true ↔
      ∃ t, t <:+ s ∧ matchWilds p t = true := by
  induction n generalizing s with
  | zero => exact matchWilds_text
  | succ n ih =>
      rw [List.replicate_succ, List.cons_append, matchWilds_text]
      constructor
      · rintro ⟨t, ht, h⟩
        obtain ⟨u, hu, h⟩ := ih.mp h
        exact ⟨u, hu.trans ht, h⟩
      · rintro ⟨t, ht, h⟩
        exact ⟨t, ht, ih.mpr ⟨t, List.suffix_rfl, h⟩⟩

/-- Text between wild cards is found anywhere. -/
theorem matchWilds_contains {m n : Nat} {v s : List Char} :
    matchWilds (List.replicate (m + 1) .text ++ (v.map .exactly ++ List.replicate (n + 1) .text)) s =
      true ↔ v <:+: s := by
  have hend : ∀ u, matchWilds (List.replicate (n + 1) .text) u = true := fun u => by
    have h := matchWilds_texts (n := n) (p := []) (s := u)
    rw [List.append_nil] at h
    exact h.mpr ⟨[], List.nil_suffix, rfl⟩
  rw [matchWilds_texts]
  constructor
  · rintro ⟨t, ⟨r, hr⟩, ht⟩
    obtain ⟨u, hu, _⟩ := matchWilds_exactly.mp ht
    exact ⟨r, u, by rw [← hr, hu, List.append_assoc]⟩
  · rintro ⟨r, u, hs⟩
    refine ⟨v ++ u, ⟨r, by rw [← hs, List.append_assoc]⟩, ?_⟩
    exact matchWilds_exactly.mpr ⟨u, rfl, hend u⟩

/-- Percent signs at the front of a pattern. -/
theorem wilds_percents {n : Nat} {p : List Char} :
    wilds false (List.replicate n '%' ++ p) =
      (wilds false p).map (List.replicate n .text ++ ·) := by
  induction n with
  | zero => simp
  | succ n ih =>
      rw [List.replicate_succ, List.cons_append, wilds, if_pos rfl, ih, Option.map_map]
      rfl

/-- **Containment**: text without wild cards is found anywhere between percents. -/
theorem like_contains (m n : Nat) {v s : List Char} (h : Unwild v) :
    like (List.replicate (m + 1) '%' ++ (v ++ List.replicate (n + 1) '%')) s = some true ↔
      v <:+: s := by
  have hend : wilds false (List.replicate (n + 1) '%') = some (List.replicate (n + 1) .text) := by
    simpa [wilds] using wilds_percents (n := n + 1) (p := [])
  rw [like, wilds_percents, wilds_append h, hend, Option.map_some, Option.map_some, Option.map_some,
    Option.some_inj]
  exact matchWilds_contains

/-- A pattern between percents accepts its sample. -/
theorem like_sample {p : List Char} (h : escapeChar ∉ p) :
    like ('%' :: (p ++ ['%'])) (sample p) = some true := by
  have hwilds : ∃ w, wilds false (p ++ ['%']) = some w ∧ matchWilds w (sample p) = true := by
    induction p with
    | nil => exact ⟨[.text], rfl, rfl⟩
    | cons c p ih =>
        rw [List.mem_cons, not_or] at h
        obtain ⟨w, hw, hmatch⟩ := ih h.2
        rw [List.cons_append, wilds]
        by_cases hpercent : c = '%'
        · refine ⟨.text :: w, by rw [if_pos hpercent, hw]; rfl, ?_⟩
          rw [sample, List.filter_cons_of_neg (by simpa using hpercent)]
          exact matchWilds_text.mpr ⟨_, List.suffix_rfl, hmatch⟩
        · rw [if_neg hpercent, sample, List.filter_cons_of_pos (by simpa using hpercent), List.map_cons,
            ← sample]
          by_cases hany : c = '_'
          · exact ⟨.char :: w, by rw [if_pos hany, hw]; rfl, hmatch⟩
          · refine ⟨.exactly c :: w, by rw [if_neg hany, if_neg (Ne.symm h.1), hw]; rfl, ?_⟩
            simpa [matchWilds, hany] using hmatch
  obtain ⟨w, hw, hmatch⟩ := hwilds
  rw [like, wilds, if_pos rfl, hw, Option.map_some, Option.map_some,
    matchWilds_text.mpr ⟨_, List.suffix_rfl, hmatch⟩]

end Sql
