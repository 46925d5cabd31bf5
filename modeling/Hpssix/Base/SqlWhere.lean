import Hpssix.Base.Rel
import Hpssix.Base.SqlLexer

/-!
# Base.SqlWhere

A query with a name, `WITH … AS (SELECT … FROM … WHERE …)`, whose condition is a
conjunction of comparisons of a column with constants: how its tokens are read,
and for which rows of its table it holds.  `BETWEEN` takes the first `AND` behind
it, `&` binds tighter than a comparison, and numbers are exact, also those of `&`; a
server has the bits of a `bigint` only, and refuses a mask of `2 ^ 63` and more.

* `lex_of_yields` — the tokens of a text are the tokens of its pieces;
* `readQuery_tokens` — the tokens of a query are read as that query.
-/

namespace SqlWhere

open CText SqlLexer

/-! ## queries -/

/-- A comparison of a column: with a truth value, with a number, with two numbers, or of
some of its bits. -/
inductive Term where
  | flag (column value : Text)
  | cmp (column op number : Text)
  | between (column low high : Text)
  | mask (column bits bound : Text)
deriving DecidableEq

structure Query where
  name : Text
  column : Text
  table : Text
  terms : List Term
deriving DecidableEq

/-! ## reading -/

def wordAnd : Tok := .word [ 'A', 'N', 'D' ]

def wordBetween : Tok := .word [ 'B', 'E', 'T', 'W', 'E', 'E', 'N' ]

/-- A comparison at the front of the tokens. -/
def readTerm : List Tok → Option (Term × List Tok)
  | .word c :: .op o :: .word v :: ts => if o = [ '=' ] then some (.flag c v, ts) else none
  | .word c :: .op o :: .number n :: ts =>
    if o = [ '&' ] then
      match ts with
      | .op p :: .number b :: us => if p = [ '>' ] then some (.mask c n b, us) else none
      | _ => none
    else some (.cmp c o n, ts)
  | .word c :: w :: .number n :: w' :: .number m :: ts =>
    if w = wordBetween ∧ w' = wordAnd then some (.between c n m, ts) else none
  | _ => none

/-- Comparisons up to the closing parenthesis; the number bounds how many. -/
def readTerms : Nat → List Tok → Option (List Term)
  | 0, _ => none
  | k + 1, ts =>
    match readTerm ts with
    | some (t, w :: us) =>
      if w = wordAnd then (readTerms k us).map (t :: ·)
      else if w = .op [ ')' ] ∧ us = [] then some [t]
      else none
    | _ => none

def readQuery (ts : List Tok) : Option Query :=
  match ts with
  | w₁ :: .word name :: w₂ :: .op p :: w₃ :: .word column :: w₄ :: .word table :: w₅ :: us =>
    if w₁ = .word "WITH".toList ∧ w₂ = .word "AS".toList ∧ p = [ '(' ] ∧
        w₃ = .word "SELECT".toList ∧ w₄ = .word "FROM".toList ∧ w₅ = .word "WHERE".toList then
      (readTerms us.length us).map fun terms => ⟨name, column, table, terms⟩
    else none
  | _ => none

/-! ## meaning -/

/-- A row: its columns of truth values and of numbers. -/
structure Row where
  flag : Text → Option Bool
  number : Text → Option Nat

def truth (v : Text) : Option Bool :=
  if v = "true".toList then some true else if v = "false".toList then some false else none

/-- The comparisons. -/
def relation : Text → Option (Nat → Nat → Bool)
  | [ '=' ] => some fun a b => a = b
  | [ '>' ] => some fun a b => b < a
  | [ '<' ] => some fun a b => a < b
  | [ '>', '=' ] => some fun a b => b ≤ a
  | [ '<', '=' ] => some fun a b => a ≤ b
  | [ '<', '>' ] => some fun a b => a ≠ b
  | _ => none

/-- Whether a comparison holds; none where a column or an operator is unknown.  A mask is
taken to be below `2 ^ 63`. -/
def Term.holds (r : Row) : Term → Option Bool
  | .flag c v => do
    let b ← r.flag c
    let value ← truth v
    pure (b = value)
  | .cmp c o n => do
    let v ← r.number c
    let rel ← relation o
    pure (rel v (digitsVal 10 n))
  | .between c n m => do
    let v ← r.number c
    pure (digitsVal 10 n ≤ v && v ≤ digitsVal 10 m)
  | .mask c n b => do
    let v ← r.number c
    pure (digitsVal 10 b < v &&& digitsVal 10 n)

/-- Whether the condition of a query holds. -/
def Query.holds (q : Query) (r : Row) : Option Bool :=
  (q.terms.mapM (Term.holds r)).map fun bs => bs.all id

/-- A query whose comparisons all have a meaning holds if they all do. -/
theorem Query.holds_iff {q : Query} {r : Row} (h : ∀ t ∈ q.terms, (t.holds r).isSome = true) :
    ∃ b, q.holds r = some b ∧ (b = true ↔ ∀ t ∈ q.terms, t.holds r = some true) := by
  have hget : ∀ t ∈ q.terms, t.holds r = some ((t.holds r).getD false) := fun t ht => by
    obtain ⟨b, hb⟩ := Option.isSome_iff_exists.mp (h t ht)
    rw [hb, Option.getD_some]
  have hmap : q.terms.mapM (Term.holds r) = some (q.terms.map fun t => (t.holds r).getD false) := by
    rw [Rel.mapM_eq_some, List.map_map]
    exact List.map_congr_left hget
  refine ⟨_, by rw [Query.holds, hmap, Option.map_some], ?_⟩
  simp only [List.all_map, List.all_eq_true, Function.comp_apply, id_eq]
  refine forall₂_congr fun t ht => ?_
  conv_rhs => rw [hget t ht, Option.some.injEq]

/-! ## tokens -/

def Term.tokens : Term → List Tok
  | .flag c v => [.word c, .op [ '=' ], .word v]
  | .cmp c o n => [.word c, .op o, .number n]
  | .between c n m => [.word c, wordBetween, .number n, wordAnd, .number m]
  | .mask c n b => [.word c, .op [ '&' ], .number n, .op [ '>' ], .number b]

/-- A comparison is no bit operation. -/
def Term.Proper : Term → Prop
  | .cmp _ o _ => o ≠ [ '&' ]
  | _ => True

theorem readTerm_tokens {t : Term} (h : t.Proper) (ts : List Tok) :
    readTerm (t.tokens ++ ts) = some (t, ts) := by
  cases t with
  | flag c v => rfl
  | cmp c o n => exact if_neg h
  | between c n m => rfl
  | mask c n b => rfl

/-- Comparisons behind the first. -/
def moreTokens (ts : List Term) : List Tok := ts.flatMap fun u => wordAnd :: u.tokens

theorem readTerms_tokens {t : Term} {ts : List Term} (h : ∀ u ∈ t :: ts, u.Proper) {k : Nat}
    (hk : ts.length < k) :
    readTerms k (t.tokens ++ moreTokens ts ++ [.op [ ')' ]]) = some (t :: ts) := by
  obtain ⟨k, rfl⟩ := Nat.exists_eq_add_one_of_ne_zero (Nat.ne_zero_of_lt hk)
  induction ts generalizing t k with
  | nil =>
      rw [readTerms, List.append_assoc, readTerm_tokens (h t List.mem_cons_self)]
      rfl
  | cons u ts ih =>
      rw [List.length_cons] at hk
      obtain ⟨k, rfl⟩ := Nat.exists_eq_add_one_of_ne_zero (n := k) (by omega)
      have hrest := ih (t := u) (fun v hv => h v (List.mem_cons_of_mem t hv)) k (by omega)
      rw [readTerms, List.append_assoc, readTerm_tokens (h t List.mem_cons_self), moreTokens,
        List.flatMap_cons, List.append_assoc, List.cons_append]
      simp only [if_true]
      rw [← List.append_assoc, ← moreTokens, hrest]
      rfl

/-- A query, in front of the tokens of its condition. -/
def headTokens (name column table : Text) : List Tok :=
  [.word "WITH".toList, .word name, .word "AS".toList, .op [ '(' ], .word "SELECT".toList,
    .word column, .word "FROM".toList, .word table, .word "WHERE".toList]

theorem readQuery_tokens (name column table : Text) {t : Term} {ts : List Term}
    (h : ∀ u ∈ t :: ts, u.Proper) :
    readQuery (headTokens name column table ++ (t.tokens ++ moreTokens ts ++ [.op [ ')' ]])) =
      some ⟨name, column, table, t :: ts⟩ := by
  have hmore : ts.length ≤ (moreTokens ts).length := by
    clear h
    induction ts with
    | nil => exact Nat.le_refl 0
    | cons u ts ih =>
        rw [moreTokens, List.flatMap_cons, List.length_append, List.length_cons, List.length_cons,
          ← moreTokens]
        omega
  have hlen : ts.length < (t.tokens ++ moreTokens ts ++ [Tok.op [ ')' ]]).length := by
    simp only [List.length_append, List.length_cons]
    omega
  unfold headTokens
  simp only [readQuery, List.cons_append, List.nil_append, and_self, if_true,
    readTerms_tokens h hlen, Option.map_some]

/-! ## the tokens of a text -/

/-- The text has these tokens behind every token that a break ends. -/
def Yields (s : Text) (ts : List Tok) : Prop :=
  ∀ m : Mode, m.opens = true →
    ∃ l m', run m s = some (l, m') ∧ m'.opens = true ∧ l ++ pending m' = pending m ++ ts

variable {s x : Text} {ts us : List Tok}

theorem yields_nil : Yields [] [] := fun m hm => ⟨[], m, rfl, hm, by simp⟩

theorem Yields.append (hs : Yields s ts) (hx : Yields x us) : Yields (s ++ x) (ts ++ us) := by
  intro m hm
  obtain ⟨l, m₁, hrun, hm₁, hl⟩ := hs m hm
  obtain ⟨k, m₂, hrun₂, hm₂, hk⟩ := hx m₁ hm₁
  refine ⟨l ++ k, m₂, ?_, hm₂, ?_⟩
  · rw [run_append, hrun, Option.bind_some, hrun₂]
    rfl
  · rw [List.append_assoc, hk, ← List.append_assoc, hl, List.append_assoc]

/-- White space ends the token before it. -/
theorem yields_space {l : List Tok} {m' : Mode} (h : run .start s = some (l, m'))
    (hm' : m'.opens = true) : Yields (' ' :: s) (l ++ pending m') := by
  intro m hm
  have hstep : step m ' ' = (pending m, .start) := by
    rw [step_separator hm (.inr (by decide)), show stepStart ' ' = ([], .start) by decide,
      List.append_nil]
  refine ⟨pending m ++ l, m', ?_, hm', by rw [List.append_assoc]⟩
  simp only [run, hstep, h, Option.map_some]

theorem yields_number (n : Nat) : Yields (' ' :: decimal n) [.number (decimal n)] :=
  yields_space (run_decimal n) rfl

/-- A closing parenthesis is a token of its own. -/
theorem yields_close : Yields [ ')' ] [.op [ ')' ]] := by
  intro m hm
  have hstep : step m ')' = (pending m ++ [.op [ ')' ]], .start) := by
    rw [step_separator hm (.inr (by decide)), show stepStart ')' = ([.op [ ')' ]], .start) by decide]
  refine ⟨pending m ++ [.op [ ')' ]], .start, ?_, rfl, by simp [pending]⟩
  rw [run, hstep]
  simp [run]

theorem yields_flatMap {α : Type} {f : α → Text} {g : α → List Tok} {l : List α}
    (h : ∀ a ∈ l, Yields (f a) (g a)) : Yields (l.flatMap f) (l.flatMap g) := by
  induction l with
  | nil => exact yields_nil
  | cons a l ih =>
      rw [List.flatMap_cons, List.flatMap_cons]
      exact (h a List.mem_cons_self).append (ih fun b hb => h b (List.mem_cons_of_mem a hb))

/-- A text from its start, and what follows it. -/
theorem lex_of_yields {other : Text → Text → Option (Option Text × Nat)} {l : List Tok} {m : Mode}
    (h : run .start s = some (l, m)) (hm : m.opens = true) (hx : Yields x us) :
    lex other (s ++ x) = some (l ++ pending m ++ us) := by
  obtain ⟨k, m', hrun, hm', hk⟩ := hx m hm
  rw [lex, lexFrom_append h, ← List.append_nil x, lexFrom_append hrun, lexFrom,
    finish_of_opens hm', Option.map_some, Option.map_some, hk, List.append_assoc]

end SqlWhere
