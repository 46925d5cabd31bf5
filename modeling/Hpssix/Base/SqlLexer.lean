import Hpssix.Base.CText
import Hpssix.Base.Sql

/-!
# Base.SqlLexer

The lexical rules of PostgreSQL for the constructs that simple queries are made
of: white space, words, numbers, operators and string literals, which may
continue on a later line.  Every other construct (a comment, a quoted
identifier, the other kinds of string constants, …) is read by a parameter:
`other s t` is about the construct that begins with `s` and goes on with `t`, and
gives its token, if it has one, and how many characters it takes after the
first of `t`.  Conforming strings are assumed: in a literal only the quote is
special.

* `lexFrom_cost` — literals cost characters: two quotes each, and two for
  every quote in them;
* `lexFrom_outs` — text made of fixed pieces and literals has the tokens of the
  pieces, whatever is in the literals;
* `lexFrom_held` — a quote in the content of a literal was written twice.
-/

namespace SqlLexer

open CText Sql Doubling

/-- A token. -/
inductive Tok where
  | word (s : Text)
  | number (s : Text)
  | op (s : Text)
  | literal (v : Text)
  | extra (e : Text)
deriving DecidableEq

/-- Where in a token the lexer is.  A literal that is closed can go on behind a
newline (`gap`), also with comments between (`dash`, `remark`). -/
inductive Mode where
  | start
  | word (s : Text)
  | number (s : Text)
  | op (s : Text)
  | dot
  | literal (v : Text)
  | closing (v : Text)
  | gap (v : Text) (newline : Bool)
  | dash (v : Text)
  | remark (v : Text)
  | skip (n : Nat)
  | special (s : Text)
deriving DecidableEq

/-! ## the lexer -/

/-- Characters that begin an identifier. -/
def isWordStart (c : Char) : Bool := c.isAlpha || c = '_'

/-- Characters that go on in an identifier, but not in one that is read here. -/
def isForeign (c : Char) : Bool := c = '$' || 128 ≤ c.toNat

/-- Characters that are tokens of their own. -/
def isSelf (c : Char) : Bool := c = ',' || c = '(' || c = ')' || c = ';'

/-- Characters of the operators that are read here. -/
def isOp (c : Char) : Bool :=
  c = '<' || c = '>' || c = '=' || c = '&' || c = '@' || c = '-'

/-- The other characters of operators. -/
def isOtherOp (c : Char) : Bool :=
  c = '+' || c = '*' || c = '/' || c = '~' || c = '!' || c = '#' || c = '%' || c = '^' || c = '|' ||
    c.toNat = 96 || c = '?'

/-- The words that make the quote behind them the start of another kind of string
constant. -/
def isStringPrefix (s : Text) : Bool :=
  s = ['e'] || s = ['E'] || s = ['b'] || s = ['B'] || s = ['x'] || s = ['X'] || s = ['n'] || s = ['N']

/-- A token ends before the character that is read next. -/
def flush (t : Tok) (next : List Tok × Mode) : List Tok × Mode := (t :: next.1, next.2)

/-- A character at the start of a token. -/
def stepStart (c : Char) : List Tok × Mode :=
  if isSpace c then ([], .start)
  else if c = quoteChar then ([], .literal [])
  else if c.isDigit then ([], .number [c])
  else if isWordStart c then ([], .word [c])
  else if c = '.' then ([], .dot)
  else if isSelf c then ([.op [c]], .start)
  else if isOp c then ([], .op [c])
  else ([], .special [])

/-- A character behind part of an operator. -/
def stepOp (s : Text) (c : Char) : List Tok × Mode :=
  if isOp c then
    if c = '-' ∨ s = ['-'] then ([], .special s) else ([], .op (s ++ [c]))
  else if isOtherOp c then ([], .special s)
  else flush (.op s) (stepStart c)

/-- A character behind a literal that was closed. -/
def stepGap (v : Text) (newline : Bool) (c : Char) : List Tok × Mode :=
  if c = '\n' ∨ c = '\r' then ([], .gap v true)
  else if isSpace c then ([], .gap v newline)
  else if c = '-' then ([], .dash v)
  else flush (.literal v) (stepStart c)

/-- The tokens that a character completes, and the mode after it. -/
def step : Mode → Char → List Tok × Mode
  | .start, c => stepStart c
  | .word s, c =>
    if isWordStart c || c.isDigit then ([], .word (s ++ [c]))
    else if isForeign c || (c = quoteChar && isStringPrefix s) ||
        (c = '&' && (s = ['u'] || s = ['U'])) then ([], .special s)
    else flush (.word s) (stepStart c)
  | .number s, c =>
    if c.isDigit || (c = '.' && '.' ∉ s) then ([], .number (s ++ [c]))
    else if c = '.' || isWordStart c || isForeign c then ([], .special s)
    else flush (.number s) (stepStart c)
  | .op s, c => stepOp s c
  | .dot, c => if c.isDigit || c = '.' then ([], .special ['.']) else flush (.op ['.']) (stepStart c)
  | .literal v, c => if c = quoteChar then ([], .closing v) else ([], .literal (v ++ [c]))
  | .closing v, c => if c = quoteChar then ([], .literal (v ++ [c])) else stepGap v false c
  | .gap v newline, c =>
    if c = quoteChar ∧ newline = true then ([], .literal v) else stepGap v newline c
  | .dash v, c =>
    if c = '-' then ([], .remark v) else flush (.literal v) (stepOp ['-'] c)
  | .remark v, c => if c = '\n' ∨ c = '\r' then ([], .gap v true) else ([], .remark v)
  | .skip 0, c => stepStart c
  | .skip (n + 1), _ => ([], .skip n)
  | .special s, _ => ([], .special s)

/-- The token that a mode has begun. -/
def pending : Mode → List Tok
  | .word s => [.word s]
  | .number s => [.number s]
  | .op s => [.op s]
  | .dot => [.op ['.']]
  | .closing v => [.literal v]
  | .gap v _ => [.literal v]
  | .dash v => [.literal v, .op ['-']]
  | .remark v => [.literal v]
  | _ => []

/-- The tokens at the end of the text; a literal must be closed. -/
def finish : Mode → Option (List Tok)
  | .literal _ => none
  | .skip (_ + 1) => none
  | .special _ => none
  | m => some (pending m)

/-- The tokens of the rest of a text. -/
def lexFrom (other : Text → Text → Option (Option Text × Nat)) : Mode → Text → Option (List Tok)
  | m, [] => finish m
  | m, c :: cs =>
    match step m c with
    | (t, .special s) =>
      match other s (c :: cs) with
      | some (e, n) => (lexFrom other (.skip n) cs).map (t ++ e.toList.map .extra ++ ·)
      | none => none
    | (t, m') => (lexFrom other m' cs).map (t ++ ·)

/-- The tokens of a text. -/
def lex (other : Text → Text → Option (Option Text × Nat)) (s : Text) : Option (List Tok) :=
  lexFrom other .start s

/-- The literals among tokens. -/
def literals (l : List Tok) : List Text :=
  l.filterMap fun
    | .literal v => some v
    | _ => none

/-- The tokens without what is in the literals. -/
def skeleton (l : List Tok) : List Tok :=
  l.map fun
    | .literal _ => .literal []
    | t => t

/-! ## what literals cost -/

section Cost
@[simp] theorem literals_nil : literals ([] : List Tok) = [] := rfl

@[simp] theorem literals_append (s t : List Tok) :
    literals (s ++ t) = literals s ++ literals t := List.filterMap_append

@[simp] theorem literals_extra (s : List Text) : literals (s.map Tok.extra) = [] := by
  induction s with
  | nil => rfl
  | cons e s ih => exact ih

@[simp] theorem literals_literal (v : Text) (s : List Tok) :
    literals (.literal v :: s) = v :: literals s := rfl

/-- What literals cost: `per` each, and what their characters cost. -/
def cost (per : Nat) (content : Char → Nat) (l : List Text) : Nat :=
  (l.map fun v => per + (v.map content).sum).sum

@[simp] theorem cost_append (per : Nat) (content : Char → Nat) (s t : List Text) :
    cost per content (s ++ t) = cost per content s + cost per content t := by
  simp [cost]

@[simp] theorem cost_cons (per : Nat) (content : Char → Nat) (v : Text) (s : List Text) :
    cost per content (v :: s) = per + (v.map content).sum + cost per content s := by
  simp [cost]

@[simp] theorem cost_nil (per : Nat) (content : Char → Nat) : cost per content [] = 0 := rfl

/-- What a mode has paid for its literal: the quotes and the characters. -/
def Mode.paid (quote : Nat) (content : Char → Nat) : Mode → Nat
  | .literal v => quote + (v.map content).sum
  | .closing v => 2 * quote + (v.map content).sum
  | .gap v _ => 2 * quote + (v.map content).sum
  | .dash v => 2 * quote + (v.map content).sum
  | .remark v => 2 * quote + (v.map content).sum
  | _ => 0

variable {per : Nat} {content raw : Char → Nat}

/-- Prices at which literals are paid for by the characters they are written with. -/
structure Fair (per : Nat) (content raw : Char → Nat) : Prop where
  per : per ≤ 2 * raw quoteChar
  quote : content quoteChar ≤ 2 * raw quoteChar
  char : ∀ c, c ≠ quoteChar → content c ≤ raw c

/-- What the tokens of a step cost and its mode has paid. -/
def price (per : Nat) (content raw : Char → Nat) (r : List Tok × Mode) : Nat :=
  cost per content (literals r.1) + r.2.paid (raw quoteChar) content

@[simp] theorem price_mode (m : Mode) :
    price per content raw (([], m) : List Tok × Mode) = m.paid (raw quoteChar) content :=
  Nat.zero_add _

/-- The tokens that a character completes are paid for by the text in front of it. -/
theorem price_flush (t : Tok) (next : List Tok × Mode) :
    price per content raw (flush t next) =
      cost per content (literals [t]) + price per content raw next := by
  rw [price, price, flush, ← Nat.add_assoc, ← cost_append, ← literals_append]
  rfl

/-- A step at the start of a token. -/
theorem price_stepStart (c : Char) :
    price per content raw (stepStart c : List Tok × Mode) ≤ raw c := by
  unfold stepStart
  split_ifs with h₁ h₂
  · exact Nat.zero_le _
  · subst h₂
    exact (Nat.zero_add _).le
  all_goals exact Nat.zero_le _

/-- A character that starts something costs no more than it is. -/
theorem price_flush_stepStart {t : Tok} (ht : literals [t] = []) (c : Char) :
    price per content raw (flush t (stepStart c)) ≤ raw c := by
  rw [price_flush, ht, cost_nil, Nat.zero_add]
  exact price_stepStart c

/-- A step in an operator. -/
theorem price_stepOp (s : Text) (c : Char) :
    price per content raw (stepOp s c : List Tok × Mode) ≤ raw c := by
  unfold stepOp
  split_ifs
  · exact Nat.zero_le _
  · exact Nat.zero_le _
  · exact Nat.zero_le _
  · exact price_flush_stepStart rfl c

/-- A literal is paid for when it is closed. -/
theorem price_flush_literal (h : Fair per content raw) {v : Text} {next : List Tok × Mode}
    {k : Nat} (hnext : price per content raw next ≤ k) :
    price per content raw (flush (.literal v) next) ≤
      2 * raw quoteChar + (v.map content).sum + k := by
  have hper := h.per
  rw [price_flush, literals_literal, cost_cons, literals_nil, cost_nil]
  omega

/-- A step behind a closed literal. -/
theorem price_stepGap (h : Fair per content raw) (v : Text) (newline : Bool) (c : Char) :
    price per content raw (stepGap v newline c : List Tok × Mode) ≤
      2 * raw quoteChar + (v.map content).sum + raw c := by
  unfold stepGap
  split_ifs
  · exact (price_mode _).trans_le (Nat.le_add_right _ _)
  · exact (price_mode _).trans_le (Nat.le_add_right _ _)
  · exact (price_mode _).trans_le (Nat.le_add_right _ _)
  · exact price_flush_literal h (price_stepStart c)

/-- **One step** pays for the literals it completes. -/
theorem price_step (h : Fair per content raw) (m : Mode) (c : Char) :
    price per content raw (step m c : List Tok × Mode) ≤
      m.paid (raw quoteChar) content + raw c := by
  have hquote := h.quote
  cases m with
  | start => exact (price_stepStart c).trans (Nat.le_add_left _ _)
  | word s =>
      rw [step]
      split_ifs
      · exact Nat.zero_le _
      · exact Nat.zero_le _
      · exact (price_flush_stepStart rfl c).trans (Nat.le_add_left _ _)
  | number s =>
      rw [step]
      split_ifs
      · exact Nat.zero_le _
      · exact Nat.zero_le _
      · exact (price_flush_stepStart rfl c).trans (Nat.le_add_left _ _)
  | op s => exact (price_stepOp s c).trans (Nat.le_add_left _ _)
  | dot =>
      rw [step]
      split_ifs
      · exact Nat.zero_le _
      · exact (price_flush_stepStart rfl c).trans (Nat.le_add_left _ _)
  | literal v =>
      rw [step]
      split_ifs with hc
      · subst hc
        simp only [price_mode, Mode.paid]
        omega
      · have hchar := h.char c hc
        simp only [price_mode, Mode.paid, List.map_append, List.sum_append, List.map_cons,
          List.map_nil, List.sum_cons, List.sum_nil]
        omega
  | closing v =>
      rw [step]
      split_ifs with hc
      · subst hc
        simp only [price_mode, Mode.paid, List.map_append, List.sum_append, List.map_cons,
          List.map_nil, List.sum_cons, List.sum_nil]
        omega
      · exact price_stepGap h v false c
  | gap v newline =>
      rw [step]
      split_ifs with hc
      · simp only [price_mode, Mode.paid]
        omega
      · exact price_stepGap h v newline c
  | dash v =>
      rw [step]
      split_ifs
      · exact (price_mode _).trans_le (Nat.le_add_right _ _)
      · exact price_flush_literal h (price_stepOp _ c)
  | remark v =>
      rw [step]
      split_ifs
      · exact (price_mode _).trans_le (Nat.le_add_right _ _)
      · exact (price_mode _).trans_le (Nat.le_add_right _ _)
  | skip n =>
      cases n with
      | zero => exact (price_stepStart c).trans (Nat.le_add_left _ _)
      | succ n => exact Nat.zero_le _
  | special s => exact Nat.zero_le _

/-- At the end of the text the literal is paid for. -/
theorem cost_finish (h : Fair per content raw) {m : Mode} {l : List Tok} (hl : finish m = some l) :
    cost per content (literals l) ≤ m.paid (raw quoteChar) content := by
  have hper := h.per
  have hclosed : ∀ (v : Text) (t : List Tok), literals t = [] →
      cost per content (literals (.literal v :: t)) ≤ 2 * raw quoteChar + (v.map content).sum := by
    intro v t ht
    rw [literals_literal, cost_cons, ht, cost_nil]
    omega
  cases m with
  | literal v => contradiction
  | skip n =>
      cases n with
      | zero => exact (Option.some.inj hl) ▸ Nat.zero_le _
      | succ n => contradiction
  | special s => contradiction
  | closing v => exact (Option.some.inj hl) ▸ hclosed v [] rfl
  | gap v _ => exact (Option.some.inj hl) ▸ hclosed v [] rfl
  | dash v => exact (Option.some.inj hl) ▸ hclosed v [.op ['-']] rfl
  | remark v => exact (Option.some.inj hl) ▸ hclosed v [] rfl
  | _ => exact (Option.some.inj hl) ▸ Nat.zero_le _

/-- **A text** pays for its literals. -/
theorem lexFrom_cost (h : Fair per content raw) {other : Text → Text → Option (Option Text × Nat)}
    {m : Mode} {s : Text} {l : List Tok} (hl : lexFrom other m s = some l) :
    cost per content (literals l) ≤ m.paid (raw quoteChar) content + (s.map raw).sum := by
  induction s generalizing m l with
  | nil => exact (cost_finish h hl).trans (Nat.le_add_right _ _)
  | cons c cs ih =>
      have hstep := price_step h m c
      rw [lexFrom] at hl
      rw [List.map_cons, List.sum_cons]
      split at hl
      · next t s hs =>
          simp only [hs, price] at hstep
          split at hl
          · next e n ho =>
              obtain ⟨l', hl', rfl⟩ := Option.map_eq_some_iff.mp hl
              have hrest := ih hl'
              simp only [Mode.paid, literals_append, literals_extra, List.append_nil, cost_append,
                Nat.zero_add, Nat.add_zero] at hrest hstep ⊢
              omega
          · contradiction
      · next t m' _ hs =>
          simp only [hs, price] at hstep
          obtain ⟨l', hl', rfl⟩ := Option.map_eq_some_iff.mp hl
          have hrest := ih hl'
          rw [literals_append, cost_append]
          omega

/-- Costs that are bounded one by one agree if they do so in total. -/
theorem eq_of_sum_le {α : Type _} {l : List α} {f g : α → Nat} (hle : ∀ a ∈ l, g a ≤ f a) :
    (l.map g).sum ≤ (l.map f).sum ∧ ((l.map f).sum ≤ (l.map g).sum → ∀ a ∈ l, g a = f a) := by
  induction l with
  | nil => simp
  | cons a l ih =>
      obtain ⟨ha, hl⟩ := List.forall_mem_cons.mp hle
      obtain ⟨hsum, heq⟩ := ih hl
      simp only [List.map_cons, List.sum_cons, List.forall_mem_cons]
      refine ⟨by omega, fun h => ⟨by omega, heq (by omega)⟩⟩

theorem sum_map_filter {α : Type _} (l : List α) (k : α → Bool) (g : α → Nat) :
    ((l.filter k).map g).sum = (l.map fun a => if k a then g a else 0).sum := by
  induction l with
  | nil => rfl
  | cons a l ih =>
      rw [List.filter_cons, List.map_cons, List.sum_cons, ← ih]
      split
      · rw [List.map_cons, List.sum_cons]
      · rw [Nat.zero_add]

theorem sum_map_ite (n : Nat) (c : Char) (s : Text) :
    (s.map fun d => if d = c then n else 0).sum = n * s.count c := by
  induction s with
  | nil => simp
  | cons d s ih =>
      rw [List.map_cons, List.sum_cons, ih]
      by_cases hd : d = c
      · subst hd
        rw [if_pos rfl, List.count_cons_self, Nat.mul_add_one, Nat.add_comm]
      · rw [if_neg hd, List.count_cons_of_ne hd, Nat.zero_add]

/-- Literals need two quotes each, and two for every quote in them. -/
theorem lex_quotes {other : Text → Text → Option (Option Text × Nat)} {s : Text} {l : List Tok}
    (h : lex other s = some l) :
    ((literals l).map fun v => 2 + 2 * v.count quoteChar).sum ≤ s.count quoteChar := by
  have hfair : Fair 2 (fun c => if c = quoteChar then 2 else 0)
      (fun c => if c = quoteChar then 1 else 0) :=
    ⟨by simp, by simp, fun c hc => by simp [hc]⟩
  have hcost := lexFrom_cost hfair h
  simpa only [cost, sum_map_ite, Mode.paid, Nat.zero_add, Nat.one_mul] using hcost

/-- Every other character of a literal is in the text. -/
theorem lex_count {other : Text → Text → Option (Option Text × Nat)} {s : Text} {l : List Tok}
    (h : lex other s = some l) {c : Char} (hc : c ≠ quoteChar) :
    ((literals l).map fun v => v.count c).sum ≤ s.count c := by
  have hfair : Fair 0 (fun d => if d = c then 1 else 0) (fun d => if d = c then 1 else 0) :=
    ⟨Nat.zero_le _, by simp [hc.symm], fun _ _ => Nat.le_refl _⟩
  have hcost := lexFrom_cost hfair h
  simpa only [cost, sum_map_ite, Mode.paid, Nat.zero_add, Nat.one_mul] using hcost

end Cost

/-! ## fixed text and literals -/

/-- Behind such a token a quote opens a literal. -/
def Mode.opens : Mode → Bool
  | .start => true
  | .word s => !isStringPrefix s
  | .number _ => true
  | .op _ => true
  | .dot => true
  | _ => false

/-- Characters that end the token before them. -/
def breakChars : Text := [' ', '\n', ',', '(', ')', ';']

/-- The mode and the tokens after a text, if it has only constructs that are read
here. -/
def run : Mode → Text → Option (List Tok × Mode)
  | m, [] => some ([], m)
  | m, c :: cs =>
    match step m c with
    | (_, .special _) => none
    | (t, m') => (run m' cs).map fun r => (t ++ r.1, r.2)

/-- A piece of a text. -/
inductive Piece where
  | text (s : Text)
  | literal (v : Text)

/-- How a piece is written. -/
def Piece.out : Piece → Text
  | .text s => s
  | .literal v => quote v

/-- The literal of a piece. -/
def Piece.content? : Piece → Option Text
  | .text _ => none
  | .literal v => some v

/-- A piece without what is in its literal. -/
def Piece.blank : Piece → Piece
  | .text s => .text s
  | .literal _ => .literal []

/-- Text without quotes and percents. -/
def Bare (s : Text) : Prop := ∀ c ∈ s, c ≠ quoteChar ∧ c ≠ '%'

instance (s : Text) : Decidable (Bare s) := List.decidableBAll _ s

/-- Text that is read the same behind every token and before every literal. -/
def Fixed (s : Text) : Prop :=
  Bare s ∧
    s.head?.any (fun c => c ∈ breakChars) = true ∧
    (s.dropWhile isSpace).head?.any (fun c => c ≠ quoteChar ∧ c ≠ '-') = true ∧
    (run .start s).any (fun r => r.2.opens && literals r.1 = []) = true

instance (s : Text) : Decidable (Fixed s) := inferInstanceAs (Decidable (_ ∧ _ ∧ _ ∧ _))

/-- Fixed text that ends its last token. -/
def Delimited (s : Text) : Prop := Fixed s ∧ (run .start s).map Prod.snd = some .start

instance (s : Text) : Decidable (Delimited s) := inferInstanceAs (Decidable (_ ∧ _))

/-- Pieces that are read one by one: no literal is first or behind another, and
at the end a blank may stand. -/
inductive Readable : List Piece → Prop
  | nil : Readable []
  | blank : Readable [.text [' ']]
  | text {s : Text} {ps : List Piece} : Fixed s → Readable ps → Readable (.text s :: ps)
  | literal {v s : Text} {ps : List Piece} :
      Readable (.text s :: ps) → Readable (.literal v :: .text s :: ps)

/-- The tokens of pieces, with nothing in the literals. -/
def shape : Mode → List Piece → List Tok
  | m, [] => pending m
  | m, .text s :: ps =>
    match run m s with
    | some (t, m') => t ++ shape m' ps
    | none => []
  | m, .literal _ :: ps => pending m ++ .literal [] :: shape .start ps

section Pieces
variable {other : Text → Text → Option (Option Text × Nat)} {m m' : Mode} {s x v : Text}
  {t : List Tok}

/-- A quote or a break ends the token before it. -/
theorem step_separator (hm : m.opens = true) {c : Char} (hc : c = quoteChar ∨ c ∈ breakChars) :
    step m c = (pending m ++ (stepStart c).1, (stepStart c).2) := by
  obtain ⟨hdigit, hword, hforeign, hop, hother, hamp, hdot⟩ : c.isDigit = false ∧
      isWordStart c = false ∧ isForeign c = false ∧ isOp c = false ∧ isOtherOp c = false ∧
      c ≠ '&' ∧ c ≠ '.' := by
    simp only [breakChars, List.mem_cons, List.not_mem_nil, or_false] at hc
    obtain rfl | rfl | rfl | rfl | rfl | rfl | rfl := hc <;> decide
  cases m with
  | start => rfl
  | word s =>
      have hs : isStringPrefix s = false := by simpa [Mode.opens] using hm
      simp [step, hdigit, hword, hforeign, hamp, hs, flush, pending]
  | number s => simp [step, hdigit, hword, hforeign, hdot, flush, pending]
  | op s => simp [step, stepOp, hop, hother, flush, pending]
  | dot => simp [step, hdigit, hdot, flush, pending]
  | _ => contradiction

/-- Where a literal can begin, a quote begins one. -/
theorem step_quote (hm : m.opens = true) : step m quoteChar = (pending m, .literal []) := by
  rw [step_separator hm (.inl rfl), show stepStart quoteChar = ([], .literal []) by decide,
    List.append_nil]

/-- What is pending where a literal can begin is no literal. -/
theorem literals_pending (hm : m.opens = true) : literals (pending m) = [] := by
  cases m <;> first | rfl | contradiction

/-- A text may end where a literal can begin. -/
theorem finish_of_opens (hm : m.opens = true) : finish m = some (pending m) := by
  cases m <;> first | rfl | contradiction

/-! ## runs -/

/-- Reading a text is reading its parts one after the other. -/
theorem run_append (s x : Text) :
    run m (s ++ x) = (run m s).bind fun r => (run r.2 x).map fun r' => (r.1 ++ r'.1, r'.2) := by
  induction s generalizing m with
  | nil => simp [run]
  | cons c s ih =>
      rw [List.cons_append, run, run]
      split
      · rfl
      · rw [ih]
        cases run _ s with
        | none => rfl
        | some r => simp [Option.map_map, Function.comp_def, List.append_assoc]

/-- What is read here does not depend on the text behind it. -/
theorem lexFrom_append (h : run m s = some (t, m')) :
    lexFrom other m (s ++ x) = (lexFrom other m' x).map (t ++ ·) := by
  induction s generalizing m t with
  | nil =>
      obtain ⟨rfl, rfl⟩ := Prod.mk.inj (Option.some.inj h)
      simp
  | cons c s ih =>
      rw [run] at h
      rw [List.cons_append, lexFrom]
      generalize step m c = r at h ⊢
      obtain ⟨t', m₁⟩ := r
      cases m₁ with
      | special _ => contradiction
      | _ =>
          obtain ⟨r, hr, heq⟩ := Option.map_eq_some_iff.mp h
          obtain ⟨rfl, rfl⟩ := Prod.mk.inj heq
          simp [ih hr, Option.map_map, Function.comp_def, List.append_assoc]

/-! ## literals -/

/-- A step that begins no special construct. -/
theorem lexFrom_cons {c : Char} (h : step m c = (t, m')) (hs : ∀ s, m' ≠ .special s) :
    lexFrom other m (c :: x) = (lexFrom other m' x).map (t ++ ·) := by
  refine lexFrom_append (s := [c]) ?_
  rw [run, h]
  cases m' with
  | special s => exact absurd rfl (hs s)
  | _ => simp [run]

/-- A step that completes no token. -/
theorem lexFrom_cons_silent {c : Char} (h : step m c = ([], m')) (hs : ∀ s, m' ≠ .special s) :
    lexFrom other m (c :: x) = lexFrom other m' x := by
  rw [lexFrom_cons h hs]
  exact Option.map_id'

/-- A quote inside a literal may close it. -/
theorem step_literal_quote (v : Text) : step (.literal v) quoteChar = ([], .closing v) := by
  rw [step, if_pos rfl]

/-- Any other character inside a literal belongs to it. -/
theorem step_literal_char (v : Text) {c : Char} (hc : c ≠ quoteChar) :
    step (.literal v) c = ([], .literal (v ++ [c])) := by
  rw [step, if_neg hc]

/-- A second quote is a quote inside the literal. -/
theorem step_closing_quote (v : Text) :
    step (.closing v) quoteChar = ([], .literal (v ++ [quoteChar])) := by
  rw [step, if_pos rfl]

/-- The inside of a literal. -/
theorem lexFrom_double (v x : Text) :
    lexFrom other (.literal s) (double (· = quoteChar) v ++ x) = lexFrom other (.literal (s ++ v)) x := by
  induction v generalizing s with
  | nil => simp
  | cons c v ih =>
      rw [double_cons]
      by_cases hc : c = quoteChar
      · subst hc
        rw [if_pos rfl, List.append_assoc, List.cons_append, List.cons_append, List.nil_append,
          lexFrom_cons_silent (step_literal_quote s) (fun _ => Mode.noConfusion),
          lexFrom_cons_silent (step_closing_quote s) (fun _ => Mode.noConfusion), ih,
          List.append_assoc, List.singleton_append]
      · rw [if_neg hc, List.append_assoc, List.singleton_append,
          lexFrom_cons_silent (step_literal_char s hc) (fun _ => Mode.noConfusion), ih,
          List.append_assoc, List.singleton_append]

/-- **A literal**, up to its closing quote. -/
theorem lexFrom_quote (hm : m.opens = true) (v x : Text) :
    lexFrom other m (quote v ++ x) = (lexFrom other (.closing v) x).map (pending m ++ ·) := by
  rw [quote_eq, List.cons_append, lexFrom_cons (step_quote hm) (fun _ => Mode.noConfusion),
    List.append_assoc, lexFrom_double, List.nil_append, List.singleton_append,
    lexFrom_cons_silent (step_literal_quote v) (fun _ => Mode.noConfusion)]

/-- White space behind a literal. -/
theorem step_gap_space {newline : Bool} {c : Char} (hc : isSpace c = true) :
    ∃ newline', step (.gap v newline) c = ([], .gap v newline') := by
  have hq : c ≠ quoteChar := by
    rintro rfl
    exact absurd hc (by decide)
  rw [step, if_neg fun h => hq h.1, stepGap]
  split
  · exact ⟨true, rfl⟩
  · exact ⟨newline, rfl⟩

/-- Other text behind a literal. -/
theorem step_gap_text {newline : Bool} {c : Char} (hc : isSpace c = false) (hq : c ≠ quoteChar)
    (hdash : c ≠ '-') : step (.gap v newline) c = flush (.literal v) (stepStart c) := by
  have hnl : ¬ (c = '\n' ∨ c = '\r') := by
    rintro (rfl | rfl)
    · exact absurd hc (by decide)
    · exact absurd hc (by decide)
  rw [step, if_neg fun h => hq h.1, stepGap, if_neg hnl, if_neg (by simp [hc]), if_neg hdash]

/-- Behind a literal that is not continued. -/
theorem lexFrom_gap {newline : Bool}
    (hx : ∀ c, (x.dropWhile isSpace).head? = some c → c ≠ quoteChar ∧ c ≠ '-') :
    lexFrom other (.gap v newline) x = (lexFrom other .start x).map (.literal v :: ·) := by
  induction x generalizing newline with
  | nil => rfl
  | cons c x ih =>
      by_cases hc : isSpace c = true
      · rw [List.dropWhile_cons_of_pos hc] at hx
        have hstart : stepStart c = ([], .start) := if_pos hc
        obtain ⟨newline', hgap⟩ : ∃ n, step (.gap v newline) c = ([], .gap v n) := step_gap_space hc
        rw [lexFrom_cons_silent hgap (fun _ => Mode.noConfusion),
          lexFrom_cons_silent (m := .start) hstart (fun _ => Mode.noConfusion), ih hx]
      · rw [List.dropWhile_cons_of_neg hc] at hx
        obtain ⟨hq, hdash⟩ := hx c rfl
        rw [lexFrom, lexFrom, step_gap_text (Bool.not_eq_true _ ▸ hc) hq hdash,
          show step .start c = stepStart c from rfl, flush]
        obtain ⟨t, m'⟩ := stepStart c
        cases m' with
        | special s =>
            simp only
            cases other s (c :: x) with
            | none => rfl
            | some r => simp [Option.map_map, Function.comp_def]
        | _ => simp [Option.map_map, Function.comp_def]

/-- A literal that is closed is a token, unless a quote or a remark follows. -/
theorem lexFrom_closing
    (hx : ∀ c, (x.dropWhile isSpace).head? = some c → c ≠ quoteChar ∧ c ≠ '-') :
    lexFrom other (.closing v) x = (lexFrom other .start x).map (.literal v :: ·) := by
  have hgap : lexFrom other (.gap v false) x = _ := lexFrom_gap hx
  rw [← hgap]
  cases x with
  | nil => rfl
  | cons c x =>
      have hq : c ≠ quoteChar := by
        rintro rfl
        exact (hx quoteChar rfl).1 rfl
      have hstep : step (.closing v) c = step (.gap v false) c := by
        rw [step, step, if_neg hq, if_neg fun h => hq h.1]
      rw [lexFrom, lexFrom, hstep]

/-! ## fixed text -/

/-- Text without quotes that is read as tokens of its own at the start of a
token. -/
def Plain (s : Text) : Prop :=
  Bare s ∧
    (run .start s).any (fun r => r.2.opens && literals r.1 = []) = true

theorem Fixed.plain (h : Fixed s) : Plain s := ⟨h.1, h.2.2.2⟩

/-- A plain text is read without a literal, up to where one can begin. -/
theorem Plain.reads (h : Plain s) :
    ∃ t m', run .start s = some (t, m') ∧ m'.opens = true ∧ literals t = [] := by
  have hany := h.2
  cases hr : run .start s with
  | none => simp [hr] at hany
  | some r =>
      rw [hr, Option.any_some, Bool.and_eq_true, decide_eq_true_eq] at hany
      exact ⟨r.1, r.2, rfl, hany⟩

/-- A text that is read so is plain. -/
theorem plain_of_reads (hs : Bare s) (hr : run .start s = some (t, m'))
    (hopens : m'.opens = true) (hl : literals t = []) : Plain s := by
  refine ⟨hs, ?_⟩
  rw [hr, Option.any_some, Bool.and_eq_true, decide_eq_true_eq]
  exact ⟨hopens, hl⟩

/-- Tokens that a step completes before those it completes at the start. -/
theorem run_cons_pending {c : Char} {p t₁ : List Tok} {m₁ : Mode} (hm : step m c = (p ++ t₁, m₁))
    (hstart : stepStart c = (t₁, m₁)) (s : Text) :
    run m (c :: s) = (run .start (c :: s)).map fun r => (p ++ r.1, r.2) := by
  rw [run, run, hm, show step .start c = stepStart c from rfl, hstart]
  cases m₁ <;> simp [Option.map_map, Function.comp_def]

/-- Behind a token, fixed text ends it and is read as at the start. -/
theorem Fixed.reads (h : Fixed s) (hm : m.opens = true) :
    run m s = (run .start s).map fun r => (pending m ++ r.1, r.2) := by
  cases s with
  | nil => exact absurd h.2.1 (by simp)
  | cons c s =>
      have hc : c ∈ breakChars := by simpa using h.2.1
      exact run_cons_pending (step_separator hm (.inr hc)) rfl s

/-- Fixed text can be followed by fixed text. -/
theorem Plain.append (hs : Plain s) (hx : Fixed x) : Plain (s ++ x) := by
  obtain ⟨t, m', hr, hopens, hl⟩ := hs.reads
  obtain ⟨t', m'', hr', hopens', hl'⟩ := hx.plain.reads
  have hrun : run .start (s ++ x) = some (t ++ (pending m' ++ t'), m'') := by
    rw [run_append, hr, Option.bind_some, hx.reads hopens, hr']
    rfl
  refine plain_of_reads (List.forall_mem_append.mpr ⟨hs.1, hx.1⟩) hrun hopens' ?_
  rw [literals_append, literals_append, hl, literals_pending hopens, hl']
  rfl

/-- Text that ends a token can be followed by a token. -/
theorem Plain.append_of_start (hs : Plain s) (hstart : (run .start s).map Prod.snd = some .start)
    (hx : Plain x) : Plain (s ++ x) := by
  obtain ⟨t, m', hr, -, hl⟩ := hs.reads
  obtain ⟨t', m'', hr', hopens', hl'⟩ := hx.reads
  obtain rfl : m' = .start := by simpa [hr] using hstart
  have hrun : run .start (s ++ x) = some (t ++ t', m'') := by
    rw [run_append, hr, Option.bind_some, hr']
    rfl
  refine plain_of_reads (List.forall_mem_append.mpr ⟨hs.1, hx.1⟩) hrun hopens' ?_
  rw [literals_append, hl, hl']
  rfl

/-- What makes a text fixed is at its beginning. -/
theorem Fixed.append (hs : Fixed s) (hsx : Plain (s ++ x)) : Fixed (s ++ x) := by
  obtain ⟨-, hhead, hblank, -⟩ := hs
  refine ⟨hsx.1, ?_, ?_, hsx.2⟩
  · cases s with
    | nil => exact absurd hhead (by simp)
    | cons c s => exact hhead
  · rw [List.dropWhile_append]
    cases hd : s.dropWhile isSpace with
    | nil => simp [hd] at hblank
    | cons c d =>
        rw [hd] at hblank
        exact hblank

/-- Fixed texts one behind the other are fixed. -/
theorem Fixed.append_fixed (hs : Fixed s) (hx : Fixed x) : Fixed (s ++ x) :=
  hs.append (hs.plain.append hx)

/-- A delimited text behind a fixed one is delimited. -/
theorem Fixed.append_delimited (hs : Fixed s) (hx : Delimited x) : Delimited (s ++ x) := by
  refine ⟨hs.append_fixed hx.1, ?_⟩
  obtain ⟨t, m', hr, hopens, -⟩ := hs.plain.reads
  rw [run_append, hr, Option.bind_some, hx.1.reads hopens, Option.map_map, Option.map_map]
  exact hx.2

/-- A plain text behind a delimited one is fixed. -/
theorem Delimited.append_plain (hs : Delimited s) (hx : Plain x) : Fixed (s ++ x) :=
  hs.1.append (hs.1.plain.append_of_start hs.2 hx)

end Pieces

/-! ## numbers -/

theorem ne_of_isDigit {c d : Char} (hc : c.isDigit = true) (hd : d.isDigit = false) : c ≠ d := by
  rintro rfl
  simp [hc] at hd

theorem not_isOp_of_isDigit {c : Char} (h : c.isDigit = true) :
    isOp c = false ∧ isOtherOp c = false := by
  have hne : ∀ d : Char, d.isDigit = false → c ≠ d := fun d hd => ne_of_isDigit h hd
  have hle : c.toNat ≤ 57 := by
    simp only [Char.isDigit, Bool.and_eq_true, decide_eq_true_eq] at h
    exact h.2
  have h96 : c.toNat ≠ 96 := by omega
  simp [isOp, isOtherOp, hne, h96]

/-- A number is read as one token. -/
theorem run_digits {p s : Text} (h : ∀ c ∈ s, c.isDigit = true) :
    run (.number p) s = some ([], .number (p ++ s)) := by
  induction s generalizing p with
  | nil => rw [run, List.append_nil]
  | cons c s ih =>
      have hstep : step (.number p) c = ([], .number (p ++ [c])) := by
        rw [step, if_pos (by simp [h c List.mem_cons_self])]
      rw [run, hstep]
      simp [ih fun d hd => h d (List.mem_cons_of_mem c hd)]

/-- A digit begins a number. -/
theorem stepStart_digit {c : Char} (h : c.isDigit = true) : stepStart c = ([], .number [c]) := by
  have hq : c ≠ quoteChar := by
    rintro rfl
    exact absurd h (by decide)
  rw [stepStart, if_neg (by simp [not_isSpace_of_isDigit h]), if_neg hq, if_pos h]

/-- A decimal number is read as one number that may go on. -/
theorem run_decimal (n : Nat) : run .start (decimal n) = some ([], .number (decimal n)) := by
  cases hs : decimal n with
  | nil => exact absurd hs Nat.toDigits_ne_nil
  | cons c s =>
      have hdig : ∀ d ∈ c :: s, d.isDigit = true := fun d hd => isDigit_of_mem_decimal (hs ▸ hd)
      rw [run, show step .start c = stepStart c from rfl,
        stepStart_digit (hdig c List.mem_cons_self)]
      simp [run_digits fun d hd => hdig d (List.mem_cons_of_mem c hd)]

theorem head?_decimal_append (n : Nat) (s : Text) :
    (decimal n ++ s).head?.any Char.isDigit = true := by
  cases hs : decimal n with
  | nil => exact absurd hs Nat.toDigits_ne_nil
  | cons c cs => exact isDigit_of_mem_decimal (hs ▸ List.mem_cons_self)

/-- With a fraction it is one token as well. -/
theorem run_fraction (n : Nat) {z : Text} (hz : ∀ c ∈ z, c.isDigit = true) :
    run .start (decimal n ++ '.' :: z) = some ([], .number (decimal n ++ '.' :: z)) := by
  have hpoint : '.' ∉ decimal n := not_mem_decimal n (by decide)
  have hstep : step (.number (decimal n)) '.' = ([], .number (decimal n ++ ['.'])) := by
    rw [step, if_pos (by simp [hpoint])]
  rw [run_append, run_decimal, Option.bind_some, run, hstep]
  simp [run_digits hz]

/-- A minus before a number is an operator. -/
theorem run_minus {s t : Text} (hs : s.head?.any Char.isDigit = true)
    (hr : run .start s = some ([], .number t)) :
    run .start ('-' :: s) = some ([.op ['-']], .number t) := by
  cases s with
  | nil => contradiction
  | cons c s =>
      obtain ⟨hop, hother⟩ := not_isOp_of_isDigit hs
      have hstep : step (.op ['-']) c = ([.op ['-']] ++ [], .number [c]) := by
        rw [step, stepOp, if_neg (by simp [hop]), if_neg (by simp [hother]), stepStart_digit hs]
        rfl
      rw [run, show step .start '-' = ([], .op ['-']) by decide]
      simp [run_cons_pending hstep (stepStart_digit hs), hr]

/-- Text of a number is fixed if it is read as one. -/
theorem plain_of_digits {s t : Text} {l : List Tok}
    (h : ∀ c ∈ s, c.isDigit = true ∨ c = '.' ∨ c = '-')
    (hr : run .start s = some (l, .number t)) (hl : literals l = []) : Plain s := by
  refine plain_of_reads (fun c hc => ?_) hr rfl hl
  obtain hdigit | rfl | rfl := h c hc
  · exact ⟨ne_of_isDigit hdigit (by decide), ne_of_isDigit hdigit (by decide)⟩
  · decide
  · decide

/-- A decimal number is plain. -/
theorem plain_decimal (n : Nat) : Plain (decimal n) :=
  plain_of_digits (fun _ hc => .inl (isDigit_of_mem_decimal hc)) (run_decimal n) rfl

/-! ## the tokens of pieces -/

section Tokens
variable {other : Text → Text → Option (Option Text × Nat)} {m m' : Mode} {s x v : Text}
  {t : List Tok}

/-- The text of a list of pieces. -/
def outs (ps : List Piece) : Text := ps.flatMap Piece.out

theorem skeleton_append (t t' : List Tok) : skeleton (t ++ t') = skeleton t ++ skeleton t' :=
  List.map_append

/-- Tokens without literals are their own skeleton. -/
theorem skeleton_of_literals_eq_nil (h : literals t = []) : skeleton t = t := by
  refine (List.map_congr_left fun x hx => ?_).trans (List.map_id t)
  have hnone := List.filterMap_eq_nil_iff.mp h x hx
  cases x with
  | literal v => contradiction
  | _ => rfl

/-- Fixed text does not continue a literal. -/
theorem Readable.not_continued {ps : List Piece} (h : Readable (.text s :: ps)) :
    ∀ c, ((outs (.text s :: ps)).dropWhile isSpace).head? = some c → c ≠ quoteChar ∧ c ≠ '-' := by
  intro c hc
  cases h with
  | blank =>
      have hnone : (List.dropWhile isSpace (outs [.text [' ']])).head? = none := by decide
      rw [hnone] at hc
      contradiction
  | text hs _ =>
      have hblank := hs.2.2.1
      rw [outs, List.flatMap_cons, Piece.out, List.dropWhile_append] at hc
      cases hd : s.dropWhile isSpace with
      | nil => simp [hd] at hblank
      | cons d r =>
          rw [hd] at hblank hc
          obtain rfl : d = c := Option.some.inj hc
          simpa using hblank

/-- There are neither quotes nor percents in fixed text. -/
theorem Readable.chars {ps : List Piece} (h : Readable ps) :
    ∀ s, .text s ∈ ps → Bare s := by
  induction h with
  | nil => simp
  | blank =>
      intro s hmem
      have hs : s = [' '] := by simpa using hmem
      exact hs ▸ (by decide : Bare [' '])
  | text hs _ ih =>
      intro s hmem
      obtain heq | hmem := List.mem_cons.mp hmem
      · exact Piece.text.inj heq ▸ hs.1
      · exact ih s hmem
  | literal _ ih =>
      intro s hmem
      obtain heq | hmem := List.mem_cons.mp hmem
      · contradiction
      · exact ih s hmem

/-- **Pieces are read one by one**: the literals are those of the pieces, and the
other tokens do not depend on them. -/
theorem lexFrom_outs {ps : List Piece} (h : Readable ps) (hm : m.opens = true) :
    ∃ l, lexFrom other m (outs ps) = some l ∧ literals l = ps.filterMap Piece.content? ∧
      skeleton l = shape m ps := by
  have hskel : ∀ {m : Mode}, m.opens = true → skeleton (pending m) = pending m := fun hm =>
    skeleton_of_literals_eq_nil (literals_pending hm)
  induction h generalizing m with
  | nil => exact ⟨pending m, finish_of_opens hm, literals_pending hm, hskel hm⟩
  | blank =>
      have hrun : run m [' '] = some (pending m, .start) := by
        rw [run, step_separator hm (.inr (by decide))]
        show some (pending m ++ [] ++ [], Mode.start) = _
        rw [List.append_nil, List.append_nil]
      refine ⟨pending m, ?_, literals_pending hm, ?_⟩
      · rw [show outs [.text [' ']] = [' '] ++ [] from rfl, lexFrom_append hrun]
        exact congrArg some (List.append_nil _)
      · rw [shape, hrun, hskel hm]
        exact (List.append_nil _).symm
  | @text s ps hs hps ih =>
      obtain ⟨t, m', hr, hopens, hl⟩ := hs.plain.reads
      obtain ⟨l, hlex, hlits, hshape⟩ := ih hopens
      have hrun : run m s = some (pending m ++ t, m') := by rw [hs.reads hm, hr]; rfl
      refine ⟨pending m ++ t ++ l, ?_, ?_, ?_⟩
      · rw [outs, List.flatMap_cons, ← outs, Piece.out, lexFrom_append hrun, hlex]
        rfl
      · rw [literals_append, literals_append, literals_pending hm, hl, hlits]
        rfl
      · rw [shape, hrun, skeleton_append, skeleton_append, hskel hm,
          skeleton_of_literals_eq_nil hl, hshape]
  | @literal v s ps hps ih =>
      obtain ⟨l, hlex, hlits, hshape⟩ := ih (show Mode.start.opens = true from rfl)
      refine ⟨pending m ++ .literal v :: l, ?_, ?_, ?_⟩
      · rw [outs, List.flatMap_cons, ← outs, Piece.out, lexFrom_quote hm,
          lexFrom_closing hps.not_continued, hlex]
        rfl
      · rw [literals_append, literals_pending hm, literals_literal, hlits]
        rfl
      · rw [shape, skeleton_append, hskel hm, ← hshape]
        rfl

/-- What is in the literals does not show in the shape. -/
theorem shape_blank (m : Mode) (ps : List Piece) : shape m (ps.map Piece.blank) = shape m ps := by
  induction ps generalizing m with
  | nil => rfl
  | cons p ps ih =>
      cases p with
      | text s =>
          rw [List.map_cons, Piece.blank, shape, shape]
          cases run m s with
          | none => rfl
          | some r => exact congrArg (r.1 ++ ·) (ih r.2)
      | literal v => rw [List.map_cons, Piece.blank, shape, shape, ih]

end Tokens

/-! ## the end of a literal -/

section Held
variable {other : Text → Text → Option (Option Text × Nat)} {m : Mode} {s x v : Text} {l : List Tok}

/-- The content of the literal that was closed. -/
def Mode.closed : Mode → Option Text
  | .closing v => some v
  | .gap v _ => some v
  | .dash v => some v
  | .remark v => some v
  | _ => none

/-- The content of a literal, of one that may go on too. -/
def Mode.held : Mode → Option Text
  | .literal v => some v
  | m => m.closed

/-- A quote may turn out to be the first of two. -/
def Mode.owed : Mode → Nat
  | .closing _ => 1
  | _ => 0

/-- What a closed literal holds is its value. -/
theorem Mode.held_of_closed (hm : m.closed = some v) : m.held = some v := by
  cases m <;> first | exact hm | contradiction

/-- A literal that does not go on. -/
theorem head?_of_flush {c : Char} {r : List Tok × Mode} (hstep : step m c = flush (.literal v) r)
    (hl : lexFrom other m (c :: x) = some l) : (literals l).head? = some v := by
  obtain ⟨t, m'⟩ := r
  rw [lexFrom, hstep, flush] at hl
  cases m' with
  | special s =>
      simp only at hl
      split at hl
      · obtain ⟨l', -, rfl⟩ := Option.map_eq_some_iff.mp hl
        rfl
      · contradiction
  | _ =>
      obtain ⟨l', -, rfl⟩ := Option.map_eq_some_iff.mp hl
      rfl

/-- In the gap behind a literal, it is completed or stays as it is. -/
theorem stepGap_closed (v : Text) (newline : Bool) (c : Char) :
    (∃ r, stepGap v newline c = flush (.literal v) r) ∨
      ∃ m', stepGap v newline c = ([], m') ∧ m'.closed = some v ∧ m'.owed = 0 := by
  unfold stepGap
  split
  · exact .inr ⟨_, rfl, rfl, rfl⟩
  · split
    · exact .inr ⟨_, rfl, rfl, rfl⟩
    · split
      · exact .inr ⟨_, rfl, rfl, rfl⟩
      · exact .inl ⟨_, rfl⟩

/-- Behind a literal, a character that is no quote. -/
theorem step_closed (hm : m.closed = some v) {c : Char} (hc : c ≠ quoteChar) :
    (∃ r, step m c = flush (.literal v) r) ∨
      ∃ m', step m c = ([], m') ∧ m'.closed = some v ∧ m'.owed = 0 := by
  cases m with
  | closing u =>
      obtain rfl : u = v := Option.some.inj hm
      rw [step, if_neg hc]
      exact stepGap_closed u false c
  | gap u newline =>
      obtain rfl : u = v := Option.some.inj hm
      rw [step, if_neg fun h => hc h.1]
      exact stepGap_closed u newline c
  | dash u =>
      obtain rfl : u = v := Option.some.inj hm
      rw [step]
      split
      · exact .inr ⟨_, rfl, rfl, rfl⟩
      · exact .inl ⟨_, rfl⟩
  | remark u =>
      obtain rfl : u = v := Option.some.inj hm
      rw [step]
      split
      · exact .inr ⟨_, rfl, rfl, rfl⟩
      · exact .inr ⟨_, rfl, rfl, rfl⟩
  | _ => contradiction

/-- **A quote in the content** is one that was written twice. -/
theorem step_held (hm : m.held = some v) (c : Char) :
    (∃ r, step m c = flush (.literal v) r) ∨
      ∃ m' w, step m c = ([], m') ∧ m'.held = some (v ++ w) ∧
        2 * w.count quoteChar + m'.owed ≤ [c].count quoteChar + m.owed := by
  by_cases hc : c = quoteChar
  · subst hc
    rw [List.count_singleton_self]
    cases m with
    | literal u =>
        obtain rfl : u = v := Option.some.inj hm
        exact .inr ⟨_, [], step_literal_quote u, by simp [Mode.held, Mode.closed], Nat.le_refl _⟩
    | closing u =>
        obtain rfl : u = v := Option.some.inj hm
        exact .inr ⟨_, [quoteChar], step_closing_quote u, rfl, by simp [Mode.owed]⟩
    | gap u newline =>
        obtain rfl : u = v := Option.some.inj hm
        cases newline with
        | true => exact .inr ⟨.literal u, [], rfl, by simp [Mode.held], Nat.zero_le _⟩
        | false => exact .inl ⟨stepStart quoteChar, rfl⟩
    | dash u =>
        obtain rfl : u = v := Option.some.inj hm
        exact .inl ⟨stepOp ['-'] quoteChar, rfl⟩
    | remark u =>
        obtain rfl : u = v := Option.some.inj hm
        exact .inr ⟨.remark u, [], rfl, by simp [Mode.held, Mode.closed], Nat.zero_le _⟩
    | _ => contradiction
  · have hgo : m.closed = some v → (∃ r, step m c = flush (.literal v) r) ∨
        ∃ m' w, step m c = ([], m') ∧ m'.held = some (v ++ w) ∧
          2 * w.count quoteChar + m'.owed ≤ [c].count quoteChar + m.owed := by
      intro hclosed
      obtain hflush | ⟨m', hstep, hm', howed⟩ := step_closed hclosed hc
      · exact .inl hflush
      · refine .inr ⟨m', [], hstep, ?_, ?_⟩
        · rw [List.append_nil]
          exact Mode.held_of_closed hm'
        · rw [howed]
          exact Nat.zero_le _
    cases m with
    | literal u =>
        obtain rfl : u = v := Option.some.inj hm
        refine .inr ⟨_, [c], step_literal_char u hc, rfl, ?_⟩
        rw [List.count_singleton, beq_false_of_ne hc]
        exact Nat.le_refl _
    | closing u => exact hgo hm
    | gap u newline => exact hgo hm
    | dash u => exact hgo hm
    | remark u => exact hgo hm
    | _ => contradiction

/-- Text in a literal or behind one: it ends the literal, or it leads to a mode
that holds what was read. -/
theorem lexFrom_held (hm : m.held = some v) (hl : lexFrom other m (s ++ x) = some l) :
    (∃ w, (literals l).head? = some (v ++ w) ∧
        2 * w.count quoteChar ≤ s.count quoteChar + m.owed) ∨
      ∃ m' w, m'.held = some (v ++ w) ∧ lexFrom other m' x = some l ∧
        2 * w.count quoteChar + m'.owed ≤ s.count quoteChar + m.owed := by
  induction s generalizing m v with
  | nil => exact .inr ⟨m, [], by simpa using hm, hl, by simp⟩
  | cons c s ih =>
      have hcount : (c :: s).count quoteChar = [c].count quoteChar + s.count quoteChar :=
        @List.count_append _ _ _ [c] s
      rw [List.cons_append] at hl
      obtain ⟨r, hflush⟩ | ⟨m', w, hstep, hm', hw⟩ := step_held hm c
      · exact .inl ⟨[], by simpa using head?_of_flush hflush hl, by simp⟩
      · have hspecial : ∀ s, m' ≠ .special s := by
          rintro s rfl
          contradiction
        rw [lexFrom_cons_silent hstep hspecial] at hl
        obtain ⟨u, hhead, hu⟩ | ⟨m'', u, hm'', hl', hu⟩ := ih hm' hl
        · refine .inl ⟨w ++ u, by rw [hhead, List.append_assoc], ?_⟩
          rw [List.count_append, hcount]
          omega
        · refine .inr ⟨m'', w ++ u, by rw [hm'', List.append_assoc], hl', ?_⟩
          rw [List.count_append, hcount]
          omega

/-- Text without quotes behind a literal. -/
theorem lexFrom_closed (hm : m.closed = some v) (hs : quoteChar ∉ s)
    (hl : lexFrom other m (s ++ x) = some l) :
    (literals l).head? = some v ∨ ∃ m', m'.closed = some v ∧ lexFrom other m' x = some l := by
  induction s generalizing m with
  | nil => exact .inr ⟨m, hm, hl⟩
  | cons c s ih =>
      rw [List.mem_cons, not_or] at hs
      obtain ⟨hc, hs⟩ := hs
      rw [List.cons_append] at hl
      obtain ⟨r, hflush⟩ | ⟨m', hstep, hm', -⟩ := step_closed hm (Ne.symm hc)
      · exact .inl (head?_of_flush hflush hl)
      · have hspecial : ∀ s, m' ≠ .special s := by
          rintro s rfl
          contradiction
        rw [lexFrom_cons_silent hstep hspecial] at hl
        exact ih hm' hs hl

/-- Other text behind a literal: the literal does not go on, or a remark does. -/
theorem lexFrom_break (hm : m.closed = some v) {c : Char} (hc : isSpace c = false)
    (hq : c ≠ quoteChar) (hdash : c ≠ '-') (hl : lexFrom other m (c :: x) = some l) :
    (literals l).head? = some v ∨ lexFrom other (.remark v) x = some l := by
  have hnl : ¬ (c = '\n' ∨ c = '\r') := by
    rintro (rfl | rfl)
    · exact absurd hc (by decide)
    · exact absurd hc (by decide)
  cases m with
  | closing u =>
      obtain rfl : u = v := Option.some.inj hm
      have hgap : step (.gap u false) c = flush (.literal u) (stepStart c) := step_gap_text hc hq hdash
      have hstep : step (.closing u) c = step (.gap u false) c := by
        rw [step, step, if_neg hq, if_neg fun h => hq h.1]
      exact .inl (head?_of_flush (hstep.trans hgap) hl)
  | gap u newline =>
      obtain rfl : u = v := Option.some.inj hm
      exact .inl (head?_of_flush (step_gap_text hc hq hdash) hl)
  | dash u =>
      obtain rfl : u = v := Option.some.inj hm
      have hstep : step (.dash u) c = flush (.literal u) (stepOp ['-'] c) := if_neg hdash
      exact .inl (head?_of_flush hstep hl)
  | remark u =>
      obtain rfl : u = v := Option.some.inj hm
      have hstep : step (.remark u) c = ([], .remark u) := if_neg hnl
      rw [lexFrom_cons_silent hstep (fun _ => Mode.noConfusion)] at hl
      exact .inr hl
  | _ => contradiction

/-- At the end of the text. -/
theorem head?_of_finish (hm : m.closed = some v) (hl : lexFrom other m [] = some l) :
    (literals l).head? = some v := by
  cases m with
  | closing u => exact Option.some.inj hl ▸ hm
  | gap u _ => exact Option.some.inj hl ▸ hm
  | dash u => exact Option.some.inj hl ▸ hm
  | remark u => exact Option.some.inj hl ▸ hm
  | _ => contradiction

/-- Text without quotes does not end a literal. -/
theorem lexFrom_literal (hs : quoteChar ∉ s) :
    lexFrom other (.literal v) (s ++ x) = lexFrom other (.literal (v ++ s)) x := by
  have hdouble : double (· = quoteChar) s = s := by
    refine double_of_forall fun c hc hq => ?_
    exact hs (hq ▸ hc)
  rw [← lexFrom_double, hdouble]

/-- A remark ends with its line. -/
theorem lexFrom_remark (hs : '\n' ∉ s ∧ '\r' ∉ s) :
    lexFrom other (.remark v) (s ++ x) = lexFrom other (.remark v) x := by
  induction s with
  | nil => rfl
  | cons c s ih =>
      simp only [List.mem_cons, not_or] at hs
      have hstep : step (.remark v) c = ([], .remark v) :=
        if_neg (not_or.mpr ⟨Ne.symm hs.1.1, Ne.symm hs.2.1⟩)
      rw [List.cons_append, lexFrom_cons_silent hstep (fun _ => Mode.noConfusion)]
      exact ih ⟨hs.1.2, hs.2.2⟩

end Held

end SqlLexer
