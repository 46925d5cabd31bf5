import Hpssix.Base.CText

/-!
# Base.Reader

Readers of text that look at one character at a time: each takes an initial
part of its input, or fails.

* `Ends x r` — the reader never reads past the character `x`, and is not
  influenced by what follows it;
* `Leaves r` — what a reader leaves is an end of its input.

Both go through every way of putting readers together.
-/

namespace Reader

open CText

/-- A reader: its value and what it leaves. -/
abbrev Read (α : Type) := StateT Text Option α

variable {α β : Type} {x : Char} {p : Char → Bool}

/-! ## readers -/

theorem bind_apply (r : Read α) (f : α → Read β) (t : Text) :
    (r >>= f) t = (r t).bind fun v => f v.1 v.2 := rfl

theorem pure_apply (a : α) (t : Text) : (pure a : Read α) t = some (a, t) := rfl

/-- No reading. -/
def fail : Read α := fun _ => none

/-- One character of a class. -/
def char (p : Char → Bool) : Read Char
  | [] => none
  | c :: t => if p c then some (c, t) else none

/-- The longest run of a class. -/
def many (p : Char → Bool) : Read Text := fun t => some (t.takeWhile p, t.dropWhile p)

/-- Behind a character of a class one reader, and otherwise another. -/
def ifChar (p : Char → Bool) (r : Char → Read α) (r' : Read α) : Read α
  | [] => r' []
  | c :: t => if p c then r c t else r' (c :: t)

/-- A word, in either case of its letters. -/
def word : Text → Read Unit
  | [] => pure ()
  | c :: w => do
    let _ ← char fun d => d.toLower = c
    word w

/-! ## readers end at a character -/

/-- The character ends what is read, whatever follows it. -/
def Ends (x : Char) (r : Read α) : Prop :=
  ∀ a b, r (a ++ x :: b) = (r a).map fun v => (v.1, v.2 ++ x :: b)

/-- A reader that reads nothing ends anywhere. -/
theorem ends_pure (a : α) : Ends x (pure a : Read α) := fun _ _ => rfl

/-- One that fails ends anywhere. -/
theorem ends_fail : Ends x (fail : Read α) := fun _ _ => rfl

/-- Two readers that end at a character, one after the other, do so. -/
theorem ends_bind {r : Read α} {f : α → Read β} (hr : Ends x r) (hf : ∀ a, Ends x (f a)) :
    Ends x (r >>= f) := by
  intro a b
  rw [bind_apply, bind_apply, hr a b]
  cases r a with
  | none => rfl
  | some v => exact hf v.1 v.2 b

/-- A reader of one character ends at one that it does not read. -/
theorem ends_char (hx : p x = false) : Ends x (char p) := by
  intro a b
  cases a with
  | nil => simp [char, hx]
  | cons c a =>
      simp only [List.cons_append, char]
      split <;> rfl

/-- So does a reader of many. -/
theorem ends_many (hx : p x = false) : Ends x (many p) := by
  intro a b
  induction a with
  | nil => simp [many, hx]
  | cons c a ih =>
      simp only [many, Option.map_some, Option.some.injEq, Prod.mk.injEq] at ih ⊢
      simp only [List.cons_append, List.takeWhile_cons, List.dropWhile_cons]
      split <;> simp [ih.1, ih.2]

/-- And a reader that looks at one character. -/
theorem ends_ifChar {r : Char → Read α} {r' : Read α} (hx : p x = false) (hr : ∀ c, Ends x (r c))
    (hr' : Ends x r') : Ends x (ifChar p r r') := by
  intro a b
  cases a with
  | nil => simpa [ifChar, hx] using hr' [] b
  | cons c a =>
      simp only [List.cons_append, ifChar]
      split
      · exact hr c a b
      · exact hr' (c :: a) b

/-- A reader of a word ends at a character that is not in the word. -/
theorem ends_word {w : Text} (hx : x.toLower ∉ w) : Ends x (word w) := by
  induction w with
  | nil => exact ends_pure ()
  | cons c w ih =>
      rw [List.mem_cons, not_or] at hx
      exact ends_bind (ends_char (by simpa using hx.1)) fun _ => ih hx.2

/-! ## readers leave an end -/

/-- What is left is an end of the input. -/
def Leaves (r : Read α) : Prop := ∀ {t : Text} {v : α × Text}, r t = some v → v.2 <:+ t

/-- A reader that reads nothing leaves its input. -/
theorem leaves_pure (a : α) : Leaves (pure a : Read α) := by
  rintro t v ⟨⟩
  exact List.suffix_refl t

/-- One that fails leaves nothing. -/
theorem leaves_fail : Leaves (fail : Read α) := by
  rintro t v ⟨⟩

/-- Two readers, one after the other, leave an end of the input. -/
theorem leaves_bind {r : Read α} {f : α → Read β} (hr : Leaves r) (hf : ∀ a, Leaves (f a)) :
    Leaves (r >>= f) := by
  intro t v h
  rw [bind_apply] at h
  obtain ⟨u, hu, hv⟩ := Option.bind_eq_some_iff.mp h
  exact (hf u.1 hv).trans (hr hu)

/-- A reader of one character leaves what follows. -/
theorem leaves_char : Leaves (char p) := by
  intro t v h
  cases t with
  | nil => cases h
  | cons c t =>
      simp only [char] at h
      split at h
      · obtain rfl := Option.some.inj h
        exact List.suffix_cons c t
      · cases h

/-- A reader of many leaves what follows. -/
theorem leaves_many : Leaves (many p) := by
  rintro t v ⟨⟩
  exact List.dropWhile_suffix p

/-- So does a reader that looks at one character. -/
theorem leaves_ifChar {r : Char → Read α} {r' : Read α} (hr : ∀ c, Leaves (r c))
    (hr' : Leaves r') : Leaves (ifChar p r r') := by
  intro t v h
  cases t with
  | nil => exact hr' h
  | cons c t =>
      simp only [ifChar] at h
      split at h
      · exact (hr c h).trans (List.suffix_cons c t)
      · exact hr' h

/-- And a reader of a word. -/
theorem leaves_word (w : Text) : Leaves (word w) := by
  induction w with
  | nil => exact leaves_pure ()
  | cons c w ih => exact leaves_bind leaves_char fun _ => ih

end Reader
