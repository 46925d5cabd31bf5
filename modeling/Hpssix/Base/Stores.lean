import Hpssix.Base.CText

/-!
# Base.Stores

Stores to objects of a fixed size.  A store is known by its object and by the end
of what is written there; texts that are printed one behind the other, each with a
NUL that the next one overwrites, are the stores `appends`.

* `appends_inBounds_iff` — they stay in the object if the last one does.
-/

namespace Stores

open CText

variable {β : Type _}

/-- A store: the object, and how many of its elements there are up to its end. -/
structure Store (β : Type _) where
  object : β
  extent : Nat

/-- It stays within its object. -/
def Store.InBounds (size : β → Nat) (s : Store β) : Prop := s.extent ≤ size s.object

/-- A text that is printed at a position, with its NUL. -/
def print (object : β) (pos : Nat) (s : Text) : Store β := ⟨object, pos + s.length + 1⟩

/-- `pos += sprintf(pos, …)` for a list of texts. -/
def appends (object : β) : Nat → List Text → List (Store β)
  | _, [] => []
  | pos, s :: ts => print object pos s :: appends object (pos + s.length) ts

/-- The number of characters. -/
def total (ts : List Text) : Nat := (ts.map List.length).sum

@[simp] theorem total_nil : total [] = 0 := rfl

@[simp] theorem total_cons (s : Text) (ts : List Text) : total (s :: ts) = s.length + total ts := rfl

@[simp] theorem total_append (ts us : List Text) : total (ts ++ us) = total ts + total us := by
  simp [total]

theorem total_flatten (ts : List Text) : ts.flatten.length = total ts := by
  rw [List.length_flatten, total]

variable {size : β → Nat} {object : β}

theorem print_inBounds_iff {pos : Nat} {s : Text} :
    (print object pos s).InBounds size ↔ pos + s.length < size object := Iff.rfl

/-- **Appending** stays in the object exactly if all texts together fit. -/
theorem appends_inBounds_iff {pos : Nat} {ts : List Text} (h : ts ≠ []) :
    (∀ s ∈ appends object pos ts, s.InBounds size) ↔ pos + total ts < size object := by
  induction ts generalizing pos with
  | nil => exact absurd rfl h
  | cons t ts ih =>
      rw [appends, List.forall_mem_cons, print_inBounds_iff, total_cons]
      by_cases hts : ts = []
      · simp [hts, appends]
      · rw [ih hts]
        omega

end Stores
