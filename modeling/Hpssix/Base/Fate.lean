import Mathlib.Data.List.Forall2

/-!
# Base.Fate

What becomes of a call of a C function: it returns a value, it dies on an
invalid pointer, or it never returns.  `Fate` carries this through a
sequence of calls.
-/

/-- The outcome of a call. -/
inductive Fate (α : Type _) where
  | done (a : α)
  | crash
  | hang
deriving DecidableEq, Repr

namespace Fate

variable {α β : Type _}

/-- Go on with the value of a call that returned. -/
def bind (x : Fate α) (f : α → Fate β) : Fate β :=
  match x with
  | done a => f a
  | crash => crash
  | hang => hang

instance : Monad Fate where
  pure := done
  bind := bind

@[simp] theorem pure_eq (a : α) : (pure a : Fate α) = done a := rfl

@[simp] theorem done_bind (a : α) (f : α → Fate β) : (done a >>= f) = f a := rfl

@[simp] theorem crash_bind (f : α → Fate β) : ((crash : Fate α) >>= f) = crash := rfl

@[simp] theorem hang_bind (f : α → Fate β) : ((hang : Fate α) >>= f) = hang := rfl

instance : LawfulMonad Fate := LawfulMonad.mk' Fate (fun x => by cases x <;> rfl)
  (fun _ _ => rfl) (fun x _ _ => by cases x <;> rfl)

/-- Two calls return a value exactly if the first returns and the second
returns it from there. -/
theorem bind_eq_done {x : Fate α} {f : α → Fate β} {b : β} :
    x >>= f = done b ↔ ∃ a, x = done a ∧ f a = done b := by
  cases x <;> simp

/-- A pointer that may be NULL, dereferenced. -/
def deref : Option α → Fate α
  | some a => done a
  | none => crash

/-- A call that is still waiting has no value yet. -/
def await : Option α → Fate α
  | some a => done a
  | none => hang

/-- What a call returns, where it returns something. -/
def returned : Fate (Option α) → Option α
  | done a => a
  | _ => none

@[simp] theorem deref_some (a : α) : deref (some a) = done a := rfl

@[simp] theorem deref_none : deref (none : Option α) = crash := rfl

@[simp] theorem await_some (a : α) : await (some a) = done a := rfl

/-- The calls of a loop return their values exactly if each returns its own. -/
theorem mapM_eq_done {f : α → Fate β} {l : List α} {bs : List β} :
    l.mapM f = done bs ↔ List.Forall₂ (fun a b => f a = done b) l bs := by
  induction l generalizing bs with
  | nil => cases bs <;> simp
  | cons a l ih =>
      rw [List.mapM_cons, bind_eq_done]
      cases bs with
      | nil => simp [bind_eq_done]
      | cons b bs => simp [bind_eq_done, ih]

theorem returned_eq_some {x : Fate (Option α)} {a : α} : x.returned = some a ↔ x = done (some a) := by
  cases x <;> simp [returned]

theorem await_eq_done {x : Option α} {a : α} : await x = done a ↔ x = some a := by
  cases x <;> simp [await]

end Fate
