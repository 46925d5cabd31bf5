/-!
# Base.Cursor

A prepared statement as its caller sees it: the results of successive calls
of `sqlite3_step`.  A program is modelled over an arbitrary list of such
results, so errors and busy replies may appear anywhere; an undisturbed
query over known rows is the list `answer rows`.
-/

namespace Cursor

variable {ρ : Type _}

/-- The result of one `sqlite3_step`. -/
inductive Rc (ρ : Type _) where
  | row (r : ρ)
  | done
  | busy
  | error
deriving DecidableEq, Repr

/-- `do { rc = sqlite3_step(stmt); } while (rc == SQLITE_BUSY);` — the first
result that is not busy, with the results still to come.  `none` when the
results given run out, that is, when the call is still waiting. -/
def stepBusy : List (Rc ρ) → Option (Rc ρ × List (Rc ρ))
  | [] => none
  | .busy :: s => stepBusy s
  | rc :: s => some (rc, s)

/-- An undisturbed execution: every row, then the end. -/
def answer (rows : List ρ) : List (Rc ρ) := rows.map .row ++ [.done]

@[simp] theorem stepBusy_answer_nil : stepBusy (answer ([] : List ρ)) = some (.done, []) := rfl

@[simp] theorem stepBusy_answer_cons (r : ρ) (rows : List ρ) :
    stepBusy (answer (r :: rows)) = some (.row r, answer rows) := rfl

/-! ## results over the rows of a query -/

/-- How a call of `sqlite3_step` goes. -/
inductive Verdict where
  | ok
  | busy
  | error
deriving DecidableEq, Repr

/-- The results of successive calls of `sqlite3_step` over the rows of a query: a
call that fails does not move on. -/
def deliver : List Verdict → List ρ → List (Rc ρ)
  | [], _ => []
  | .ok :: vs, [] => .done :: deliver vs []
  | .ok :: vs, r :: rows => .row r :: deliver vs rows
  | .busy :: vs, rows => .busy :: deliver vs rows
  | .error :: vs, rows => .error :: deliver vs rows

/-- The first verdict that ends the wait. -/
def firstVerdict (vs : List Verdict) : Option Verdict := vs.find? fun v => v ≠ .busy

/-- Every call succeeds, after a wait. -/
def Quiet (n : Nat) (vs : List Verdict) : Prop :=
  ∃ busy, vs = List.replicate busy .busy ++ List.replicate n .ok

/-- Busy replies are waited out. -/
@[simp] theorem stepBusy_deliver_busy (busy : Nat) (vs : List Verdict) (rows : List ρ) :
    stepBusy (deliver (List.replicate busy .busy ++ vs) rows) = stepBusy (deliver vs rows) := by
  induction busy with
  | zero => rfl
  | succ busy ih =>
      rw [List.replicate_succ, List.cons_append, deliver, stepBusy, ih]

section FirstVerdict
variable {vs : List Verdict}

theorem stepBusy_deliver_of_none (h : firstVerdict vs = none) (rows : List ρ) :
    stepBusy (deliver vs rows) = none := by
  induction vs with
  | nil => rfl
  | cons v vs ih => cases v <;> simp_all [firstVerdict, deliver, stepBusy]

theorem stepBusy_deliver_of_error (h : firstVerdict vs = some .error) (rows : List ρ) :
    ∃ rest, stepBusy (deliver vs rows) = some (.error, rest) := by
  induction vs with
  | nil => simp [firstVerdict] at h
  | cons v vs ih => cases v <;> simp_all [firstVerdict, deliver, stepBusy]

/-- A statement that can be stepped: the end, or the first row with the results over
the rest. -/
theorem stepBusy_deliver_of_ok (h : firstVerdict vs = some .ok) :
    (∃ rest, stepBusy (deliver vs ([] : List ρ)) = some (.done, rest)) ∧
      ∃ vs', ∀ (r : ρ) (rows : List ρ),
        stepBusy (deliver vs (r :: rows)) = some (.row r, deliver vs' rows) := by
  induction vs with
  | nil => simp [firstVerdict] at h
  | cons v vs ih =>
      cases v with
      | ok => exact ⟨⟨_, rfl⟩, vs, fun _ _ => rfl⟩
      | busy => simpa [deliver, stepBusy] using ih (by simpa [firstVerdict] using h)
      | error => simp [firstVerdict] at h

theorem firstVerdict_ne_busy : firstVerdict vs ≠ some .busy := by
  intro h
  simpa using List.find?_some h

end FirstVerdict

/-- How many calls in a row succeed, after the wait. -/
def okSteps (vs : List Verdict) : Nat :=
  ((vs.dropWhile fun v => v = .busy).takeWhile fun v => v = .ok).length

end Cursor
