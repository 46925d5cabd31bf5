/-!
# Base.Txn

A client of a transactional database that makes one call after the other and
leaves at the first that fails, or dies on the way.

A call is a library call, which leaves the database alone, or a statement.
Whether the call is refused is given from outside; a statement can also fail by
itself, when it violates a constraint.  Between the calls the client uses its
memory, and an invalid access kills it.  `Conn` is the connection as the server
keeps it: outside a block every statement is committed by itself, inside one
the first failure spoils the block, and the end of a spoiled block undoes it.

* `runSteps_block` — a list of calls inside a block commits nothing; it ends as
  `ending` says, and where it comes to its end the block has what `completes`
  computes;
* `runSteps_autocommit` — the same list without a block commits what
  `carriedOut` computes.

This module depends only on the Lean 4 core library.
-/

namespace Txn

variable {T : Type _}

/-- One call of the client, or a use of its memory that may be invalid. -/
inductive Step (T : Type _) where
  | call (ok : T → Bool)
  | sql (ok : Bool) (f : T → Option T)
  | access (ok : T → Bool)

/-- How a client ends: it has made all its calls, one has failed, or it is killed. -/
inductive Ending where
  | done
  | failed
  | killed
deriving DecidableEq, Repr

/-- A call that the server does not stand in the way of. -/
def Step.ideal : Step T → T → Option T
  | .call ok, t => if ok t then some t else none
  | .sql ok f, t => if ok then f t else none
  | .access ok, t => if ok t then some t else none

/-- What becomes of the client at a step that does not succeed. -/
def Step.failure : Step T → Ending
  | .access _ => .killed
  | _ => .failed

/-- What a list of calls makes of the content, if none fails. -/
def completes : List (Step T) → T → Option T
  | [], t => some t
  | s :: rest, t => (s.ideal t).bind (completes rest)

/-- How the client ends that makes these calls. -/
def ending : List (Step T) → T → Ending
  | [], _ => .done
  | s :: rest, t =>
    match s.ideal t with
    | some t' => ending rest t'
    | none => s.failure

/-- What the calls before the first that fails make of the content. -/
def carriedOut : List (Step T) → T → T
  | [], t => t
  | s :: rest, t =>
    match s.ideal t with
    | some t' => carriedOut rest t'
    | none => t

@[simp] theorem completes_nil (t : T) : completes [] t = some t := rfl

@[simp] theorem completes_call {ok : T → Bool} {rest : List (Step T)} {t t' : T} :
    completes (.call ok :: rest) t = some t' ↔ ok t = true ∧ completes rest t = some t' := by
  simp only [completes, Step.ideal]
  split <;> simp_all

@[simp] theorem completes_sql {ok : Bool} {f : T → Option T} {rest : List (Step T)} {t t' : T} :
    completes (.sql ok f :: rest) t = some t' ↔
      ok = true ∧ ∃ u, f t = some u ∧ completes rest u = some t' := by
  simp only [completes, Step.ideal]
  split <;> simp_all [Option.bind_eq_some_iff]

@[simp] theorem completes_access {ok : T → Bool} {rest : List (Step T)} {t t' : T} :
    completes (.access ok :: rest) t = some t' ↔ ok t = true ∧ completes rest t = some t' := by
  simp only [completes, Step.ideal]
  split <;> simp_all

theorem Step.failure_ne_done (s : Step T) : s.failure ≠ .done := by
  cases s <;> simp [Step.failure]

/-- The calls come to their end exactly if none fails. -/
theorem ending_eq_done_iff {steps : List (Step T)} {t : T} :
    ending steps t = .done ↔ (completes steps t).isSome := by
  induction steps generalizing t with
  | nil => simp [ending]
  | cons s rest ih =>
      cases hs : s.ideal t with
      | some t' => simp [ending, completes, hs, ih]
      | none => simp [ending, completes, hs, s.failure_ne_done]

theorem completes_append (a b : List (Step T)) (t : T) :
    completes (a ++ b) t = (completes a t).bind (completes b) := by
  induction a generalizing t with
  | nil => rfl
  | cons s a ih =>
      rw [List.cons_append, completes, completes, Option.bind_assoc]
      congr 1
      funext t'
      exact ih t'

@[simp] theorem completes_append_eq_some {a b : List (Step T)} {t t' : T} :
    completes (a ++ b) t = some t' ↔ ∃ u, completes a t = some u ∧ completes b u = some t' := by
  rw [completes_append, Option.bind_eq_some_iff]

/-- A loop: the calls for each element, one element after the other. -/
theorem completes_flatMap {α : Type _} {f : α → List (Step T)} {p : α → Bool} {g : α → T → T}
    (hf : ∀ x t t', completes (f x) t = some t' ↔ p x = true ∧ g x t = t') (l : List α) {t t' : T} :
    completes (l.flatMap f) t = some t' ↔
      (∀ x ∈ l, p x = true) ∧ l.foldl (fun t x => g x t) t = t' := by
  induction l generalizing t with
  | nil => simp
  | cons x l ih => simp [hf, ih, and_assoc]

/-- A loop with one call for each element. -/
theorem completes_map {α : Type _} {f : α → Step T} {p : α → Bool} {g : α → T → T}
    (hf : ∀ x t, (f x).ideal t = if p x = true then some (g x t) else none) (l : List α) {t t' : T} :
    completes (l.map f) t = some t' ↔
      (∀ x ∈ l, p x = true) ∧ l.foldl (fun t x => g x t) t = t' := by
  rw [List.map_eq_flatMap]
  refine completes_flatMap (fun x t t' => ?_) l
  simp only [completes, hf]
  split <;> simp_all

/-! ## the connection -/

/-- The committed content, and the open block: its content, or `none` once a
statement in it has failed. -/
structure Conn (T : Type _) where
  committed : T
  block : Option (Option T) := none

namespace Conn

/-- The content that a statement sees; the last committed one in a spoiled block. -/
def view (c : Conn T) : T := (c.block.getD none).getD c.committed

/-- `BEGIN`; inside a block it is only warned about. -/
def begin (ok : Bool) (c : Conn T) : Bool × Conn T :=
  match c.block, ok with
  | none, true => (true, { c with block := some (some c.committed) })
  | some (some _), true => (true, c)
  | _, _ => (false, c)

/-- One call. -/
def step (s : Step T) (c : Conn T) : Ending × Conn T :=
  match c.block with
  | none =>
    match s.ideal c.committed with
    | some t => (.done, { c with committed := t })
    | none => (s.failure, c)
  | some none => (.failed, c)
  | some (some t) =>
    match s.ideal t, s with
    | some t', _ => (.done, { c with block := some (some t') })
    | none, .sql _ _ => (.failed, { c with block := some none })
    | none, s => (s.failure, c)

/-- What the end of a block came to.  Only `refused` is a failure for the client:
the end of a spoiled block, or without a block, is a success. -/
inductive EndRc where
  | committed
  | rolledBack
  | noBlock
  | refused
deriving DecidableEq, Repr

/-- `END`; a block whose end is refused is lost. -/
def commit (ok : Bool) (c : Conn T) : EndRc × Conn T :=
  match c.block, ok with
  | none, true => (.noBlock, c)
  | none, false => (.refused, c)
  | some (some t), true => (.committed, { committed := t })
  | some none, true => (.rolledBack, { c with block := none })
  | some _, false => (.refused, { c with block := none })

/-- `ABORT`. -/
def rollback (ok : Bool) (c : Conn T) : Bool × Conn T :=
  if ok then (true, { c with block := none }) else (false, c)

/-- The connection is closed, or lost with its client: so is what it has not
committed. -/
def close (c : Conn T) : T := c.committed

end Conn

/-- Call after call, up to the first that fails. -/
def runSteps : List (Step T) → Conn T → Ending × Conn T
  | [], c => (.done, c)
  | s :: rest, c =>
    match c.step s with
    | (.done, c) => runSteps rest c
    | (e, c) => (e, c)

/-- **Inside a block** nothing is committed, and where the calls come to their end the
block holds the result. -/
theorem runSteps_block (steps : List (Step T)) (base t : T) :
    (runSteps steps ⟨base, some (some t)⟩).1 = ending steps t ∧
      (runSteps steps ⟨base, some (some t)⟩).2.committed = base ∧
      ∀ t', completes steps t = some t' →
        runSteps steps ⟨base, some (some t)⟩ = (.done, ⟨base, some (some t')⟩) := by
  induction steps generalizing t with
  | nil => exact ⟨rfl, rfl, fun t' h => by rw [Option.some.inj h]; rfl⟩
  | cons s rest ih =>
      cases hs : s.ideal t with
      | some t' =>
          have hstep : Conn.step s ⟨base, some (some t)⟩ = (.done, ⟨base, some (some t')⟩) := by
            simp [Conn.step, hs]
          simp only [runSteps, hstep, ending, completes, hs, Option.bind_some]
          exact ih t'
      | none =>
          simp only [runSteps, ending, completes, hs, Option.bind_none, Conn.step]
          cases s <;> exact ⟨rfl, rfl, fun _ h => nomatch h⟩

/-- **Without a block** every call that is carried out is committed. -/
theorem runSteps_autocommit (steps : List (Step T)) (t : T) :
    runSteps steps ⟨t, none⟩ = (ending steps t, ⟨carriedOut steps t, none⟩) := by
  induction steps generalizing t with
  | nil => rfl
  | cons s rest ih =>
      cases hs : s.ideal t with
      | some t' => simp [runSteps, Conn.step, ending, carriedOut, hs, ih]
      | none =>
          simp only [runSteps, Conn.step, ending, carriedOut, hs]
          cases s <;> rfl

end Txn
