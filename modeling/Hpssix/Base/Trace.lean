/-!
# Base.Trace

Runs of a deterministic transition system: a step function folded over a
list of events.  A property "of every step of a run" is `AllSteps`, which
looks at the state a step starts from together with its event.

The induction over a run is done here, once:

* `invariant_run` — an invariant that every admitted step preserves holds at
  the end of every run of admitted steps;
* `AllSteps.of_invariant` — what the invariant gives at one step holds at
  every step;
* `allSteps_comap` — a run that carries more than the state it is about has the
  same steps;
* `allSteps_congr` — two properties of steps that agree wherever the
  invariant holds agree on whole runs.

This module depends only on the Lean 4 core library.
-/

namespace Trace

variable {σ ε : Type _} (step : σ → ε → σ)

/-- The state a list of events leads to. -/
def run (s : σ) (es : List ε) : σ := es.foldl step s

@[simp] theorem run_nil (s : σ) : run step s [] = s := rfl

@[simp] theorem run_cons (s : σ) (e : ε) (es : List ε) :
    run step s (e :: es) = run step (step s e) es := rfl

@[simp] theorem run_append (s : σ) (xs ys : List ε) :
    run step s (xs ++ ys) = run step (run step s xs) ys :=
  List.foldl_append

/-- Every step of the run satisfies `P`, at the state it starts from. -/
def AllSteps (P : σ → ε → Prop) : σ → List ε → Prop
  | _, [] => True
  | s, e :: es => P s e ∧ AllSteps P (step s e) es

instance decidableAllSteps (P : σ → ε → Prop) [∀ s e, Decidable (P s e)] :
    (s : σ) → (es : List ε) → Decidable (AllSteps step P s es)
  | _, [] => isTrue trivial
  | s, e :: es =>
    have := decidableAllSteps P (step s e) es
    inferInstanceAs (Decidable (P s e ∧ AllSteps step P (step s e) es))

variable {step} {P Q : σ → ε → Prop} {Inv : σ → Prop}

theorem allSteps_append {s : σ} {xs ys : List ε} :
    AllSteps step P s (xs ++ ys) ↔
      AllSteps step P s xs ∧ AllSteps step P (run step s xs) ys := by
  induction xs generalizing s with
  | nil => simp [AllSteps]
  | cons e es ih => simp [AllSteps, ih, and_assoc]

/-- A property of all steps, read at one place of the event list. -/
theorem AllSteps.at {s : σ} {pre post : List ε} {e : ε}
    (h : AllSteps step P s (pre ++ e :: post)) : P (run step s pre) e :=
  (allSteps_append.mp h).2.1

/-- A property of all steps holds of the steps of an initial part. -/
theorem AllSteps.initial {s : σ} {pre post : List ε}
    (h : AllSteps step P s (pre ++ post)) : AllSteps step P s pre :=
  (allSteps_append.mp h).1

/-- A property of all steps is one of each place of the event list. -/
theorem allSteps_iff {s : σ} {es : List ε} : AllSteps step P s es ↔
    ∀ pre e post, es = pre ++ e :: post → P (run step s pre) e := by
  constructor
  · intro h pre e post hes
    rw [hes] at h
    exact h.at
  · intro h
    induction es generalizing s with
    | nil => trivial
    | cons e es ih =>
        refine ⟨h [] e es rfl, ih fun pre e' post hes => ?_⟩
        exact h (e :: pre) e' post (by rw [hes, List.cons_append])

/-- **Invariant rule**: what every admitted step preserves holds at the end of
every run of admitted steps. -/
theorem invariant_run {s : σ} {es : List ε} (h0 : Inv s) (hP : AllSteps step P s es)
    (hstep : ∀ s e, Inv s → P s e → Inv (step s e)) : Inv (run step s es) := by
  induction es generalizing s with
  | nil => exact h0
  | cons e es ih => exact ih (hstep s e h0 hP.1) hP.2

/-- The invariant rule when every step is admitted. -/
theorem invariant_run_all {s : σ} (es : List ε) (h0 : Inv s)
    (hstep : ∀ s e, Inv s → Inv (step s e)) : Inv (run step s es) := by
  induction es generalizing s with
  | nil => exact h0
  | cons e es ih => exact ih (hstep s e h0)

/-- The invariant rule at every state that a run of admitted steps goes through. -/
theorem invariant_at {s : σ} {es pre : List ε} (h0 : Inv s) (hP : AllSteps step P s es)
    (hstep : ∀ s e, Inv s → P s e → Inv (step s e)) (hpre : pre <+: es) :
    Inv (run step s pre) := by
  obtain ⟨post, rfl⟩ := hpre
  exact invariant_run h0 hP.initial hstep

/-- Two properties of admitted steps that agree wherever the invariant holds, and
of which one preserves it, agree on whole runs. -/
theorem allSteps_congr {A : σ → ε → Prop} {s : σ} {es : List ε} (hA : AllSteps step A s es)
    (h0 : Inv s) (hiff : ∀ s e, Inv s → A s e → (P s e ↔ Q s e))
    (hstep : ∀ s e, Inv s → A s e → P s e → Inv (step s e)) :
    AllSteps step P s es ↔ AllSteps step Q s es := by
  induction es generalizing s with
  | nil => exact Iff.rfl
  | cons e es ih =>
      constructor
      · rintro ⟨hp, hps⟩
        exact ⟨(hiff s e h0 hA.1).mp hp, (ih hA.2 (hstep s e h0 hA.1 hp)).mp hps⟩
      · rintro ⟨hq, hqs⟩
        have hp := (hiff s e h0 hA.1).mpr hq
        exact ⟨hp, (ih hA.2 (hstep s e h0 hA.1 hp)).mpr hqs⟩

theorem AllSteps.and {s : σ} {es : List ε} (hP : AllSteps step P s es)
    (hQ : AllSteps step Q s es) : AllSteps step (fun s e => P s e ∧ Q s e) s es := by
  induction es generalizing s with
  | nil => trivial
  | cons e es ih => exact ⟨⟨hP.1, hQ.1⟩, ih hP.2 hQ.2⟩

/-- A state that carries a smaller one along: the steps of the run are those of
the smaller state's run. -/
theorem allSteps_comap {τ : Type _} {step' : τ → ε → τ} {p : τ → σ}
    (hp : ∀ t e, p (step' t e) = step (p t) e) {t : τ} {es : List ε} :
    AllSteps step' (fun t e => P (p t) e) t es ↔ AllSteps step P (p t) es := by
  induction es generalizing t with
  | nil => exact Iff.rfl
  | cons e es ih => simp only [AllSteps, ih, hp]

/-- What the invariant gives at one step holds at every step. -/
theorem AllSteps.of_invariant {s : σ} {es : List ε} (hP : AllSteps step P s es) (h0 : Inv s)
    (hstep : ∀ s e, Inv s → P s e → Inv (step s e))
    (hQ : ∀ s e, Inv s → P s e → Q s e) : AllSteps step Q s es := by
  induction es generalizing s with
  | nil => trivial
  | cons e es ih => exact ⟨hQ s e h0 hP.1, ih hP.2 (hstep s e h0 hP.1)⟩

end Trace
