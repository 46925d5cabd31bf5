import Hpssix.UndividedRounds

/-!
# Hpssix.RunOrder

The order in which the workers answer.  A round asks the extractor when the builder has
replied, and a late request can still be served when the scanner that made it is gone;
nevertheless the extractor is never ahead of the builder.

* `built_before_extracted` — before the extractor takes up a task, the builder has answered
  the call for it that the same scanner process made just before.
-/

namespace Hpssix

open Cursor Fate Trace

namespace Protocol

variable {site : Site}

/-- The builder's call of the round in which the extractor is called. -/
def Precedes (b c : RunCall) : Prop :=
  b.worker = .builder ∧ b.epoch = c.epoch ∧ b.seq + 1 = c.seq ∧ b.task = c.task

/-- Every extractor call, answered or not, came after the answer of its builder call; and the
call that the scanner waits for is its last one. -/
structure BuiltFirst (σ : System) : Prop where
  waited : ∀ p call status, σ.scanner = some p → p.phase = .building call status →
    call.worker = .builder ∧ call.epoch = σ.epoch ∧ call.seq + 1 = p.calls ∧ call.task = status.id
  pending : ∀ c ∈ σ.runs .extractor, ∃ b ∈ σ.served, Precedes b.call c
  answered : ∀ pre s post, σ.served = pre ++ s :: post → s.call.worker = .extractor →
    ∃ b ∈ pre, Precedes b.call s.call

theorem builtFirst_init : BuiltFirst {} where
  waited p call status hp := by cases hp
  pending c hc := by simp [System.runs] at hc
  answered pre s post h := by
    have hlen := congrArg List.length h
    simp at hlen

section Step
variable {σ σ' : System}

/-- The scanner's wait after a step. -/
def Waits (σ σ' : System) : Prop :=
  ∀ p' call status, σ'.scanner = some p' → p'.phase = .building call status →
    ∃ p, σ.scanner = some p ∧ p.phase = .building call status ∧ p.calls = p'.calls ∧
      σ'.epoch = σ.epoch

/-- A step without a new call or answer. -/
theorem BuiltFirst.mono (h : BuiltFirst σ) (hwaits : Waits σ σ')
    (hruns : σ'.runs .extractor ⊆ σ.runs .extractor) (hserved : σ'.served = σ.served) :
    BuiltFirst σ' where
  waited p' call status hp' hphase := by
    obtain ⟨p, hp, hsame, hcalls, hepoch⟩ := hwaits p' call status hp' hphase
    rw [← hcalls, hepoch]
    exact h.waited p call status hp hsame
  pending c hc := by
    rw [hserved]
    exact h.pending c (hruns hc)
  answered := by
    rw [hserved]
    exact h.answered

theorem waits_goOn {p : ScannerDaemon} {phase : Phase}
    (hphase : ∀ call status, phase ≠ .building call status) : Waits σ (σ.goOn p phase) := by
  intro p' call status hp' hbuilding
  obtain rfl : { p with phase } = p' := by simpa [System.goOn] using hp'
  exact absurd hbuilding (hphase call status)

theorem waits_same (hscanner : σ'.scanner = σ.scanner) (hepoch : σ'.epoch = σ.epoch) :
    Waits σ σ' := fun p' _ _ hp' hphase =>
  ⟨p', hscanner ▸ hp', hphase, rfl, hepoch⟩

/-- The requests at the extractor, when one worker changes. -/
theorem runs_extractor_subset {k : WorkerId} {w : Option WorkerDaemon}
    (hw : (w.elim [] WorkerDaemon.runs).Subperm (σ.runs k)) :
    (σ.setWorker k w).runs .extractor ⊆ σ.runs .extractor :=
  (System.runs_setWorker_subperm hw .extractor).subset

theorem builtFirst_change {e : Event} (h : BuiltFirst σ) (ha : Accounted σ)
    (hc : Change site σ e σ') : BuiltFirst σ' := by
  have hsub : σ.runs .extractor ⊆ σ.runs .extractor := List.Subset.refl _
  cases hc with
  | same => exact h
  | scannerStarts hnone =>
      refine h.mono (fun p' call status hp' hphase => ?_) hsub rfl
      cases hp'
      cases hphase
  | scannerDies e replies hreplies =>
      exact h.mono (fun p' call status hp' _ => (Option.some_ne_none _ hp'.symm).elim) hsub rfl
  | workerStarts k hnone =>
      exact h.mono (waits_same rfl rfl) (runs_extractor_subset (by simp [WorkerDaemon.runs])) rfl
  | workerDies e k =>
      exact h.mono (waits_same rfl rfl)
        (runs_extractor_subset (k := k) (w := none) List.nil_subperm) rfl
  | @connects k w hw hconn =>
      refine h.mono (waits_same rfl rfl) (runs_extractor_subset (k := k) ?_) rfl
      rw [System.runs_of_worker hw]
      exact List.Subperm.refl _
  | @accepts i p k hp hk =>
      refine h.mono (fun p' call status hp' hphase => ?_) hsub rfl
      cases hp'
      exact ⟨p, hp, hphase, rfl, rfl⟩
  | drops i => exact h.mono (waits_same rfl rfl) hsub rfl
  | moves e hp hfrom hto =>
      refine h.mono (waits_goOn fun call status => ?_) hsub rfl
      rcases hto with rfl | rfl <;> simp
  | scans hp hphase hrunning hopen hdir => exact h.mono (waits_goOn (by simp)) hsub rfl
  | @asks e p k w rest hp hfrom hw =>
      refine h.mono (waits_goOn (by simp)) (runs_extractor_subset (k := k) ?_) rfl
      rw [Option.elim_some, runs_enqueue_terminate, System.runs_of_worker hw]
  | @builds builderStart connected p env status w hp hphase hscript hfound hw =>
      refine ⟨fun p' call status' hp' hbuilding => ?_, ?_, h.answered⟩
      · cases hp'
        cases hbuilding
        exact ⟨rfl, rfl, rfl, rfl⟩
      · have hruns : (σ.setWorker .builder (some { w with
            requests := w.requests ++ [.run ⟨.builder, σ.epoch, p.calls, status.id⟩] })).runs
              .extractor = σ.runs .extractor := System.runs_setWorker_of_ne (by decide) ..
        intro c hc
        exact h.pending c (hruns ▸ hc)
  | @extracts i time connected record p r status w hp hphase hr hw =>
      refine ⟨fun p' call status' hp' hbuilding => ?_, fun c hc => ?_, h.answered⟩
      · cases hp'
        cases hbuilding
      · have hc' : c ∈ ({ w with requests := w.requests ++
            [.run ⟨.extractor, σ.epoch, p.calls, status.id⟩] } : WorkerDaemon).runs := by
          rw [← System.runs_of_worker (σ := σ.setWorker .extractor _) (Function.update_self ..)]
          exact hc
        rw [(runs_enqueue_run w _).mem_iff] at hc'
        obtain rfl | hold := List.mem_cons.mp hc'
        · -- the builder's reply is the answer of the call that the scanner waits for
          obtain ⟨s, hs, hcall, -⟩ := ha.replied r hr
          have hwaited := h.waited p r.call status hp hphase
          exact ⟨s, hs, hcall ▸ hwaited⟩
        · exact h.pending c (System.runs_of_worker hw ▸ hold)
  | records i time connected record hp hphase hr hto =>
      refine h.mono (waits_goOn fun call status => ?_) hsub rfl
      rcases hto with rfl | rfl <;> simp
  | @serves k i launch w c hw hidle hi =>
      refine h.mono (waits_same rfl rfl) (runs_extractor_subset (k := k) ?_) rfl
      rw [System.runs_of_worker hw]
      exact (runs_serves hidle hi launch _).subperm
  | @finishes k w s service child hw hs hrun =>
      have hmem : s.call ∈ σ.runs k := by
        rw [System.runs_of_worker hw, (runs_finishes hs service).mem_iff]
        exact List.mem_cons_self
      have hruns : (σ.setWorker k (some { w with serving := none, service })).runs .extractor ⊆
          σ.runs .extractor := runs_extractor_subset (by
        rw [System.runs_of_worker hw]
        exact subperm_finishes hs service)
      refine ⟨h.waited, fun c hc => ?_, fun pre x post hserved hx => ?_⟩
      · obtain ⟨b, hb, hpre⟩ := h.pending c (hruns hc)
        exact ⟨b, List.mem_append_left _ hb, hpre⟩
      · have hserved' : σ.served ++ [s] = pre ++ x :: post := hserved
        obtain rfl | ⟨post', y, rfl⟩ := List.eq_nil_or_concat post
        · obtain ⟨rfl, hlast⟩ := List.append_inj' hserved' rfl
          obtain rfl : s = x := (List.cons.inj hlast).1
          have hk : s.call.worker = k := ha.addressed k _ hmem
          exact h.pending _ (by rw [← hx, hk]; exact hmem)
        · rw [List.concat_eq_append, ← List.cons_append, ← List.append_assoc] at hserved'
          exact h.answered pre x post' (List.append_inj' hserved' rfl).1 hx
  | orphanEnds i => exact h.mono (waits_same rfl rfl) hsub rfl

end Step

/-- What holds in every state of a run. -/
def InOrder (σ : System) : Prop := BuiltFirst σ ∧ Accounted σ

theorem inOrder_run (site : Site) (es : List Event) : InOrder (run (step site) {} es) :=
  invariant_run_all es ⟨builtFirst_init, accounted_init⟩ fun σ e h =>
    ⟨builtFirst_change h.1 h.2 (change site σ e), accounted_step h.2 e⟩

/-- **The builder first**: in every run of the three daemons, before the extractor answers a call,
the builder has answered the call for the same task that the same scanner process made just
before. -/
theorem built_before_extracted (site : Site) (es : List Event) {pre post : List RunCall}
    {c : RunCall} (hserved : (run (step site) {} es).served.map Serving.call = pre ++ c :: post)
    (hc : c.worker = .extractor) : ∃ b ∈ pre, Precedes b c := by
  obtain ⟨pre', rest, hsplit, rfl, hrest⟩ := List.map_eq_append_iff.mp hserved
  obtain ⟨s, post', rfl, rfl, rfl⟩ := List.map_eq_cons_iff.mp hrest
  obtain ⟨b, hb, hpre⟩ := (inOrder_run site es).1.answered pre' s post' hsplit hc
  exact ⟨b.call, List.mem_map_of_mem hb, hpre⟩

theorem built_before_extracted_quietRound :
    ∃ b ∈ [⟨.builder, 1, 0, 1⟩], Precedes b ⟨.extractor, 1, 1, 1⟩ :=
  have hserved : (run (step (utcSite (.of 1))) {} (startUp ++ roundEvents quietRound)).served.map
      Serving.call = [⟨.builder, 1, 0, 1⟩] ++ ⟨.extractor, 1, 1, 1⟩ :: [] := by decide +kernel
  built_before_extracted (utcSite (.of 1)) _ hserved rfl

end Protocol

end Hpssix
