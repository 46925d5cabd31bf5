import Hpssix.Protocol

/-!
# Hpssix.RunCalls

The run calls of the scanner daemons over any interleaving of the three daemons.  A
call is in one place: at the worker it was made to, or among the answered ones.

* `served_once` — no request is answered twice, and every reply is the answer of the
  service that the call was made to;
* `rounds_atomic` — the master db is what a sequence of undivided rounds makes of
  it, each with two answered requests of its own.
-/

namespace Hpssix

open CText Cursor Fate Lite Trace

namespace Protocol

variable {site : Site}

/-! ## where a call is -/

namespace System

variable {σ : System} {k : WorkerId}

/-- The calls of a worker that is replaced are those of the new one. -/
theorem runs_setWorker_self (σ : System) (k : WorkerId) (w : Option WorkerDaemon) :
    (σ.setWorker k w).runs k = w.elim [] WorkerDaemon.runs := by
  simp [runs, setWorker]

/-- The calls of the other worker are as before. -/
theorem runs_setWorker_of_ne {j : WorkerId} (h : j ≠ k) (σ : System) (w : Option WorkerDaemon) :
    (σ.setWorker k w).runs j = σ.runs j := by
  simp [runs, setWorker, Function.update_of_ne h]

theorem runs_of_worker {w : WorkerDaemon} (hw : σ.worker k = some w) : σ.runs k = w.runs := by
  simp [runs, hw]

/-- A call at a worker after one was replaced. -/
theorem mem_runs_setWorker {w : Option WorkerDaemon} {j : WorkerId} {c : RunCall}
    (h : c ∈ (σ.setWorker k w).runs j) :
    j = k ∧ c ∈ w.elim [] WorkerDaemon.runs ∨ j ≠ k ∧ c ∈ σ.runs j := by
  by_cases hj : j = k
  · subst hj
    rw [runs_setWorker_self] at h
    exact .inl ⟨rfl, h⟩
  · rw [runs_setWorker_of_ne hj] at h
    exact .inr ⟨hj, h⟩

/-- A worker changes, without a new request. -/
theorem runs_setWorker_subperm {w : Option WorkerDaemon}
    (hw : (w.elim [] WorkerDaemon.runs).Subperm (σ.runs k)) (j : WorkerId) :
    ((σ.setWorker k w).runs j).Subperm (σ.runs j) := by
  by_cases hj : j = k
  · subst hj
    rwa [runs_setWorker_self]
  · rw [runs_setWorker_of_ne hj]

/-- In how many places a call is. -/
def copies (σ : System) (c : RunCall) : Nat :=
  (σ.runs .builder).count c + (σ.runs .extractor).count c + (σ.served.map Serving.call).count c

/-- Copies are counted at the workers and among what was served. -/
theorem copies_congr {σ' : System} (hworker : σ'.worker = σ.worker) (hserved : σ'.served = σ.served)
    (c : RunCall) : σ'.copies c = σ.copies c := by
  simp [copies, runs, hworker, hserved]

/-- A call is answered. -/
theorem copies_append (σ σ' : System) {s : Serving} (hworker : σ'.worker = σ.worker)
    (hserved : σ'.served = σ.served ++ [s]) (c : RunCall) :
    σ'.copies c = σ.copies c + if s.call = c then 1 else 0 := by
  have hruns : ∀ k, σ'.runs k = σ.runs k := fun k => by simp [runs, hworker]
  simp only [copies, hruns, hserved, List.map_append, List.map_cons, List.map_nil,
    List.count_append, List.count_singleton, beq_iff_eq]
  omega

/-- A call at one worker is exchanged for another. -/
theorem copies_setWorker (σ : System) (k : WorkerId) (w : Option WorkerDaemon) (c : RunCall) :
    (σ.setWorker k w).copies c + (σ.runs k).count c =
      σ.copies c + (w.elim [] WorkerDaemon.runs).count c := by
  have hserved : (σ.setWorker k w).served = σ.served := rfl
  cases k with
  | builder =>
      rw [copies, copies, runs_setWorker_self, runs_setWorker_of_ne (by decide), hserved]
      omega
  | extractor =>
      rw [copies, copies, runs_setWorker_self, runs_setWorker_of_ne (by decide), hserved]
      omega

/-- The copies at one worker are some of all. -/
theorem count_runs_le (σ : System) (k : WorkerId) (c : RunCall) : (σ.runs k).count c ≤ σ.copies c := by
  unfold copies
  cases k <;> omega

/-- So are those that were served. -/
theorem count_served_le (σ : System) (c : RunCall) :
    (σ.served.map Serving.call).count c ≤ σ.copies c := by
  unfold copies
  omega

end System

/-- A request to run that arrives is one call more. -/
theorem runs_enqueue_run (w : WorkerDaemon) (c : RunCall) :
    ({ w with requests := w.requests ++ [.run c] } : WorkerDaemon).runs.Perm (c :: w.runs) := by
  simp only [WorkerDaemon.runs, List.filterMap_append, List.filterMap_cons, Request.call,
    List.filterMap_nil, List.append_assoc, List.singleton_append]
  exact List.perm_middle

/-- A request to end is none. -/
theorem runs_enqueue_terminate (w : WorkerDaemon) :
    ({ w with requests := w.requests ++ [.terminate] } : WorkerDaemon).runs = w.runs := by
  simp [WorkerDaemon.runs, Request.call]

/-- A request taken up is still at the worker. -/
theorem runs_serves {w : WorkerDaemon} {i : Nat} {c : RunCall} (hidle : w.serving = none)
    (hi : w.requests[i]? = some (.run c)) (launch : LaunchEnv) (service : Service) :
    ({ w with
        requests := w.requests.eraseIdx i
        serving := some ⟨c, launch, w.service⟩
        service } : WorkerDaemon).runs.Perm w.runs := by
  obtain ⟨hlt, hget⟩ := List.getElem?_eq_some_iff.mp hi
  have hperm := (List.getElem_cons_eraseIdx_perm hlt).filterMap Request.call
  rw [hget, List.filterMap_cons] at hperm
  simp only [WorkerDaemon.runs, hidle, Option.map_some, Option.map_none, Option.toList_some,
    Option.toList_none, List.append_nil]
  exact (List.perm_append_singleton _ _).trans hperm

/-- The call that a worker is done with was one of its calls. -/
theorem runs_finishes {w : WorkerDaemon} {s : Serving} (hs : w.serving = some s)
    (service : Service) :
    w.runs.Perm (s.call :: ({ w with serving := none, service } : WorkerDaemon).runs) := by
  simp only [WorkerDaemon.runs, hs, Option.map_some, Option.map_none, Option.toList_some,
    Option.toList_none, List.append_nil]
  exact List.perm_append_singleton _ _

/-- The others are left. -/
theorem subperm_finishes {w : WorkerDaemon} {s : Serving} (hs : w.serving = some s)
    (service : Service) :
    ({ w with serving := none, service } : WorkerDaemon).runs.Subperm w.runs :=
  List.subperm_cons_self.trans (runs_finishes hs service).symm.subperm

/-! ## the invariant -/

/-- The scanner process that makes a call has made it. -/
def System.Issued (σ : System) (c : RunCall) : Prop :=
  c.epoch ≤ σ.epoch ∧ ∀ p, σ.scanner = some p → c.epoch = σ.epoch → c.seq < p.calls

/-- The service that answered a request replies with this count. -/
def Serving.Answers (s : Serving) (n : Int32) : Prop :=
  ∃ service child, runSvc s.call.worker.keys s.launch s.call.task s.before = done (service, child) ∧
    service.result = n

/-- Every call is in one place, at the worker it was made to, and the replies on the
way are those of answered requests. -/
structure Accounted (σ : System) : Prop where
  once : ∀ c, σ.copies c ≤ 1
  addressed : ∀ k, ∀ c ∈ σ.runs k, c.worker = k
  issued : ∀ c, 0 < σ.copies c → σ.Issued c
  replied : ∀ r ∈ σ.replies, ∃ s ∈ σ.served, s.call = r.call ∧ s.Answers r.count

/-- Nothing is under way at first. -/
theorem accounted_init : Accounted {} where
  once c := by simp [System.copies, System.runs]
  addressed k c hc := by simp [System.runs] at hc
  issued c hc := by simp [System.copies, System.runs] at hc
  replied r hr := by simp at hr

section Step
variable {σ σ' : System}

/-- A step that makes no call and answers none. -/
theorem Accounted.mono (h : Accounted σ) (hcopies : ∀ c, σ'.copies c ≤ σ.copies c)
    (hruns : ∀ k, σ'.runs k ⊆ σ.runs k) (hissued : ∀ c, σ.Issued c → σ'.Issued c)
    (hserved : σ'.served = σ.served) (hreplies : σ'.replies ⊆ σ.replies) : Accounted σ' where
  once c := le_trans (hcopies c) (h.once c)
  addressed k c hc := h.addressed k c (hruns k hc)
  issued c hc := hissued c (h.issued c (lt_of_lt_of_le hc (hcopies c)))
  replied r hr := by
    rw [hserved]
    exact h.replied r (hreplies hr)

/-- A step that leaves the workers alone. -/
theorem Accounted.of_workers (h : Accounted σ) (hworker : σ'.worker = σ.worker)
    (hissued : ∀ c, σ.Issued c → σ'.Issued c) (hserved : σ'.served = σ.served)
    (hreplies : σ'.replies ⊆ σ.replies) : Accounted σ' :=
  h.mono (fun c => (System.copies_congr hworker hserved c).le)
    (fun k => by simp [System.runs, hworker]) hissued hserved hreplies

/-- A step that changes one worker, without a new request. -/
theorem Accounted.of_worker (h : Accounted σ) {k : WorkerId} {w : Option WorkerDaemon}
    (hworker : σ'.worker = (σ.setWorker k w).worker)
    (hw : (w.elim [] WorkerDaemon.runs).Subperm (σ.runs k))
    (hissued : ∀ c, σ.Issued c → σ'.Issued c) (hserved : σ'.served = σ.served)
    (hreplies : σ'.replies ⊆ σ.replies) : Accounted σ' := by
  refine h.mono (fun c => ?_) (fun j => ?_) hissued hserved hreplies
  · have hcount := σ.copies_setWorker k w c
    have hle := hw.count_le c
    rw [System.copies_congr (σ := σ.setWorker k w) hworker hserved]
    omega
  · have hruns : σ'.runs j = (σ.setWorker k w).runs j := by simp [System.runs, hworker]
    rw [hruns]
    exact (System.runs_setWorker_subperm hw j).subset

theorem issued_goOn {p : ScannerDaemon} {phase : Phase} (hp : σ.scanner = some p) {c : RunCall}
    (h : σ.Issued c) : (σ.goOn p phase).Issued c := by
  refine ⟨h.1, fun p' hp' he => ?_⟩
  obtain rfl : { p with phase } = p' := by simpa [System.goOn] using hp'
  exact h.2 p hp he

/-- A run call. -/
theorem Accounted.call (h : Accounted σ) {p : ScannerDaemon} (hp : σ.scanner = some p)
    {k : WorkerId} {w : WorkerDaemon} (hw : σ.worker k = some w) (task : UInt64) (phase : Phase) :
    Accounted (σ.call p k w ⟨k, σ.epoch, p.calls, task⟩ phase) := by
  have hnew : σ.copies ⟨k, σ.epoch, p.calls, task⟩ = 0 := by
    by_contra hne
    have := (h.issued _ (Nat.pos_of_ne_zero hne)).2 p hp rfl
    simp at this
  have hcopies : ∀ c, (σ.call p k w ⟨k, σ.epoch, p.calls, task⟩ phase).copies c =
      σ.copies c + if ⟨k, σ.epoch, p.calls, task⟩ = c then 1 else 0 := fun c => by
    have hcount := σ.copies_setWorker k
      (some { w with requests := w.requests ++ [.run ⟨k, σ.epoch, p.calls, task⟩] }) c
    rw [Option.elim_some, (runs_enqueue_run w _).count_eq, List.count_cons,
      System.runs_of_worker hw] at hcount
    have hcall : (σ.call p k w ⟨k, σ.epoch, p.calls, task⟩ phase).copies c =
        (σ.setWorker k (some { w with
          requests := w.requests ++ [.run ⟨k, σ.epoch, p.calls, task⟩] })).copies c :=
      System.copies_congr rfl rfl c
    simp only [beq_iff_eq] at hcount
    omega
  refine ⟨fun c => ?_, fun j c hc => ?_, fun c hc => ?_, h.replied⟩
  · rw [hcopies]
    split
    · next hc =>
      rw [← hc, hnew]
    · exact h.once c
  · obtain ⟨rfl, hc'⟩ | ⟨-, hc'⟩ := System.mem_runs_setWorker (σ := σ) hc
    · rw [Option.elim_some, (runs_enqueue_run w _).mem_iff, ← System.runs_of_worker hw] at hc'
      obtain rfl | hold := List.mem_cons.mp hc'
      · rfl
      · exact h.addressed j c hold
    · exact h.addressed j c hc'
  · rw [hcopies] at hc
    have hscanner : ∀ p', (σ.call p k w ⟨k, σ.epoch, p.calls, task⟩ phase).scanner = some p' →
        p'.calls = p.calls + 1 := fun p' hp' => by
      obtain rfl : { p with calls := p.calls + 1, phase } = p' := by simpa [System.call] using hp'
      rfl
    split at hc
    · next heq =>
      subst heq
      exact ⟨le_refl _, fun p' hp' _ => by rw [hscanner p' hp']; exact Nat.lt_succ_self _⟩
    · obtain ⟨hle, hlt⟩ := h.issued c hc
      refine ⟨hle, fun p' hp' he => ?_⟩
      rw [hscanner p' hp']
      exact Nat.lt_succ_of_lt (hlt p hp he)

/-- An answer. -/
theorem Accounted.answer (h : Accounted σ) {k : WorkerId} {w : WorkerDaemon}
    (hw : σ.worker k = some w) {s : Serving} (hs : w.serving = some s) {service : Service}
    {child : Option Worker}
    (hrun : runSvc k.keys s.launch s.call.task s.before = done (service, child)) :
    Accounted (σ.answer k w s service) := by
  have hperm := runs_finishes hs service
  have hmem : s.call ∈ σ.runs k := by
    rw [System.runs_of_worker hw, hperm.mem_iff]
    exact List.mem_cons_self
  have hcopies : ∀ c, (σ.answer k w s service).copies c = σ.copies c := fun c => by
    have hcount := σ.copies_setWorker k (some { w with serving := none, service }) c
    rw [Option.elim_some, System.runs_of_worker hw, hperm.count_eq, List.count_cons] at hcount
    have hserved : (σ.answer k w s service).copies c =
        (σ.setWorker k (some { w with serving := none, service })).copies c +
          if s.call = c then 1 else 0 := 
        System.copies_append (σ.setWorker k (some { w with serving := none, service }))
          (σ.answer k w s service) rfl rfl c
    simp only [beq_iff_eq] at hcount
    omega
  refine ⟨fun c => (hcopies c).le.trans (h.once c), fun j c hc => ?_, fun c hc => ?_, fun r hr => ?_⟩
  · have hsub : (({ w with serving := none, service } : WorkerDaemon).runs).Subperm (σ.runs k) := by
      rw [System.runs_of_worker hw]
      exact subperm_finishes hs service
    exact h.addressed j c ((System.runs_setWorker_subperm
      (w := some { w with serving := none, service }) hsub j).subset hc)
  · rw [hcopies] at hc
    exact h.issued c hc
  · rcases List.mem_append.mp hr with hr | hr
    · obtain ⟨s', hs', hcall, hanswer⟩ := h.replied r hr
      exact ⟨s', List.mem_append_left _ hs', hcall, hanswer⟩
    · obtain rfl := List.mem_singleton.mp hr
      refine ⟨s, List.mem_append_right _ (List.mem_singleton_self s), rfl, service, child, ?_, rfl⟩
      rw [h.addressed k _ hmem]
      exact hrun

/-- A change keeps the account. -/
theorem accounted_change {e : Event} (h : Accounted σ) (hc : Change site σ e σ') :
    Accounted σ' := by
  have hsame : ∀ c, σ.Issued c → σ.Issued c := fun _ => id
  cases hc with
  | same => exact h
  | scannerStarts hnone =>
      refine h.of_workers rfl (fun c hc => ⟨Nat.le_succ_of_le hc.1, fun p _ he => ?_⟩) rfl
        (List.Subset.refl _)
      have hle := hc.1
      have he' : c.epoch = σ.epoch + 1 := he
      omega
  | scannerDies e replies hreplies =>
      exact h.of_workers rfl (fun c hc => ⟨hc.1, nofun⟩) rfl hreplies.subset
  | workerStarts k hnone =>
      refine h.of_worker (k := k) (w := some {}) rfl ?_ hsame rfl (List.Subset.refl _)
      simp [WorkerDaemon.runs]
  | workerDies e k =>
      exact h.of_worker (k := k) (w := none) rfl (List.nil_subperm) hsame rfl (List.Subset.refl _)
  | connects k hw hconn =>
      refine h.of_worker (k := k) rfl ?_ hsame rfl (List.Subset.refl _)
      rw [System.runs_of_worker hw]
      exact List.Subperm.refl _
  | @accepts i p k hp hk =>
      refine h.of_workers rfl (fun c hc => ⟨hc.1, fun p' hp' he => ?_⟩) rfl (List.Subset.refl _)
      obtain rfl : { p with running := Function.update p.running k true } = p' := by
        simpa using hp'
      exact hc.2 p hp he
  | drops i => exact h.of_workers rfl hsame rfl (List.Subset.refl _)
  | moves e hp hfrom hto =>
      exact h.of_workers rfl (fun c hc => issued_goOn hp hc) rfl (List.Subset.refl _)
  | scans hp hphase hrunning hopen hdir =>
      exact h.of_workers rfl (fun c hc => issued_goOn hp hc) rfl (List.Subset.refl _)
  | asks e hp hfrom hw =>
      refine h.of_worker rfl ?_ (fun c hc => issued_goOn hp hc) rfl (List.Subset.refl _)
      rw [Option.elim_some, runs_enqueue_terminate, System.runs_of_worker hw]
  | builds builderStart connected hp hphase hscript hfound hw => exact h.call hp hw _ _
  | @extracts i time connected record p r status w hp hphase hr hw =>
      have h' : Accounted { σ with replies := σ.replies.erase r } :=
        h.of_workers rfl hsame rfl List.erase_subset
      exact h'.call hp hw _ _
  | records i time connected record hp hphase hr hto =>
      exact h.of_workers rfl (fun c hc => issued_goOn hp hc) rfl List.erase_subset
  | serves k i launch hw hidle hi =>
      refine h.of_worker (k := k) rfl ?_ hsame rfl (List.Subset.refl _)
      rw [Option.elim_some, System.runs_of_worker hw]
      exact (runs_serves hidle hi launch _).subperm
  | finishes k hw hs hrun => exact h.answer hw hs hrun
  | orphanEnds i => exact h.of_workers rfl hsame rfl (List.Subset.refl _)

end Step

/-- So does a step. -/
theorem accounted_step {σ : System} (h : Accounted σ) (e : Event) : Accounted (step site σ e) :=
  accounted_change h (change site σ e)

/-- In every run each call is at most at one place. -/
theorem accounted_run (site : Site) (es : List Event) : Accounted (run (step site) {} es) :=
  invariant_run_all es accounted_init fun _ e h => accounted_step h e

/-- **No request is answered twice**, and every reply on the way carries the count of
the service that the call was made to. -/
theorem served_once (site : Site) (es : List Event) :
    ((run (step site) {} es).served.map Serving.call).Nodup ∧
      ∀ r ∈ (run (step site) {} es).replies, ∃ s ∈ (run (step site) {} es).served,
        s.call = r.call ∧ s.Answers r.count := by
  have h := accounted_run site es
  refine ⟨List.nodup_iff_count_le_one.mpr fun c => ?_, h.replied⟩
  exact (System.count_served_le _ c).trans (h.once c)

/-! ## the rounds -/

/-- The script does not change the task. -/
theorem id_catchScannerLine {status status' : WorkStatus} {line : Text}
    (h : catchScannerLine status line = done status') : status'.id = status.id := by
  obtain ⟨_, _, h⟩ := bind_eq_done.mp h
  obtain ⟨_, _, h⟩ := bind_eq_done.mp h
  obtain ⟨_, _, h⟩ := bind_eq_done.mp h
  obtain ⟨_, _, h⟩ := bind_eq_done.mp h
  cases h
  rfl

/-- What the script prints does not change the task. -/
theorem id_catchScannerOutput {lines : List Text} {status status' : WorkStatus}
    (h : catchScannerOutput lines status = done status') : status'.id = status.id := by
  induction lines generalizing status with
  | nil =>
      cases h
      rfl
  | cons line lines ih =>
      rw [catchScannerOutput, List.foldlM_cons] at h
      obtain ⟨status₁, hline, hrest⟩ := bind_eq_done.mp h
      exact (ih hrest).trans (id_catchScannerLine hline)

/-- A scan has the task of its round. -/
theorem id_of_script {env : ScanEnv} {ret : Int} {status : WorkStatus}
    (h : env.script site = done (ret, status)) : status.id = env.taskId := by
  obtain ⟨last, _, h⟩ := bind_eq_done.mp h
  cases last with
  | error e =>
      cases h
      rfl
  | ok last =>
      dsimp only at h
      split at h
      · cases h
        rfl
      · obtain ⟨status₁, hcatch, h⟩ := bind_eq_done.mp h
        cases h
        exact id_catchScannerOutput hcatch

/-- A round that both workers answered: what it met, and the two requests. -/
structure AnsweredRound where
  env : ScanEnv
  builderStart : UInt64
  builder : Serving
  extractorStart : UInt64
  extractor : Serving
  extractorEnd : UInt64
  record : RecordEnv

/-- The round without anything in between. -/
def AnsweredRound.roundEnv (r : AnsweredRound) : RoundEnv where
  taskId := r.env.taskId
  mdbOpen := r.env.mdbOpen
  datadir := r.env.datadir
  scannerStart := r.env.scannerStart
  launch := r.env.launch
  query := r.env.query
  popen := r.env.popen
  builderStart := r.builderStart
  builder := { launch := r.builder.launch }
  extractorStart := r.extractorStart
  extractor := { launch := r.extractor.launch }
  extractorEnd := r.extractorEnd
  record := r.record

/-- What `do_scanner` makes of the master db in the undivided round. -/
def AnsweredRound.apply (site : Site) (t : List MdbRow) (r : AnsweredRound) : List MdbRow :=
  (doScanner site r.roundEnv ⟨t, r.builder.before, r.extractor.before⟩).daemons.mdb

/-- One call is made before another. -/
def RunCall.Before (c c' : RunCall) : Prop :=
  c.epoch < c'.epoch ∨ c.epoch = c'.epoch ∧ c.seq < c'.seq

/-- The two calls of a round. -/
def AnsweredRound.calls (r : AnsweredRound) : List RunCall := [r.builder.call, r.extractor.call]

/-- The requests of a round are answered ones, each made to its worker for the task of
the round. -/
structure AnsweredRound.Own (served : List Serving) (r : AnsweredRound) : Prop where
  builder : r.builder ∈ served ∧ r.builder.call.worker = .builder ∧
    r.builder.call.task = r.env.taskId
  extractor : r.extractor ∈ served ∧ r.extractor.call.worker = .extractor ∧
    r.extractor.call.task = r.env.taskId

/-- The first checks of `do_scanner` are passed and the script found something. -/
structure ScanEnv.Found (site : Site) (env : ScanEnv) (status : WorkStatus) : Prop where
  mdbOpen : env.mdbOpen = 0
  datadir : env.datadir = 0
  script : env.script site = done (0, status)
  found : status.nScanned + status.nDeleted ≠ 0

/-- A serving that answers is an answer of its service. -/
theorem answered_of_answers {s : Serving} {n : Int32} (h : s.Answers n) :
    Answered s.call.worker.keys { launch := s.launch } s.call.task s.before ∧
      (s.before.after s.call.worker.keys s.launch s.call.task).result = n := by
  obtain ⟨service, child, hrun, hn⟩ := h
  have hsurv : Survives s.call.worker.keys s.launch s.call.task s.before := by
    by_contra hnot
    rw [runSvc_of_not_survives hnot] at hrun
    exact nomatch hrun
  rw [runSvc_of_survives hsurv] at hrun
  cases hrun
  exact ⟨⟨rfl, rfl, rfl, hsurv⟩, hn⟩

/-- What an answered round comes to: the row with the two counts, if it is stored. -/
theorem apply_eq {r : AnsweredRound} {served : List Serving} (hown : r.Own served)
    {status : WorkStatus} (hfound : r.env.Found site status) {n m : Int32}
    (hbuilder : r.builder.Answers n) (hextractor : r.extractor.Answers m) (t : List MdbRow) :
    r.apply site t = (recordRound r.record (roundStatus r.roundEnv n m status) t).1 := by
  obtain ⟨hb, hn⟩ := answered_of_answers hbuilder
  obtain ⟨hx, hm⟩ := answered_of_answers hextractor
  rw [hown.builder.2.1, hown.builder.2.2] at hb hn
  rw [hown.extractor.2.1, hown.extractor.2.2] at hx hm
  by_cases hstores : r.record.Stores
  · have hreaches : Reaches site r.roundEnv ⟨t, r.builder.before, r.extractor.before⟩ status :=
      ⟨rfl, rfl, hfound.mdbOpen, hfound.datadir, hfound.script, hfound.found, hb, hx, hstores⟩
    rw [AnsweredRound.apply, doScanner_of_reaches hreaches, recordRound_of_stores hstores, ← hn, ← hm]
    rfl
  · rw [recordRound_of_not_stores hstores, AnsweredRound.apply, doScanner_of_not_reaches]
    rintro ⟨status', hreaches⟩
    exact hstores hreaches.record

/-! ## the history of a run -/

/-- The main thread waits for the builder in a round that met `env`. -/
structure Building (site : Site) (used : List RunCall) (call : RunCall) (status : WorkStatus)
    (env : ScanEnv) : Prop where
  found : ∃ scanned builderStart, env.Found site scanned ∧ status = { scanned with builderStart }
  builder : call.worker = .builder ∧ call.task = env.taskId
  later : ∀ c ∈ used, c.Before call

/-- The main thread waits for the extractor in a round that met `env`, after the builder
answered `b` with the count `n`. -/
structure Extracting (site : Site) (served : List Serving) (used : List RunCall) (call : RunCall)
    (status : WorkStatus) (env : ScanEnv) (b : Serving) (n : Int32) : Prop where
  found : ∃ scanned builderStart extractorStart, env.Found site scanned ∧
    status = { scanned with builderStart, extractorStart, nIndexed := n.toInt64.toUInt64 }
  builder : b ∈ served ∧ b.call.worker = .builder ∧ b.call.task = env.taskId
  answers : b.Answers n
  later : ∀ c ∈ used, c.Before b.call
  extractor : call.worker = .extractor ∧ call.task = env.taskId
  next : b.call.Before call

/-- What the main thread knows in a phase. -/
def PhaseOk (site : Site) (served : List Serving) (used : List RunCall) : Phase → Prop
  | .scanning env => env.mdbOpen = 0 ∧ env.datadir = 0
  | .building call status => ∃ env, Building site used call status env
  | .extracting call status => ∃ env b n, Extracting site served used call status env b n
  | _ => True

/-- The run came to the master db of these rounds. -/
structure History (site : Site) (σ : System) (rounds : List AnsweredRound) : Prop where
  mdb : σ.mdb = rounds.foldl (AnsweredRound.apply site) []
  own : ∀ r ∈ rounds, r.Own σ.served
  ordered : (rounds.flatMap AnsweredRound.calls).Pairwise RunCall.Before
  phase : ∀ p, σ.scanner = some p →
    PhaseOk site σ.served (rounds.flatMap AnsweredRound.calls) p.phase

/-- Calls come in an order. -/
theorem RunCall.Before.trans {a b c : RunCall} (h : a.Before b) (h' : b.Before c) : a.Before c := by
  unfold RunCall.Before at *
  omega

/-- A call that was issued comes before the next one. -/
theorem System.Issued.before {σ : System} {p : ScannerDaemon} {c : RunCall} (h : σ.Issued c)
    (hp : σ.scanner = some p) (k : WorkerId) (task : UInt64) :
    c.Before ⟨k, σ.epoch, p.calls, task⟩ := by
  rcases Nat.lt_or_eq_of_le h.1 with hlt | heq
  · exact .inl hlt
  · exact .inr ⟨heq, h.2 p hp heq⟩

/-- A round's own servings stay its own. -/
theorem AnsweredRound.Own.mono {served served' : List Serving} (hserved : served ⊆ served')
    {r : AnsweredRound} (h : r.Own served) : r.Own served' :=
  ⟨⟨hserved h.builder.1, h.builder.2⟩, ⟨hserved h.extractor.1, h.extractor.2⟩⟩

/-- So do those of the round under way. -/
theorem PhaseOk.mono {served served' : List Serving} (hserved : served ⊆ served')
    {used : List RunCall} {phase : Phase} (h : PhaseOk site served used phase) :
    PhaseOk site served' used phase := by
  cases phase with
  | extracting call status =>
      obtain ⟨env, b, n, hx⟩ := h
      exact ⟨env, b, n, hx.found, ⟨hserved hx.builder.1, hx.builder.2⟩, hx.answers, hx.later,
        hx.extractor, hx.next⟩
  | _ => exact h

section Step
variable {σ σ' : System} {rounds : List AnsweredRound}

/-- An answered request was made. -/
theorem Accounted.issued_of_served (h : Accounted σ) {s : Serving} (hs : s ∈ σ.served) :
    σ.Issued s.call := by
  refine h.issued _ (lt_of_lt_of_le ?_ (σ.count_served_le s.call))
  exact List.count_pos_iff.mpr (List.mem_map_of_mem hs)

/-- The calls of the rounds that are done were issued. -/
theorem Accounted.issued_of_used (h : Accounted σ) (hown : ∀ r ∈ rounds, r.Own σ.served) {c : RunCall}
    (hc : c ∈ rounds.flatMap AnsweredRound.calls) : σ.Issued c := by
  obtain ⟨r, hr, hc⟩ := List.mem_flatMap.mp hc
  simp only [AnsweredRound.calls, List.mem_cons, List.not_mem_nil, or_false] at hc
  rcases hc with rfl | rfl
  · exact h.issued_of_served (hown r hr).builder.1
  · exact h.issued_of_served (hown r hr).extractor.1

/-- A step that leaves the master db alone. -/
theorem History.mono (h : History site σ rounds) (hmdb : σ'.mdb = σ.mdb)
    (hserved : σ.served ⊆ σ'.served)
    (hphase : ∀ p, σ'.scanner = some p →
      PhaseOk site σ'.served (rounds.flatMap AnsweredRound.calls) p.phase) :
    History site σ' rounds :=
  ⟨hmdb.trans h.mdb, fun r hr => (h.own r hr).mono hserved, h.ordered, hphase⟩

/-- A step that leaves the master db and the scanner's main thread alone. -/
theorem History.same_phase (h : History site σ rounds) (hmdb : σ'.mdb = σ.mdb)
    (hserved : σ.served ⊆ σ'.served)
    (hscanner : ∀ p', σ'.scanner = some p' → ∃ p, σ.scanner = some p ∧ p.phase = p'.phase) :
    History site σ' rounds := by
  refine h.mono hmdb hserved fun p' hp' => ?_
  obtain ⟨p, hp, hphase⟩ := hscanner p' hp'
  rw [← hphase]
  exact (h.phase p hp).mono hserved

/-- The end of a round: it is one more undivided round. -/
theorem History.record (h : History site σ rounds) (ha : Accounted σ) {p : ScannerDaemon}
    (hp : σ.scanner = some p) {r : Reply} {status : WorkStatus}
    (hphase : p.phase = .extracting r.call status) (hr : r ∈ σ.replies) (time : UInt64)
    (record : RecordEnv) :
    ∃ q : AnsweredRound, q.Own σ.served ∧
      ((rounds ++ [q]).flatMap AnsweredRound.calls).Pairwise RunCall.Before ∧
      q.apply site σ.mdb = (recordRound record
        { status with extractorEnd := time, nExtracted := r.count.toInt64.toUInt64, status := 0 }
        σ.mdb).1 := by
  have hok := h.phase p hp
  rw [hphase] at hok
  obtain ⟨env, b, n, hx⟩ := hok
  obtain ⟨scanned, builderStart, extractorStart, hfound, rfl⟩ := hx.found
  obtain ⟨s, hs, hcall, hanswers⟩ := ha.replied r hr
  have hown : AnsweredRound.Own σ.served
      ⟨env, builderStart, b, extractorStart, s, time, record⟩ :=
    ⟨hx.builder, hs, by rw [hcall]; exact hx.extractor.1, by rw [hcall]; exact hx.extractor.2⟩
  refine ⟨⟨env, builderStart, b, extractorStart, s, time, record⟩, hown, ?_,
    apply_eq hown hfound hx.answers hanswers σ.mdb⟩
  rw [List.flatMap_append, List.flatMap_singleton]
  refine List.pairwise_append.mpr ⟨h.ordered, ?_, fun c hc c' hc' => ?_⟩
  · rw [AnsweredRound.calls, List.pairwise_pair, hcall]
    exact hx.next
  · simp only [AnsweredRound.calls, List.mem_cons, List.not_mem_nil, or_false] at hc'
    rcases hc' with rfl | rfl
    · exact hx.later c hc
    · rw [hcall]
      exact (hx.later c hc).trans hx.next

/-- An event keeps that there is a history of answered rounds. -/
theorem history_change {e : Event} (h : History site σ rounds) (ha : Accounted σ)
    (hc : Change site σ e σ') : ∃ rounds', History site σ' rounds' := by
  have hsub : σ.served ⊆ σ.served := List.Subset.refl _
  cases hc with
  | same => exact ⟨rounds, h⟩
  | scannerStarts hnone =>
      refine ⟨rounds, h.mono rfl hsub fun p hp => ?_⟩
      cases hp
      trivial
  | scannerDies e replies hreplies => exact ⟨rounds, h.mono rfl hsub nofun⟩
  | workerStarts k hnone => exact ⟨rounds, h.same_phase rfl hsub fun p hp => ⟨p, hp, rfl⟩⟩
  | workerDies e k => exact ⟨rounds, h.same_phase rfl hsub fun p hp => ⟨p, hp, rfl⟩⟩
  | connects k hw hconn => exact ⟨rounds, h.same_phase rfl hsub fun p hp => ⟨p, hp, rfl⟩⟩
  | accepts i hp hk =>
      refine ⟨rounds, h.same_phase rfl hsub fun p' hp' => ?_⟩
      cases hp'
      exact ⟨_, hp, rfl⟩
  | drops i => exact ⟨rounds, h.same_phase rfl hsub fun p hp => ⟨p, hp, rfl⟩⟩
  | moves e hp hfrom hto =>
      refine ⟨rounds, h.mono rfl hsub fun p' hp' => ?_⟩
      cases hp'
      rcases hto with rfl | rfl <;> trivial
  | scans hp hphase hrunning hopen hdir =>
      refine ⟨rounds, h.mono rfl hsub fun p' hp' => ?_⟩
      cases hp'
      exact ⟨hopen, hdir⟩
  | asks e hp hfrom hw =>
      refine ⟨rounds, h.mono rfl hsub fun p' hp' => ?_⟩
      cases hp'
      trivial
  | @builds builderStart connected p env status w hp hphase hscript hfound hw =>
      refine ⟨rounds, h.mono rfl hsub fun p' hp' => ?_⟩
      cases hp'
      have hok := h.phase p hp
      rw [hphase] at hok
      refine ⟨env, ⟨status, builderStart, ⟨hok.1, hok.2, hscript, hfound⟩, rfl⟩,
        ⟨rfl, id_of_script hscript⟩, fun c hc => ?_⟩
      exact (ha.issued_of_used h.own hc).before hp _ _
  | @extracts i time connected record p r status w hp hphase hr hw =>
      refine ⟨rounds, h.mono rfl hsub fun p' hp' => ?_⟩
      cases hp'
      have hok := h.phase p hp
      rw [hphase] at hok
      obtain ⟨env, hb⟩ := hok
      obtain ⟨scanned, builderStart, hfound, rfl⟩ := hb.found
      obtain ⟨s, hs, hcall, hanswers⟩ := ha.replied r hr
      refine ⟨env, s, r.count, ⟨scanned, builderStart, time, hfound, rfl⟩, ⟨hs, ?_, ?_⟩, hanswers,
        fun c hc => ?_, ⟨rfl, id_of_script hfound.script⟩,
        (ha.issued_of_served hs).before hp _ _⟩
      · rw [hcall]
        exact hb.builder.1
      · rw [hcall]
        exact hb.builder.2
      · rw [hcall]
        exact hb.later c hc
  | @records i time connected record p r status phase hp hphase hr hto =>
      obtain ⟨q, hown, hordered, happly⟩ := h.record ha hp hphase hr time record
      refine ⟨rounds ++ [q], ⟨?_, fun r hr => ?_, hordered, fun p' hp' => ?_⟩⟩
      · rw [List.foldl_append, ← h.mdb, List.foldl_cons, List.foldl_nil, happly]
        rfl
      · rcases List.mem_append.mp hr with hr | hr
        · exact h.own r hr
        · rw [List.mem_singleton.mp hr]
          exact hown
      · cases hp'
        rcases hto with rfl | rfl <;> trivial
  | serves k i launch hw hidle hi => exact ⟨rounds, h.same_phase rfl hsub fun p hp => ⟨p, hp, rfl⟩⟩
  | finishes k hw hs hrun =>
      exact ⟨rounds, h.same_phase rfl (List.subset_append_left _ _) fun p hp => ⟨p, hp, rfl⟩⟩
  | orphanEnds i => exact ⟨rounds, h.same_phase rfl hsub fun p hp => ⟨p, hp, rfl⟩⟩

end Step

/-- No round was done at first. -/
theorem history_init (site : Site) : History site {} [] where
  mdb := rfl
  own r hr := by simp at hr
  ordered := List.Pairwise.nil
  phase p hp := nomatch hp

/-- What holds in every state of a run. -/
def Accountable (site : Site) (σ : System) : Prop :=
  Accounted σ ∧ ∃ rounds, History site σ rounds

theorem accountable_run (site : Site) (es : List Event) :
    Accountable site (run (step site) {} es) := by
  refine invariant_run_all es ⟨accounted_init, [], history_init site⟩ ?_
  rintro σ e ⟨ha, rounds, h⟩
  exact ⟨accounted_step ha e, history_change h ha (change site σ e)⟩

/-- **Rounds are undivided.**  Whatever comes between its steps, a run leaves the master
db that its answered rounds leave one after the other, each as one `do_scanner` over
the services that answered it; no two of them share a request, and their requests
were made in this order. -/
theorem rounds_atomic (site : Site) (es : List Event) : ∃ rounds : List AnsweredRound,
    (run (step site) {} es).mdb = rounds.foldl (AnsweredRound.apply site) [] ∧
      (∀ r ∈ rounds, r.Own (run (step site) {} es).served) ∧
      (rounds.flatMap AnsweredRound.calls).Pairwise RunCall.Before := by
  obtain ⟨_, rounds, h⟩ := accountable_run site es
  exact ⟨rounds, h.mdb, h.own, h.ordered⟩

end Protocol

end Hpssix
