import Hpssix.RunCalls

/-!
# Hpssix.UndividedRounds

The other direction of `rounds_atomic`: rounds without anything in between, as
`do_scanner` over the two services has them, are runs of the three daemons.

* `idle_rounds` — from daemons that are connected and idle, any sequence of rounds
  that get to the end.
-/

namespace Hpssix

open Cursor Fate Trace

namespace Protocol

/-- The service of a worker's daemon. -/
def service (d : Daemons) : WorkerId → Service
  | .builder => d.builder
  | .extractor => d.extractor

/-- The service of one worker's daemon changes. -/
def setService (d : Daemons) (k : WorkerId) (s : Service) : Daemons :=
  match k with
  | .builder => { d with builder := s }
  | .extractor => { d with extractor := s }

/-- The daemons are connected and keep what `d` keeps, the workers have nothing to do,
the scanner is in this phase, and these replies are on the way. -/
structure Connected (σ : System) (d : Daemons) (phase : Phase) (replies : List Reply) : Prop where
  mdb : σ.mdb = d.mdb
  scanner : ∃ p, σ.scanner = some p ∧ p.phase = phase ∧ ∀ k, p.running k = true
  worker : ∀ k, ∃ w, σ.worker k = some w ∧ w.service = service d k ∧ w.requests = [] ∧
    w.serving = none
  replies : σ.replies = replies

/-- The daemons are connected and idle. -/
def Idle (σ : System) (d : Daemons) : Prop := Connected σ d .waiting []

/-- What a round meets before the script ends. -/
def scanEnv (env : RoundEnv) : ScanEnv where
  taskId := env.taskId
  mdbOpen := env.mdbOpen
  datadir := env.datadir
  scannerStart := env.scannerStart
  launch := env.launch
  query := env.query
  popen := env.popen

/-- The steps of a round, one after the other. -/
def roundEvents (env : RoundEnv) : List Event :=
  [.scan (scanEnv env), .scanned env.builderStart true,
    .serve .builder 0 env.builder.launch, .finish .builder,
    .receive 0 env.extractorStart true env.record,
    .serve .extractor 0 env.extractor.launch, .finish .extractor,
    .receive 0 env.extractorEnd true env.record]

section Steps
variable (site : Site) {σ : System} {p : ScannerDaemon} {w : WorkerDaemon} {k : WorkerId}

theorem step_scan (hp : σ.scanner = some p) (hphase : p.phase = .waiting)
    (hrunning : ∀ k, p.running k = true) {env : ScanEnv} (hopen : env.mdbOpen = 0)
    (hdir : env.datadir = 0) : step site σ (.scan env) = σ.goOn p (.scanning env) := by
  show σ.scanner.elim σ _ = _
  simp [hp, System.resume, hphase, System.scan, hrunning, hopen, hdir]

theorem step_scanned (hp : σ.scanner = some p) {env : ScanEnv} (hphase : p.phase = .scanning env)
    {status : WorkStatus} (hscript : env.script site = done (0, status))
    (hfound : status.nScanned + status.nDeleted ≠ 0) (hw : σ.worker .builder = some w)
    (builderStart : UInt64) :
    step site σ (.scanned builderStart true) =
      σ.call p .builder w ⟨.builder, σ.epoch, p.calls, status.id⟩
        (.building ⟨.builder, σ.epoch, p.calls, status.id⟩ { status with builderStart }) := by
  show σ.scanner.elim σ _ = _
  simp [hp, System.resume, hphase, System.scanned, hscript, hfound, System.runWorker, hw]

/-- The only request at an idle worker is taken up and answered. -/
theorem steps_serve {call : RunCall} (hw : σ.worker k = some w) (hrequests : w.requests = [.run call])
    (hidle : w.serving = none) {launch : LaunchEnv}
    (hsurv : Survives k.keys launch call.task w.service) :
    ∃ s : Serving, s.call = call ∧ step site (step site σ (.serve k 0 launch)) (.finish k) =
      { σ.setWorker k (some { w with
          requests := []
          serving := none
          service := w.service.after k.keys launch call.task }) with
        replies := σ.replies ++ [⟨call, (w.service.after k.keys launch call.task).result⟩]
        served := σ.served ++ [s] } := by
  have hserve : step site σ (.serve k 0 launch) = σ.setWorker k (some { w with
      requests := []
      serving := some ⟨call, launch, w.service⟩
      service := { w.service with currentTask := call.task } }) := by
    show (σ.worker k).elim σ _ = _
    simp [hw, System.work, System.serve, hidle, hrequests]
  refine ⟨⟨call, launch, w.service⟩, rfl, ?_⟩
  rw [hserve]
  show ((System.setWorker σ k _).worker k).elim _ _ = _
  simp [System.setWorker, System.work, System.finish, runSvc_of_survives hsurv, System.answer]

theorem step_receive_builder (hp : σ.scanner = some p) {call : RunCall} {status : WorkStatus}
    (hphase : p.phase = .building call status) {n : Int32} (hreplies : σ.replies = [⟨call, n⟩])
    (hw : σ.worker .extractor = some w) (time : UInt64) (record : RecordEnv) :
    step site σ (.receive 0 time true record) =
      ({ σ with replies := [] } : System).call p .extractor w
        ⟨.extractor, σ.epoch, p.calls, status.id⟩
        (.extracting ⟨.extractor, σ.epoch, p.calls, status.id⟩
          { status with extractorStart := time, nIndexed := n.toInt64.toUInt64 }) := by
  show σ.scanner.elim σ _ = _
  simp [hp, System.resume, hreplies, System.receive, hphase, System.builderReply, System.runWorker,
    hw]

theorem step_receive_extractor (hp : σ.scanner = some p) {call : RunCall} {status : WorkStatus}
    (hphase : p.phase = .extracting call status) {m : Int32} (hreplies : σ.replies = [⟨call, m⟩])
    (time : UInt64) {record : RecordEnv} (hstores : record.Stores) :
    step site σ (.receive 0 time true record) =
      ({ σ with
        mdb := sqlRecord
          { status with extractorEnd := time, nExtracted := m.toInt64.toUInt64, status := 0 } σ.mdb
        replies := [] } : System).goOn p .waiting := by
  show σ.scanner.elim σ _ = _
  simp [hp, System.resume, hreplies, System.receive, hphase, System.extractorReply,
    recordRound_of_stores hstores]

/-- A call that is answered at once. -/
theorem Connected.answered {d : Daemons} {phase : Phase} (h : Connected σ d phase [])
    (hrunning : ∀ k, p.running k = true) (hw : σ.worker k = some w) {task : UInt64}
    {launch : LaunchEnv} (hsurv : Survives k.keys launch task (service d k))
    (phase' : Phase) :
    Connected
      (step site (step site (σ.call p k w ⟨k, σ.epoch, p.calls, task⟩ phase') (.serve k 0 launch))
        (.finish k))
      (setService d k ((service d k).after k.keys launch task)) phase'
      [⟨⟨k, σ.epoch, p.calls, task⟩, ((service d k).after k.keys launch task).result⟩] := by
  obtain ⟨w', hw', hservice, hrequests, hidle⟩ := h.worker k
  obtain rfl : w = w' := by simpa [hw] using hw'
  have hcall : (σ.call p k w ⟨k, σ.epoch, p.calls, task⟩ phase').worker k =
      some { w with requests := [.run ⟨k, σ.epoch, p.calls, task⟩] } := by
    simp [System.call, System.enqueue, System.setWorker, hrequests]
  rw [← hservice] at hsurv ⊢
  obtain ⟨s, _, hsteps⟩ := steps_serve site hcall rfl hidle hsurv
  rw [hsteps]
  refine ⟨?_, ⟨_, rfl, rfl, hrunning⟩, fun j => ?_, ?_⟩
  · cases k <;> exact h.mdb
  · by_cases hj : j = k
    · subst hj
      refine ⟨_, Function.update_self .., ?_, rfl, rfl⟩
      cases j <;> rfl
    · obtain ⟨v, hv, hvs, hvr, hvi⟩ := h.worker j
      refine ⟨v, ?_, ?_, hvr, hvi⟩
      · simpa [System.call, System.enqueue, System.setWorker, Function.update_of_ne hj] using hv
      · rw [hvs]
        cases j <;> cases k <;> first | rfl | exact absurd rfl hj
  · show σ.replies ++ _ = _
    rw [h.replies]
    rfl

end Steps

variable {site : Site}

/-- The scan of a round, and the builder's answer. -/
theorem connected_builder {σ : System} {d : Daemons} (h : Idle σ d) {env : RoundEnv}
    {status : WorkStatus} (hreaches : Reaches site env d status) :
    ∃ call, Connected
      (run (step site) σ [.scan (scanEnv env), .scanned env.builderStart true,
        .serve .builder 0 env.builder.launch, .finish .builder])
      { d with builder := d.builder.after builderKeys env.builder.launch env.taskId }
      (.building call { status with builderStart := env.builderStart })
      [⟨call, (d.builder.after builderKeys env.builder.launch env.taskId).result⟩] := by
  obtain ⟨p, hp, hphase, hrunning⟩ := h.scanner
  obtain ⟨b, hb, _⟩ := h.worker .builder
  have hscript : (scanEnv env).script site = done (0, status) := hreaches.scan
  have hid : status.id = env.taskId := id_of_script hscript
  have hscan : step site σ (.scan (scanEnv env)) = σ.goOn p (.scanning (scanEnv env)) :=
    step_scan site hp hphase hrunning hreaches.mdbOpen hreaches.datadir
  have hscanned := step_scanned site (σ := σ.goOn p (.scanning (scanEnv env))) rfl rfl
    hscript hreaches.found hb env.builderStart
  have hsurv : Survives WorkerId.builder.keys env.builder.launch status.id (service d .builder) :=
    hid ▸ hreaches.builder.2.2.2
  have h' : Connected (σ.goOn p (.scanning (scanEnv env))) d (.scanning (scanEnv env)) [] :=
    ⟨h.mdb, ⟨_, rfl, rfl, hrunning⟩, h.worker, h.replies⟩
  have hanswer := h'.answered site hrunning hb hsurv
    (.building ⟨.builder, σ.epoch, p.calls, status.id⟩
      { status with builderStart := env.builderStart })
  refine ⟨⟨.builder, σ.epoch, p.calls, status.id⟩, ?_⟩
  simp only [run_cons, run_nil, hscan]
  rw [hscanned]
  rw [← hid]
  exact hanswer

/-- The extractor's answer. -/
theorem connected_extractor (site : Site) {σ : System} {d : Daemons} {status : WorkStatus} {call : RunCall}
    {n : Int32} (h : Connected σ d (.building call status) [⟨call, n⟩]) (time : UInt64)
    (record : RecordEnv) (launch : LaunchEnv)
    (hsurv : Survives extractorKeys launch status.id d.extractor) :
    ∃ call', Connected
      (run (step site) σ [.receive 0 time true record, .serve .extractor 0 launch,
        .finish .extractor])
      { d with extractor := d.extractor.after extractorKeys launch status.id }
      (.extracting call' { status with extractorStart := time, nIndexed := n.toInt64.toUInt64 })
      [⟨call', (d.extractor.after extractorKeys launch status.id).result⟩] := by
  obtain ⟨p, hp, hphase, hrunning⟩ := h.scanner
  obtain ⟨x, hx, _⟩ := h.worker .extractor
  have hreceive := step_receive_builder site hp hphase h.replies hx time record
  have h' : Connected { σ with replies := [] } d (.building call status) [] :=
    ⟨h.mdb, h.scanner, h.worker, rfl⟩
  have hanswer := h'.answered site hrunning hx (k := .extractor) hsurv
    (.extracting ⟨.extractor, σ.epoch, p.calls, status.id⟩
      { status with extractorStart := time, nIndexed := n.toInt64.toUInt64 })
  refine ⟨⟨.extractor, σ.epoch, p.calls, status.id⟩, ?_⟩
  simp only [run_cons, run_nil, hreceive]
  exact hanswer

/-- A round that gets to the end. -/
theorem idle_round {σ : System} {d : Daemons} (h : Idle σ d) {env : RoundEnv} {status : WorkStatus}
    (hreaches : Reaches site env d status) :
    Idle (run (step site) σ (roundEvents env)) (d.step site env) := by
  have hscript : (scanEnv env).script site = done (0, status) := hreaches.scan
  have hid : status.id = env.taskId := id_of_script hscript
  obtain ⟨call, hbuilder⟩ := connected_builder h hreaches
  obtain ⟨call', hextractor⟩ := connected_extractor site hbuilder env.extractorStart
    env.record env.extractor.launch (hid ▸ hreaches.extractor.2.2.2)
  obtain ⟨p, hp, hphase, hrunning⟩ := hextractor.scanner
  have hlast := step_receive_extractor site hp hphase hextractor.replies env.extractorEnd
    hreaches.record
  have hevents : run (step site) σ (roundEvents env) =
      step site (run (step site) (run (step site) σ
        [.scan (scanEnv env), .scanned env.builderStart true,
          .serve .builder 0 env.builder.launch, .finish .builder])
        [.receive 0 env.extractorStart true env.record, .serve .extractor 0 env.extractor.launch,
          .finish .extractor])
        (.receive 0 env.extractorEnd true env.record) := rfl
  rw [hevents, hlast, Daemons.step, doScanner_of_reaches hreaches]
  refine ⟨?_, ⟨_, rfl, rfl, hrunning⟩, fun k => ?_, rfl⟩
  · show sqlRecord _ (run (step site) _ _).mdb = _
    rw [hextractor.mdb]
    have hid' : status.id = env.taskId := hid
    simp only [reached, roundStatus, hid']
  · obtain ⟨w, hw, hservice, hrest⟩ := hextractor.worker k
    refine ⟨w, hw, ?_, hrest⟩
    rw [hservice]
    have hid' : status.id = env.taskId := hid
    cases k <;> simp only [service, reached, hid']

/-- **Undivided rounds happen.**  Every sequence of rounds that get to the end, as one
`do_scanner` after the other has them, is a run of the three daemons. -/
theorem idle_rounds {σ : System} {d : Daemons} (h : Idle σ d) {rounds : List RoundEnv}
    (hreaches : AllSteps (Daemons.step site) (fun d env => ∃ status, Reaches site env d status) d
      rounds) :
    Idle (run (step site) σ (rounds.flatMap roundEvents)) (run (Daemons.step site) d rounds) := by
  induction rounds generalizing σ d with
  | nil => exact h
  | cons env rounds ih =>
      obtain ⟨status, hround⟩ := hreaches.1
      rw [List.flatMap_cons, run_append, run_cons]
      exact ih (idle_round h hround) hreaches.2

/-- A round that finds a file, with workers that print nothing. -/
def quietRound : RoundEnv where
  taskId := 1
  query := answer []
  popen _ _ := .ok { lines := ["## scanned: 1\n".toList] }
  builder := { launch := { popen := fun _ => .ok { printed := [], finished := true } } }
  extractor := { launch := { popen := fun _ => .ok { printed := [], finished := true } } }

theorem reaches_quietRound (d : Daemons) :
    Reaches (utcSite (.of 1)) quietRound d { id := 1, nScanned := 1 } where
  builderRunning := rfl
  extractorRunning := rfl
  mdbOpen := rfl
  datadir := rfl
  scan := by decide +kernel
  found := by decide
  builder := ⟨rfl, rfl, rfl, by simp [Survives, launched, quietRound, Except.toOption, Worker.child,
    Readable]⟩
  extractor := ⟨rfl, rfl, rfl, by simp [Survives, launched, quietRound, Except.toOption,
    Worker.child, Readable]⟩
  record := ⟨rfl, ⟨_, rfl⟩, fun _ => rfl⟩

/-- The start of the three daemons. -/
def startUp : List Event :=
  [.startScanner, .startWorker .builder, .connect .builder, .accept 0, .startWorker .extractor,
    .connect .extractor, .accept 0]

theorem idle_rounds_quietRound :
    Idle (run (step (utcSite (.of 1))) (run (step (utcSite (.of 1))) {} startUp)
        ([quietRound, quietRound].flatMap roundEvents))
      (run (Daemons.step (utcSite (.of 1))) {} [quietRound, quietRound]) :=
  idle_rounds
    ⟨rfl, ⟨_, rfl, rfl, fun k => by cases k <;> rfl⟩,
      fun k => by cases k <;> exact ⟨_, rfl, rfl, rfl, rfl⟩, rfl⟩
    ⟨⟨_, reaches_quietRound _⟩, ⟨_, reaches_quietRound _⟩, trivial⟩

end Protocol

end Hpssix
