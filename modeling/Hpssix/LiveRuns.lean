import Hpssix.UndividedRounds

/-!
# Hpssix.LiveRuns

The three daemons at work over an HPSS that goes on changing, against `World`, where a round
is one event.

The script exports when the scanner begins a round; the row is recorded when the extractor has
replied, and in between anything can happen: HPSS changes, a daemon dies and is started again,
a call is lost.

* `live_is_world_run` — every such run comes to the metadata and the master db of a run of
  `World`, in which each recorded round happens at the moment of its export.
-/

namespace Hpssix

open CText Cursor Fate Lite Rel Trace

/-! ## the events -/

/-- A change in HPSS. -/
inductive Edit where
  | op (o : HpssOp)
  | tagSet (objid : Oid) (name val : Text)
  | tagDel (objid : Oid) (name : Text)

def Edit.act : Edit → Act
  | .op o => .op o
  | .tagSet objid name val => .tagSet objid name val
  | .tagDel objid name => .tagDel objid name

/-- A change in HPSS, the beginning of a round, with the clock readings of the scanner, or
another event of the daemons. -/
inductive LiveEvent where
  | edit (time : Nat) (e : Edit)
  | scan (time start launch : Nat) (env : Protocol.ScanEnv)
  | daemon (e : Protocol.Event)

structure Live where
  hpss : Hpss := {}
  system : Protocol.System := {}

namespace Live

variable (site : Site)

/-- HPSS after a change. -/
def edited (h : Hpss) (time : Nat) (e : Edit) : Hpss :=
  (World.step site { hpss := h } ⟨time, e.act⟩).hpss

/-- One event.  A round begins by `LiveEvent.scan` only. -/
def step (s : Live) : LiveEvent → Live
  | .edit time e => { s with hpss := edited site s.hpss time e }
  | .scan _ _ _ env => { s with system := Protocol.step site s.system (.scan env) }
  | .daemon (.scan _) => s
  | .daemon e => { s with system := Protocol.step site s.system e }

/-- What `launch_scanner_process` comes to on the master db and the metadata as they are. -/
def scanNow (h : Hpss) (t : List MdbRow) (start launch : Nat) : Fate (Int × WorkStatus) :=
  launchScannerProcess site (answer (sqlLastStatus t)) (secs launch) (runScript site h)
    { id := secs start, scannerStart := secs start }

/-- A round whose queries and script do not fail reads the master db and exports the
metadata. -/
def Honest (s : Live) (e : LiveEvent) : Prop :=
  match e with
  | .scan _ start launch env => ∀ status, env.script site = done (0, status) →
      scanNow site s.hpss s.system.mdb start launch = done (0, status)
  | _ => True

/-- The clock runs, as in `World.WellTimed`. -/
def Timed (now : Nat) : List LiveEvent → Prop
  | [] => True
  | .edit time _ :: es => now < time ∧ time < 2 ^ 63 * 1000000 ∧ Timed time es
  | .scan time start launch _ :: es =>
    now < time ∧ time < 2 ^ 63 * 1000000 ∧ start ≤ launch ∧ launch ≤ time ∧ Timed time es
  | .daemon _ :: es => Timed now es

/-- The events of `World` in a run: all changes, some of the rounds, in their order. -/
inductive Linearizes : List LiveEvent → List Event → Prop where
  | nil : Linearizes [] []
  | edit (time : Nat) (e : Edit) {es : List LiveEvent} {ws : List Event} (h : Linearizes es ws) :
      Linearizes (.edit time e :: es) (⟨time, e.act⟩ :: ws)
  | round (time start launch : Nat) (env : Protocol.ScanEnv) {r : RoundInput} (hs : r.start = start)
      (hl : r.launch = launch) {es : List LiveEvent} {ws : List Event} (h : Linearizes es ws) :
      Linearizes (.scan time start launch env :: es) (⟨time, .round r⟩ :: ws)
  | drop (time start launch : Nat) (env : Protocol.ScanEnv) {es : List LiveEvent} {ws : List Event}
      (h : Linearizes es ws) : Linearizes (.scan time start launch env :: es) ws
  | daemon (e : Protocol.Event) {es : List LiveEvent} {ws : List Event} (h : Linearizes es ws) :
      Linearizes (.daemon e :: es) ws

/-- Runs that are put in order can be put one behind the other. -/
theorem Linearizes.append {es es' : List LiveEvent} {ws ws' : List Event} (h : Linearizes es ws)
    (h' : Linearizes es' ws') : Linearizes (es ++ es') (ws ++ ws') := by
  induction h with
  | nil => exact h'
  | edit time e _ ih => exact .edit time e ih
  | round time start launch env hs hl _ ih => exact .round time start launch env hs hl ih
  | drop time start launch env _ ih => exact .drop time start launch env ih
  | daemon e _ ih => exact .daemon e ih

/-! ## runs of `World` -/

section World
variable {site : Site} {w w' : World}

/-- The time is that of the last event. -/
theorem now_step (w : World) (e : Event) : (w.step site e).now = e.time := by
  cases hact : e.act with
  | round r =>
      simp only [World.step, hact, World.round]
      split
      · split <;> rfl
      · rfl
  | _ => simp only [World.step, hact]

/-- What an event does to HPSS depends on HPSS only. -/
theorem hpss_step_congr (h : w.hpss = w'.hpss) (e : Event) :
    (w.step site e).hpss = (w'.step site e).hpss := by
  cases hact : e.act with
  | round r => rw [World.hpss_step_round hact, World.hpss_step_round hact, h]
  | _ => simp only [World.step, hact, h]

/-- What the events make of HPSS depends on HPSS only. -/
theorem hpss_run_congr (h : w.hpss = w'.hpss) (ws : List Event) :
    (run (World.step site) w ws).hpss = (run (World.step site) w' ws).hpss := by
  induction ws generalizing w w' with
  | nil => exact h
  | cons e ws ih => exact ih (hpss_step_congr h e)

/-- The master db changes in rounds only. -/
theorem mdb_run_edits {ws : List Event} (h : ∀ e ∈ ws, ∀ r, e.act ≠ .round r) :
    (run (World.step site) w ws).mdb = w.mdb := by
  induction ws generalizing w with
  | nil => rfl
  | cons e ws ih =>
      have hmdb : (w.step site e).mdb = w.mdb := by
        cases hact : e.act with
        | round r => exact absurd hact (h e List.mem_cons_self r)
        | _ => simp only [World.step, hact]
      rw [run_cons, ih fun e' he' => h e' (List.mem_cons_of_mem _ he'), hmdb]

/-- A round that finds something is recorded. -/
theorem mdb_step_round {time start launch : Nat} {r : RoundInput} {status : WorkStatus}
    (hs : r.start = start) (hl : r.launch = launch)
    (hscan : scanNow site w.hpss w.mdb start launch = done (0, status))
    (hfound : status.nScanned + status.nDeleted ≠ 0) :
    (w.step site ⟨time, .round r⟩).mdb = sqlRecord (World.finish r status) w.mdb := by
  subst hs hl
  have hscan' : launchScannerProcess site (answer (sqlLastStatus w.mdb)) (secs r.launch)
      (runScript site w.hpss) { id := secs r.start, scannerStart := secs r.start } =
        done (0, status) := hscan
  simp [World.step, World.round, hscan', hfound]

/-- A well-timed run has well-timed runs of `World`. -/
theorem Linearizes.wellTimed {es : List LiveEvent} {ws : List Event} (h : Linearizes es ws) {now : Nat}
    (ht : Timed now es) (hw : w.now ≤ now) :
    AllSteps (World.step site) World.WellTimed w ws := by
  induction h generalizing now w with
  | nil => trivial
  | edit time e h ih =>
      obtain ⟨hnow, htime, hrest⟩ := ht
      refine ⟨⟨Nat.lt_of_le_of_lt hw hnow, htime, ?_⟩, ih hrest (Nat.le_of_eq (now_step w _))⟩
      cases e <;> trivial
  | round time start launch env hs hl h ih =>
      obtain ⟨hnow, htime, hstart, hlaunch, hrest⟩ := ht
      subst hs hl
      exact ⟨⟨Nat.lt_of_le_of_lt hw hnow, htime, hstart, hlaunch⟩,
        ih hrest (Nat.le_of_eq (now_step w _))⟩
  | drop time start launch env h ih =>
      obtain ⟨hnow, -, -, -, hrest⟩ := ht
      exact ih hrest (Nat.le_of_lt (Nat.lt_of_le_of_lt hw hnow))
  | daemon e h ih => exact ih ht hw

end World

/-! ## a round that has begun -/

section Open
variable {site : Site} {es : List LiveEvent} {h h' : Hpss} {t : List MdbRow}

/-- The events hold the beginning of a round that met `env`, with the master db as it is now;
nothing but changes in HPSS has happened since. -/
inductive OpenRound (site : Site) (es : List LiveEvent) (h : Hpss) (t : List MdbRow)
    (env : Protocol.ScanEnv) : Prop where
  | intro (es₁ es₂ : List LiveEvent) (ws₁ ws₂ : List Event) (time start launch : Nat)
      (hes : es = es₁ ++ .scan time start launch env :: es₂) (hfirst : Linearizes es₁ ws₁)
      (hrest : Linearizes es₂ ws₂) (hedits : ∀ e ∈ ws₂, ∀ r, e.act ≠ .round r)
      (hmdb : (run (World.step site) {} ws₁).mdb = t)
      (hhpss : (run (World.step site) {} (ws₁ ++ ws₂)).hpss = h)
      (hscan : ∀ status, env.script site = done (0, status) →
        scanNow site (run (World.step site) {} ws₁).hpss t start launch = done (0, status))

/-- An event that is no round of `World`. -/
theorem OpenRound.snoc {env : Protocol.ScanEnv} (ho : OpenRound site es h t env) {e : LiveEvent}
    {ws : List Event} (he : Linearizes [e] ws) (hedits : ∀ e ∈ ws, ∀ r, e.act ≠ .round r)
    (hhpss : ∀ w : World, w.hpss = h → (run (World.step site) w ws).hpss = h') :
    OpenRound site (es ++ [e]) h' t env := by
  obtain ⟨es₁, es₂, ws₁, ws₂, time, start, launch, rfl, hfirst, hrest, hedits₂, hmdb, hh, hscan⟩ := ho
  refine .intro es₁ (es₂ ++ [e]) ws₁ (ws₂ ++ ws) time start launch (by simp) hfirst
    (hrest.append he) (fun e' he' r => ?_) hmdb ?_ hscan
  · rcases List.mem_append.mp he' with he' | he'
    · exact hedits₂ e' he' r
    · exact hedits e' he' r
  · rw [← List.append_assoc, run_append]
    exact hhpss _ hh

/-- The round of `World` for a round that is recorded, in its place. -/
theorem OpenRound.world {env : Protocol.ScanEnv} (ho : OpenRound site es h t env) {status : WorkStatus}
    (hscript : env.script site = done (0, status)) (hfound : status.nScanned + status.nDeleted ≠ 0)
    (r : RoundInput) : ∃ start launch ws, Linearizes es ws ∧
      (run (World.step site) {} ws).hpss = h ∧
      (run (World.step site) {} ws).mdb =
        sqlRecord (World.finish { r with start, launch } status) t := by
  obtain ⟨es₁, es₂, ws₁, ws₂, time, start, launch, rfl, hfirst, hrest, hedits, hmdb, hh, hscan⟩ := ho
  refine ⟨start, launch, ws₁ ++ ⟨time, .round { r with start, launch }⟩ :: ws₂,
    hfirst.append (.round time start launch env rfl rfl hrest), ?_, ?_⟩
  · rw [run_append] at hh ⊢
    rw [run_cons, ← hh]
    exact hpss_run_congr (World.hpss_step_round rfl) ws₂
  · rw [run_append, run_cons, mdb_run_edits hedits, ← hmdb]
    exact mdb_step_round rfl rfl (hmdb.symm ▸ hscan status hscript) hfound

/-- What the scanner's main thread has before it in a phase. -/
def PhaseOpen (site : Site) (es : List LiveEvent) (h : Hpss) (t : List MdbRow) :
    Protocol.Phase → Prop
  | .scanning env => OpenRound site es h t env
  | .building _ status => ∃ env scanned builderStart, OpenRound site es h t env ∧
      env.script site = done (0, scanned) ∧ scanned.nScanned + scanned.nDeleted ≠ 0 ∧
      status = { scanned with builderStart }
  | .extracting _ status => ∃ env scanned builderStart extractorStart, ∃ n : Int32,
      OpenRound site es h t env ∧ env.script site = done (0, scanned) ∧
      scanned.nScanned + scanned.nDeleted ≠ 0 ∧
      status = { scanned with builderStart, extractorStart, nIndexed := n.toInt64.toUInt64 }
  | _ => True

theorem PhaseOpen.imp {es' : List LiveEvent} {phase : Protocol.Phase}
    (himp : ∀ env, OpenRound site es h t env → OpenRound site es' h' t env)
    (hp : PhaseOpen site es h t phase) : PhaseOpen site es' h' t phase := by
  cases phase with
  | scanning env => exact himp env hp
  | building call status =>
      obtain ⟨env, scanned, builderStart, ho, hrest⟩ := hp
      exact ⟨env, scanned, builderStart, himp env ho, hrest⟩
  | extracting call status =>
      obtain ⟨env, scanned, builderStart, extractorStart, n, ho, hrest⟩ := hp
      exact ⟨env, scanned, builderStart, extractorStart, n, himp env ho, hrest⟩
  | _ => trivial

end Open

/-! ## one event -/

/-- The run so far is one of `World`, but for the round that is under way. -/
structure Linked (site : Site) (es : List LiveEvent) (s : Live) : Prop where
  world : ∃ ws, Linearizes es ws ∧ (run (World.step site) {} ws).hpss = s.hpss ∧
    (run (World.step site) {} ws).mdb = s.system.mdb
  phase : ∀ p, s.system.scanner = some p → PhaseOpen site es s.hpss s.system.mdb p.phase

section Step
variable {site : Site} {es : List LiveEvent} {s : Live}

/-- The empty system and the empty world are linked. -/
theorem linked_init (site : Site) : Linked site [] {} where
  world := ⟨[], .nil, rfl, rfl⟩
  phase p hp := by cases hp

/-- An edit does the same in both models. -/
theorem hpss_edit {time : Nat} {e : Edit} {h : Hpss} (w : World) (hw : w.hpss = h) :
    (run (World.step site) w [⟨time, e.act⟩]).hpss = edited site h time e :=
  hpss_step_congr hw _

/-- An edit keeps the link. -/
theorem linked_edit (hl : Linked site es s) (time : Nat) (e : Edit) :
    Linked site (es ++ [.edit time e]) (step site s (.edit time e)) where
  world := by
    obtain ⟨ws, hlin, hh, ht⟩ := hl.world
    refine ⟨ws ++ [⟨time, e.act⟩], hlin.append (.edit time e .nil), ?_, ?_⟩
    · rw [run_append]
      exact hpss_edit _ hh
    · rw [run_append, mdb_run_edits, ht]
      · rfl
      · intro e' he' r
        rw [List.mem_singleton.mp he']
        cases e <;> exact Act.noConfusion
  phase p hp := (hl.phase p hp).imp fun env ho =>
    ho.snoc (.edit time e .nil) (fun e' he' r => by
      rw [List.mem_singleton.mp he']
      cases e <;> exact Act.noConfusion) fun w hw => hpss_edit w hw

/-- An event of the daemons that leaves the master db alone. -/
theorem Linked.quiet (hl : Linked site es s) {evt : LiveEvent} (hevt : Linearizes [evt] [])
    {σ' : Protocol.System} (hmdb : σ'.mdb = s.system.mdb)
    (hphase : ∀ p, σ'.scanner = some p → PhaseOpen site es s.hpss s.system.mdb p.phase) :
    Linked site (es ++ [evt]) { s with system := σ' } where
  world := by
    obtain ⟨ws, hlin, hh, ht⟩ := hl.world
    exact ⟨ws, by simpa using hlin.append hevt, hh, ht.trans hmdb.symm⟩
  phase p hp := by
    rw [hmdb]
    exact (hphase p hp).imp fun env ho => ho.snoc hevt (by simp) fun w hw => hw

/-- A round begins: it reads HPSS and the master db as they are now. -/
theorem linked_scans (hl : Linked site es s) {time start launch : Nat} {env : Protocol.ScanEnv}
    (hhonest : Honest site s (.scan time start launch env)) (p : Protocol.ScannerDaemon) :
    Linked site (es ++ [.scan time start launch env])
      { s with system := s.system.goOn p (.scanning env) } where
  world := by
    obtain ⟨ws, hlin, hh, ht⟩ := hl.world
    exact ⟨ws, by simpa using hlin.append (.drop time start launch env .nil), hh, ht⟩
  phase p' hp' := by
    obtain ⟨ws, hlin, hh, ht⟩ := hl.world
    obtain rfl : { p with phase := .scanning env } = p' := Option.some.inj hp'
    have hscan : ∀ status, env.script site = done (0, status) →
        scanNow site (run (World.step site) {} ws).hpss s.system.mdb start launch =
          done (0, status) := by
      rw [hh]
      exact hhonest
    exact .intro es [] ws [] time start launch rfl hlin .nil (by simp) ht (by simpa using hh) hscan

/-- A round ends: if the row is stored, `World` has the round where it began. -/
theorem linked_records (hl : Linked site es s) {evt : LiveEvent} (hevt : Linearizes [evt] [])
    {p : Protocol.ScannerDaemon} (hp : s.system.scanner = some p) {r : Protocol.Reply}
    {status : WorkStatus} (hphase : p.phase = .extracting r.call status) (time : UInt64)
    (record : RecordEnv) {phase : Protocol.Phase} (hto : phase = .hung ∨ phase = .waiting) :
    Linked site (es ++ [evt]) { s with
      system := { s.system with
        mdb := (recordRound record
          { status with extractorEnd := time, nExtracted := r.count.toInt64.toUInt64, status := 0 }
          s.system.mdb).1
        replies := s.system.replies.erase r }.goOn p phase } where
  world := by
    by_cases hstores : record.Stores
    · have hopen : PhaseOpen site es s.hpss s.system.mdb p.phase := hl.phase p hp
      rw [hphase] at hopen
      obtain ⟨env, scanned, builderStart, extractorStart, n, ho, hscript, hfound, rfl⟩ := hopen
      obtain ⟨start, launch, ws, hlin, hh, ht⟩ := ho.world hscript hfound
        { start := 0, launch := 0, builderStart, extractorStart, extractorEnd := time,
          nIndexed := n, nExtracted := r.count }
      refine ⟨ws, by simpa using hlin.append hevt, hh, ?_⟩
      rw [ht, recordRound_of_stores hstores]
      rfl
    · obtain ⟨ws, hlin, hh, ht⟩ := hl.world
      refine ⟨ws, by simpa using hlin.append hevt, hh, ht.trans ?_⟩
      exact (recordRound_of_not_stores hstores _ _).symm
  phase p' hp' := by
    obtain rfl : { p with phase } = p' := Option.some.inj hp'
    rcases hto with rfl | rfl <;> trivial

/-- One event of the daemons. -/
theorem linked_change (hl : Linked site es s) {evt : LiveEvent} (hevt : Linearizes [evt] [])
    {e : Protocol.Event} (hscan : ∀ env, e = .scan env → ∃ time start launch,
      evt = .scan time start launch env ∧ Honest site s evt)
    {σ' : Protocol.System} (hc : Protocol.Change site s.system e σ') :
    Linked site (es ++ [evt]) { s with system := σ' } := by
  cases hc with
  | same e => exact hl.quiet hevt rfl hl.phase
  | scannerStarts hnone =>
      refine hl.quiet hevt rfl fun p hp => ?_
      obtain rfl : ({} : Protocol.ScannerDaemon) = p := Option.some.inj hp
      trivial
  | scannerDies e replies hreplies =>
      exact hl.quiet hevt rfl fun p hp => (Option.some_ne_none p hp.symm).elim
  | workerStarts k hnone => exact hl.quiet hevt rfl hl.phase
  | workerDies e k => exact hl.quiet hevt rfl hl.phase
  | connects k hw hconn => exact hl.quiet hevt rfl hl.phase
  | @accepts i p k hp hk =>
      refine hl.quiet hevt rfl fun p' hp' => ?_
      obtain rfl := Option.some.inj hp'
      exact hl.phase p hp
  | drops i => exact hl.quiet hevt rfl hl.phase
  | moves e hp hfrom hto =>
      refine hl.quiet hevt rfl fun p' hp' => ?_
      obtain rfl := Option.some.inj hp'
      rcases hto with rfl | rfl <;> trivial
  | @scans p env hp hphase hrunning hopen hdir =>
      obtain ⟨time, start, launch, rfl, hhonest⟩ := hscan env rfl
      exact linked_scans hl hhonest p
  | asks e hp hfrom hw =>
      refine hl.quiet hevt rfl fun p' hp' => ?_
      obtain rfl := Option.some.inj hp'
      trivial
  | @builds builderStart connected p env status w hp hphase hscript hfound hw =>
      have hopen : PhaseOpen site es s.hpss s.system.mdb p.phase := hl.phase p hp
      rw [hphase] at hopen
      refine hl.quiet hevt rfl fun p' hp' => ?_
      obtain rfl := Option.some.inj hp'
      exact ⟨env, status, builderStart, hopen, hscript, hfound, rfl⟩
  | @extracts i time connected record p r status w hp hphase hr hw =>
      have hopen : PhaseOpen site es s.hpss s.system.mdb p.phase := hl.phase p hp
      rw [hphase] at hopen
      obtain ⟨env, scanned, builderStart, ho, hscript, hfound, rfl⟩ := hopen
      refine hl.quiet hevt rfl fun p' hp' => ?_
      obtain rfl := Option.some.inj hp'
      exact ⟨env, scanned, builderStart, time, r.count, ho, hscript, hfound, rfl⟩
  | records i time connected record hp hphase hr hto =>
      exact linked_records hl hevt hp hphase time record hto
  | serves k i launch hw hidle hi => exact hl.quiet hevt rfl hl.phase
  | finishes k hw hs hrun => exact hl.quiet hevt rfl hl.phase
  | orphanEnds i => exact hl.quiet hevt rfl hl.phase

/-- Every event keeps the run one of `World`. -/
theorem linked_step (hl : Linked site es s) {e : LiveEvent} (hhonest : Honest site s e) :
    Linked site (es ++ [e]) (step site s e) := by
  cases e with
  | edit time e => exact linked_edit hl time e
  | scan time start launch env =>
      refine linked_change hl (.drop time start launch env .nil) (fun env' henv => ?_)
        (Protocol.change site s.system (.scan env))
      cases henv
      exact ⟨time, start, launch, rfl, hhonest⟩
  | daemon e =>
      have hlin : Linearizes [.daemon e] [] := .daemon e .nil
      cases e with
      | scan env => exact hl.quiet hlin rfl hl.phase
      | _ =>
          exact linked_change hl hlin (fun env henv => Protocol.Event.noConfusion henv)
            (Protocol.change site s.system _)

end Step

/-- Every honest run is linked to a run of the world. -/
theorem linked_run {site : Site} (es : List LiveEvent)
    (hhonest : AllSteps (step site) (Honest site) {} es) :
    Linked site es (run (step site) {} es) := by
  induction es using List.reverseRecOn with
  | nil => exact linked_init site
  | append_singleton es e ih =>
      rw [run_append]
      exact linked_step (ih hhonest.initial) hhonest.at

/-! ## whole runs -/

/-- What a round meets when nothing disturbs it. -/
def undisturbed (site : Site) (h : Hpss) (t : List MdbRow) (start launch : Nat) :
    Protocol.ScanEnv where
  taskId := secs start
  scannerStart := secs start
  launch := secs launch
  query := answer (sqlLastStatus t)
  popen := runScript site h

def fileEdit : Edit := .op (.create { objid := .of 3, parentId := .of 1, name := "a".toList } none)

/-- A file is deleted while the builder is at work on the round that found it. -/
def deletedUnderWay : List LiveEvent :=
  .edit (dayTime 1) fileEdit :: Protocol.startUp.map .daemon ++
    [.scan (dayTime 2) (dayTime 2) (dayTime 2)
        (undisturbed (utcSite (.of 1)) (edited (utcSite (.of 1)) {} (dayTime 1) fileEdit) []
          (dayTime 2) (dayTime 2)),
      .daemon (.scanned 0 true), .daemon (.serve .builder 0 Protocol.quietRound.builder.launch),
      .edit (dayTime 3) (.op (.delete (.of 3))),
      .daemon (.finish .builder), .daemon (.receive 0 0 true {}),
      .daemon (.serve .extractor 0 Protocol.quietRound.extractor.launch),
      .daemon (.finish .extractor), .daemon (.receive 0 0 true {})]

end Live

end Hpssix
