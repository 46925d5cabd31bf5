import Hpssix.Base.Trace
import Hpssix.BuilderRun
import Hpssix.Service
import Hpssix.World

/-!
# Hpssix.Daemon

A round of the scanner daemon with every outcome of its steps (`do_scanner` in
`hpssixd/src/hpssixd-scanner.c`), over the two services.

What a round comes to is stated once, by `doScanner_of_reaches` and
`doScanner_of_not_reaches`: it records a row exactly if it gets to the end, and
nothing else changes the master db.
-/

namespace Hpssix

open CText Cursor Fate Lite Rel Trace

/-- `EINVAL`. -/
def errInval : Int := 22

/-- The sqlite calls of `hpssix_mdb_record`. -/
structure RecordEnv where
  bindOk : Bool := true
  beginRc : ExecRc := .ok
  steps : List (Rc Unit) := answer []
  stepEnds : Bool := false
  endRc : ExecRc := .ok
  rollbackRc : ExecRc := .ok
deriving DecidableEq

/-- What a round meets: whether the workers have connected, the readings of the
clock, and the outcome of every step. -/
structure RoundEnv where
  builderRunning : Bool := true
  extractorRunning : Bool := true
  taskId : UInt64
  mdbOpen : Int := 0
  datadir : Int := 0
  scannerStart : UInt64 := 0
  launch : UInt64 := 0
  query : List (Rc (Int × Int))
  popen : Nat → Int → Except Nat Child
  builderStart : UInt64 := 0
  builder : RpcEnv
  extractorStart : UInt64 := 0
  extractor : RpcEnv
  extractorEnd : UInt64 := 0
  record : RecordEnv := {}

/-- The master db, and what the services keep. -/
structure Daemons where
  mdb : List MdbRow := []
  builder : Service := {}
  extractor : Service := {}
deriving DecidableEq

/-- What a round comes to: the state after it, the processes that were launched,
and what `do_scanner` returns. -/
structure RoundResult where
  daemons : Daemons
  builder : Option Worker := none
  extractor : Option Worker := none
  ret : Fate Int

/-- The reply of a worker: the pointer is dereferenced if the return code is 0. -/
def workerReply (reply : Fate (Int × Option Int32)) : Fate (Except Int Int32) := do
  let (ret, result) ← reply
  if ret ≠ 0 then pure (.error ret)
  else do
    let n ← deref result
    pure (.ok n)

@[simp] theorem workerReply_some (n : Int32) : workerReply (done (0, some n)) = done (.ok n) := rfl

variable (site : Site)

/-- The status with what follows the scan. -/
def roundStatus (env : RoundEnv) (nIndexed nExtracted : Int32) (status : WorkStatus) : WorkStatus :=
  { status with
    builderStart := env.builderStart
    extractorStart := env.extractorStart
    nIndexed := nIndexed.toInt64.toUInt64
    extractorEnd := env.extractorEnd
    nExtracted := nExtracted.toInt64.toUInt64
    status := 0 }

/-- The end of `do_scanner`: the row is recorded.  A transaction that is left open then
is never ended, for no later round uses its connection. -/
def recordRound (env : RecordEnv) (status : WorkStatus) (t : List MdbRow) : List MdbRow × Fate Int :=
  match mdbRecord env.bindOk env.beginRc env.steps env.stepEnds env.endRc env.rollbackRc status
      { stored := t } with
  | none => (t, hang)
  | some (ret, db) => (db.stored, done ret)

/-- `do_scanner`. -/
def doScanner (env : RoundEnv) (d : Daemons) : RoundResult :=
  if !env.builderRunning then { daemons := d, ret := done errInval }
  else if !env.extractorRunning then { daemons := d, ret := done errInval }
  else if env.mdbOpen ≠ 0 then { daemons := d, ret := done errIo }
  else if env.datadir ≠ 0 then { daemons := d, ret := done env.datadir }
  else
    match launchScannerProcess site env.query env.launch env.popen
        { id := env.taskId, scannerStart := env.scannerStart } with
    | crash => { daemons := d, ret := crash }
    | hang => { daemons := d, ret := hang }
    | done (ret, status) =>
      if ret ≠ 0 then { daemons := d, ret := done ret }
      else if status.nScanned + status.nDeleted = 0 then { daemons := d, ret := done 0 }
      else
        let (builder, w, reply) := rpcRunWorker builderKeys env.builder env.taskId d.builder
        let d := { d with builder }
        match workerReply reply with
        | crash => { daemons := d, builder := w, ret := crash }
        | hang => { daemons := d, builder := w, ret := hang }
        | done (.error ret) => { daemons := d, builder := w, ret := done ret }
        | done (.ok nIndexed) =>
          let (extractor, w', reply) :=
            rpcRunWorker extractorKeys env.extractor env.taskId d.extractor
          let d := { d with extractor }
          match workerReply reply with
          | crash => { daemons := d, builder := w, extractor := w', ret := crash }
          | hang => { daemons := d, builder := w, extractor := w', ret := hang }
          | done (.error ret) => { daemons := d, builder := w, extractor := w', ret := done ret }
          | done (.ok nExtracted) =>
            let (mdb, ret) := recordRound env.record (roundStatus env nIndexed nExtracted status) d.mdb
            { daemons := { d with mdb }, builder := w, extractor := w', ret }

/-- A round. -/
def Daemons.step (d : Daemons) (env : RoundEnv) : Daemons := (doScanner site env d).daemons

/-! ## the end of a round -/

/-- The row reaches the db: the statement is done, and its transaction, if there is
one, is ended. -/
def RecordEnv.Stores (env : RecordEnv) : Prop :=
  env.bindOk = true ∧ (∃ rest, stepBusy env.steps = some (.done, rest)) ∧
    (env.beginRc = .ok → env.endRc = .ok)

theorem recordRound_of_stores {env : RecordEnv} (h : env.Stores) (status : WorkStatus)
    (t : List MdbRow) : recordRound env status t = (sqlRecord status t, done 0) := by
  obtain ⟨hbind, ⟨rest, hstep⟩, hend⟩ := h
  unfold recordRound mdbRecord
  cases hbegin : env.beginRc with
  | ok => simp [hbind, hstep, hend hbegin, Conn.begin, Conn.write, Conn.commit]
  | busy => simp [hbind, hstep, Conn.begin, Conn.write, Conn.commit]
  | error => simp [hbind, hstep, Conn.begin, Conn.write, Conn.commit]
  | rolledBack => simp [hbind, hstep, Conn.begin, Conn.write, Conn.commit]

theorem recordRound_of_not_stores {env : RecordEnv} (h : ¬ env.Stores) (status : WorkStatus)
    (t : List MdbRow) : (recordRound env status t).1 = t := by
  unfold recordRound mdbRecord
  cases hbind : env.bindOk with
  | false => simp
  | true =>
      cases hstep : stepBusy env.steps with
      | none => simp
      | some rc =>
          obtain ⟨rc, rest⟩ := rc
          cases rc with
          | done =>
              have hend : ¬ (env.beginRc = .ok → env.endRc = .ok) := fun hend =>
                h ⟨hbind, ⟨rest, hstep⟩, hend⟩
              obtain ⟨hbegin, hend⟩ := Classical.not_imp.mp hend
              cases he : env.endRc with
              | ok => exact absurd he hend
              | busy => simp [hbegin, Conn.begin, Conn.write, Conn.commit]
              | error => simp [hbegin, Conn.begin, Conn.write, Conn.commit]
              | rolledBack => simp [hbegin, Conn.begin, Conn.write, Conn.commit]
          | _ => simp

/-- The round gets to the end: the workers have connected, the db opens, the scan
succeeds and finds something, both requests are answered, and the row is
stored. -/
structure Reaches (env : RoundEnv) (d : Daemons) (status : WorkStatus) : Prop where
  builderRunning : env.builderRunning = true
  extractorRunning : env.extractorRunning = true
  mdbOpen : env.mdbOpen = 0
  datadir : env.datadir = 0
  scan : launchScannerProcess site env.query env.launch env.popen
    { id := env.taskId, scannerStart := env.scannerStart } = done (0, status)
  found : status.nScanned + status.nDeleted ≠ 0
  builder : Answered builderKeys env.builder env.taskId d.builder
  extractor : Answered extractorKeys env.extractor env.taskId d.extractor
  record : env.record.Stores

/-- What a round that gets to the end comes to. -/
def reached (env : RoundEnv) (d : Daemons) (status : WorkStatus) : RoundResult :=
  let builder := d.builder.after builderKeys env.builder.launch env.taskId
  let extractor := d.extractor.after extractorKeys env.extractor.launch env.taskId
  { daemons :=
      { mdb := sqlRecord (roundStatus env builder.result extractor.result status) d.mdb
        builder
        extractor }
    builder := launched env.builder.launch env.taskId d.builder
    extractor := launched env.extractor.launch env.taskId d.extractor
    ret := done 0 }

variable {site} {env : RoundEnv} {d : Daemons} {status : WorkStatus}

theorem doScanner_of_reaches (h : Reaches site env d status) :
    doScanner site env d = reached env d status := by
  obtain ⟨hb, he, hopen, hdir, hscan, hfound, hbuilder, hextractor, hrecord⟩ := h
  simp [doScanner, hb, he, hopen, hdir, hscan, hfound, rpcRunWorker_of_answered hbuilder,
    rpcRunWorker_of_answered hextractor, recordRound_of_stores hrecord, reached]

/-- A worker that does not answer ends the round. -/
theorem workerReply_of_not_answered {keys : CountKeys} {rpc : RpcEnv} {task : UInt64} {s : Service}
    (h : ¬ Answered keys rpc task s) : workerReply (rpcRunWorker keys rpc task s).2.2 = crash := by
  obtain hcrash | hnull := rpcRunWorker_of_not_answered h
  · rw [hcrash]
    rfl
  · rw [hnull]
    rfl

theorem doScanner_of_not_reaches (h : ¬ ∃ status, Reaches site env d status) :
    (doScanner site env d).daemons.mdb = d.mdb := by
  unfold doScanner
  split
  · rfl
  · next hb =>
    split
    · rfl
    · next he =>
      split
      · rfl
      · next hopen =>
        split
        · rfl
        · next hdir =>
          split
          · rfl
          · rfl
          · next ret status hscan =>
            split
            · rfl
            · next hret =>
              split
              · rfl
              · next hfound =>
                by_cases hbuilder : Answered builderKeys env.builder env.taskId d.builder
                · by_cases hextractor :
                    Answered extractorKeys env.extractor env.taskId d.extractor
                  · have hrecord : ¬ env.record.Stores := fun hrecord => by
                      obtain rfl : ret = 0 := by simpa using hret
                      exact h ⟨status, by simpa using hb, by simpa using he, by simpa using hopen,
                        by simpa using hdir, hscan, hfound, hbuilder, hextractor, hrecord⟩
                    simp [rpcRunWorker_of_answered hbuilder, rpcRunWorker_of_answered hextractor,
                      recordRound_of_not_stores hrecord]
                  · simp [rpcRunWorker_of_answered hbuilder, workerReply_of_not_answered hextractor]
                · simp [workerReply_of_not_answered hbuilder]

/-! ## undisturbed rounds -/

/-- A round of `World` in which only the processes of the two services are still
open. -/
def World.roundEnv (site : Site) (w : World) (r : RoundInput) (builder extractor : LaunchEnv) :
    RoundEnv where
  taskId := secs r.start
  scannerStart := secs r.start
  launch := secs r.launch
  query := answer (sqlLastStatus w.mdb)
  popen := runScript site w.hpss
  builderStart := r.builderStart
  builder := { launch := builder }
  extractorStart := r.extractorStart
  extractor := { launch := extractor }
  extractorEnd := r.extractorEnd

/-- A round of `World` is `do_scanner` on an undisturbed database, with a script
that succeeds and services that reply with the counts of the round. -/
theorem mdb_doScanner_roundEnv {w : World} {r : RoundInput} {time : Nat}
    {builder extractor : LaunchEnv} {sb se : Service}
    (hb : Survives builderKeys builder (secs r.start) sb)
    (he : Survives extractorKeys extractor (secs r.start) se)
    (hn : (sb.after builderKeys builder (secs r.start)).result = r.nIndexed)
    (hx : (se.after extractorKeys extractor (secs r.start)).result = r.nExtracted) :
    (doScanner site (w.roundEnv site r builder extractor) ⟨w.mdb, sb, se⟩).daemons.mdb =
      (w.round site time r).mdb := by
  have hend : ∀ status, Reaches site (w.roundEnv site r builder extractor) ⟨w.mdb, sb, se⟩ status ↔
      launchScannerProcess site (answer (sqlLastStatus w.mdb)) (secs r.launch)
        (runScript site w.hpss) { id := secs r.start, scannerStart := secs r.start } =
          done (0, status) ∧ status.nScanned + status.nDeleted ≠ 0 := fun status =>
    ⟨fun h => ⟨h.scan, h.found⟩, fun h => ⟨rfl, rfl, rfl, rfl, h.1, h.2, ⟨rfl, rfl, rfl, hb⟩,
      ⟨rfl, rfl, rfl, he⟩, rfl, ⟨_, rfl⟩, fun _ => rfl⟩⟩
  by_cases h : ∃ status, Reaches site (w.roundEnv site r builder extractor) ⟨w.mdb, sb, se⟩ status
  · obtain ⟨status, h⟩ := h
    obtain ⟨hscan, hfound⟩ := (hend status).mp h
    rw [doScanner_of_reaches h, World.round, hscan]
    simp only [if_neg hfound]
    show sqlRecord (roundStatus _ (sb.after _ _ _).result (se.after _ _ _).result status) w.mdb = _
    rw [show (sb.after builderKeys (w.roundEnv site r builder extractor).builder.launch
        (w.roundEnv site r builder extractor).taskId).result = r.nIndexed from hn,
      show (se.after extractorKeys (w.roundEnv site r builder extractor).extractor.launch
        (w.roundEnv site r builder extractor).taskId).result = r.nExtracted from hx]
    rfl
  · rw [doScanner_of_not_reaches h, World.round]
    split
    · next status hscan =>
        split
        · rfl
        · next hfound => exact absurd ⟨status, (hend status).mpr ⟨hscan, hfound⟩⟩ h
    · rfl

end Hpssix
