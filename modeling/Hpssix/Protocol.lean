import Mathlib.Logic.Function.Basic
import Hpssix.Daemon

/-!
# Hpssix.Protocol

The three daemons as processes of their own (`hpssixd/src/hpssixd-scanner.c`,
`hpssixd-builder.c`, `hpssixd-extractor.c`, with the calls of `hpssixd-comm.c`).
Each can be started, killed and started again; a call between them is a request
that waits at the process it was sent to and a reply that waits for the process
that called.  A run is any sequence of events, and what an event cannot do in a
state it does not do.

A worker daemon has two threads: its main thread connects to the scanner once,
after the start, and its control thread serves the requests one at a time.  The
scanner's main thread runs the rounds and its control thread marks the workers
that connect.  The marks are never taken back.

* `change` — what one event can do, as one case per kind of step.
-/

namespace Hpssix

open CText Cursor Fate Lite

namespace Protocol

/-- `HPSSIXD_ID_BUILDER` and `HPSSIXD_ID_EXTRACTOR`. -/
inductive WorkerId where
  | builder
  | extractor
deriving DecidableEq

/-- The lines that the worker's daemon looks for. -/
def WorkerId.keys : WorkerId → CountKeys
  | .builder => builderKeys
  | .extractor => extractorKeys

/-! ## the parties -/

/-- A call of `builder_run_1` or `extractor_run_1`: the scanner process that makes
it, how many it made before, and the task. -/
structure RunCall where
  worker : WorkerId
  epoch : Nat
  seq : Nat
  task : UInt64
deriving DecidableEq

/-- What waits at a worker's RPC service.  Nobody calls `builder_alive_1` or
`extractor_alive_1`. -/
inductive Request where
  | run (call : RunCall)
  | terminate
deriving DecidableEq

/-- The call of a run request. -/
def Request.call : Request → Option RunCall
  | .run call => some call
  | .terminate => none

/-- A run request in service: what the daemon meets, and what it kept before. -/
structure Serving where
  call : RunCall
  launch : LaunchEnv
  before : Service

/-- A builder or extractor daemon: whether `connect_scanner` is still to come, what
it keeps between requests, and the requests that wait or are in service. -/
structure WorkerDaemon where
  connecting : Bool := true
  service : Service := {}
  requests : List Request := []
  serving : Option Serving := none

/-- What `do_scanner` meets up to the end of the scan script. -/
structure ScanEnv where
  taskId : UInt64
  mdbOpen : Int := 0
  datadir : Int := 0
  scannerStart : UInt64 := 0
  launch : UInt64 := 0
  query : List (Rc (Int × Int))
  popen : Nat → Int → Except Nat Child

/-- `launch_scanner_process` of a round. -/
def ScanEnv.script (site : Site) (env : ScanEnv) : Fate (Int × WorkStatus) :=
  launchScannerProcess site env.query env.launch env.popen
    { id := env.taskId, scannerStart := env.scannerStart }

/-- Where the scanner's main thread is: in `sigwait`, at the scan script, waiting for
a reply, waiting for the end of a terminate call with these still to make, or in a
call of the master db that does not return. -/
inductive Phase where
  | waiting
  | scanning (env : ScanEnv)
  | building (call : RunCall) (status : WorkStatus)
  | extracting (call : RunCall) (status : WorkStatus)
  | stopping (rest : List WorkerId)
  | hung

/-- The run call that the main thread waits for. -/
def Phase.calling : Phase → Option (WorkerId × RunCall)
  | .building call _ => some (.builder, call)
  | .extracting call _ => some (.extractor, call)
  | _ => none

/-- The main thread is past the first checks of `do_scanner`. -/
def Phase.InRound : Phase → Prop
  | .scanning _ | .building _ _ | .extracting _ _ => True
  | _ => False

/-- The scanner daemon: `builder_running` and `extractor_running`, the run calls made,
and its main thread. -/
structure ScannerDaemon where
  running : WorkerId → Bool := fun _ => false
  calls : Nat := 0
  phase : Phase := .waiting

/-- The answer to a run call. -/
structure Reply where
  call : RunCall
  count : Int32
deriving DecidableEq

/-- The daemons and what is on the way between them.  `epoch` counts the scanner
processes so far, `orphans` are worker processes whose daemon is gone, and `served`
is the history of the answered run requests. -/
structure System where
  mdb : List MdbRow := []
  epoch : Nat := 0
  scanner : Option ScannerDaemon := none
  worker : WorkerId → Option WorkerDaemon := fun _ => none
  connects : List (WorkerId × Nat) := []
  replies : List Reply := []
  orphans : List WorkerId := []
  served : List Serving := []

/-- The process that a request in service has launched. -/
def Serving.child (s : Serving) : Option Worker := launched s.launch s.call.task s.before

/-- The run requests that a worker has not answered. -/
def WorkerDaemon.runs (w : WorkerDaemon) : List RunCall :=
  w.requests.filterMap Request.call ++ (w.serving.map Serving.call).toList

/-- The worker process that runs under a daemon. -/
def WorkerDaemon.child (w : WorkerDaemon) : Option Worker := w.serving.bind Serving.child

namespace System

variable (σ : System)

/-- The run requests at a worker. -/
def runs (k : WorkerId) : List RunCall := (σ.worker k).elim [] WorkerDaemon.runs

def setWorker (k : WorkerId) (w : Option WorkerDaemon) : System :=
  { σ with worker := Function.update σ.worker k w }

/-! ## the events -/

/-- The scanner process ends; what it waited for goes on without it. -/
def scannerDies : System := { σ with scanner := none }

/-- The main thread of the scanner goes on. -/
def goOn (p : ScannerDaemon) (phase : Phase) : System :=
  { σ with scanner := some { p with phase } }

/-- The process of a worker daemon ends, with the requests at it; the process it
launched goes on without it. -/
def workerDies (k : WorkerId) : System :=
  { σ.setWorker k none with
    orphans := σ.orphans ++
      (if ((σ.worker k).bind WorkerDaemon.child).isSome then [k] else []) }

/-- A request arrives at a worker. -/
def enqueue (k : WorkerId) (w : WorkerDaemon) (r : Request) : System :=
  σ.setWorker k (some { w with requests := w.requests ++ [r] })

/-- A run call is made. -/
def call (p : ScannerDaemon) (k : WorkerId) (w : WorkerDaemon) (c : RunCall) (phase : Phase) :
    System :=
  { σ.enqueue k w (.run c) with scanner := some { p with calls := p.calls + 1, phase } }

/-- A run request is answered. -/
def answer (k : WorkerId) (w : WorkerDaemon) (s : Serving) (service : Service) : System :=
  { σ.setWorker k (some { w with serving := none, service }) with
    replies := σ.replies ++ [⟨s.call, service.result⟩]
    served := σ.served ++ [s] }

/-- `rpc_run_worker` up to the wait for the reply.  Without a connection there is no
client handle, and destroying it ends the process. -/
def runWorker (p : ScannerDaemon) (connected : Bool) (k : WorkerId) (task : UInt64)
    (phase : RunCall → Phase) : System :=
  match σ.worker k with
  | none => σ.scannerDies
  | some w =>
    if !connected then σ.scannerDies
    else σ.call p k w ⟨k, σ.epoch, p.calls, task⟩ (phase ⟨k, σ.epoch, p.calls, task⟩)

/-- `scanner_terminate_all` from the workers that are still to be asked, up to the
next wait. -/
def terminateAll (p : ScannerDaemon) (connected : Bool) : List WorkerId → System
  | [] => σ.scannerDies
  | k :: ks =>
    if !p.running k then terminateAll p connected ks
    else
      match σ.worker k with
      | none => σ.scannerDies
      | some w =>
        if !connected then σ.scannerDies
        else (σ.enqueue k w .terminate).goOn p (.stopping ks)

end System

/-- An event: a process is started or killed, a message is taken up, or a party goes
on.  `connected` is what `clnt_create` comes to. -/
inductive Event where
  | startScanner
  | killScanner
  | startWorker (k : WorkerId)
  | killWorker (k : WorkerId)
  | connect (k : WorkerId)
  | accept (i : Nat)
  | scan (env : ScanEnv)
  | scanned (builderStart : UInt64) (connected : Bool)
  | serve (k : WorkerId) (i : Nat) (launch : LaunchEnv)
  | finish (k : WorkerId)
  | receive (i : Nat) (time : UInt64) (connected : Bool) (record : RecordEnv)
  | callFails
  | stop (connected : Bool)
  | stopped (connected : Bool)
  | orphanEnds (i : Nat)

namespace System

variable (site : Site) (σ : System)

def startScanner : System :=
  match σ.scanner with
  | none => { σ with epoch := σ.epoch + 1, scanner := some {} }
  | some _ => σ

def startWorker (k : WorkerId) : System :=
  match σ.worker k with
  | none => σ.setWorker k (some {})
  | some _ => σ

/-- `connect_scanner` up to the wait for the reply; a worker that finds no scanner
ends. -/
def connect (k : WorkerId) : System :=
  match σ.worker k with
  | some w =>
    if !w.connecting then σ
    else
      match σ.scanner with
      | none => σ.workerDies k
      | some _ =>
        { σ.setWorker k (some { w with connecting := false }) with
          connects := σ.connects ++ [(k, σ.epoch)] }
  | none => σ

/-- `scanner_connect_1_svc`. -/
def accept (i : Nat) : System :=
  match σ.scanner, σ.connects[i]? with
  | some p, some (k, e) =>
    if e = σ.epoch then
      { σ with
        connects := σ.connects.eraseIdx i
        scanner := some { p with running := Function.update p.running k true } }
    else { σ with connects := σ.connects.eraseIdx i }
  | _, _ => σ

/-- `do_scanner` up to the scan script. -/
def scan (p : ScannerDaemon) (env : ScanEnv) : System :=
  if !p.running .builder then σ
  else if !p.running .extractor then σ
  else if env.mdbOpen ≠ 0 then σ
  else if env.datadir ≠ 0 then σ
  else σ.goOn p (.scanning env)

/-- The script has ended. -/
def scanned (p : ScannerDaemon) (env : ScanEnv) (builderStart : UInt64) (connected : Bool) :
    System :=
  match env.script site with
  | crash => σ.scannerDies
  | hang => σ.goOn p .hung
  | done (ret, status) =>
    if ret ≠ 0 then σ.goOn p .waiting
    else if status.nScanned + status.nDeleted = 0 then σ.goOn p .waiting
    else σ.runWorker p connected .builder status.id fun call =>
      .building call { status with builderStart }

/-- The reply of the builder. -/
def builderReply (p : ScannerDaemon) (status : WorkStatus) (r : Reply) (time : UInt64)
    (connected : Bool) : System :=
  { σ with replies := σ.replies.erase r }.runWorker p connected .extractor status.id
    fun call => .extracting call
      { status with extractorStart := time, nIndexed := r.count.toInt64.toUInt64 }

/-- The reply of the extractor; the round is recorded and the master db closed. -/
def extractorReply (p : ScannerDaemon) (status : WorkStatus) (r : Reply) (time : UInt64)
    (record : RecordEnv) : System :=
  let recorded := recordRound record
    { status with extractorEnd := time, nExtracted := r.count.toInt64.toUInt64, status := 0 } σ.mdb
  { σ with mdb := recorded.1, replies := σ.replies.erase r }.goOn p
    (if recorded.2 = hang then .hung else .waiting)

/-- A reply reaches the main thread of the scanner if it waits for it. -/
def receive (p : ScannerDaemon) (r : Reply) (time : UInt64) (connected : Bool)
    (record : RecordEnv) : System :=
  match p.phase with
  | .building call status =>
    if r.call = call then σ.builderReply p status r time connected else σ
  | .extracting call status =>
    if r.call = call then σ.extractorReply p status r time record else σ
  | _ => σ

/-- The control thread of a worker daemon takes up a request.  A terminate request
kills the daemon that serves it. -/
def serve (k : WorkerId) (w : WorkerDaemon) (i : Nat) (launch : LaunchEnv) : System :=
  match w.serving, w.requests[i]? with
  | none, some .terminate => σ.workerDies k
  | none, some (.run call) =>
    σ.setWorker k (some { w with
      requests := w.requests.eraseIdx i
      serving := some ⟨call, launch, w.service⟩
      service := { w.service with currentTask := call.task } })
  | _, _ => σ

/-- A run request is answered, or the daemon dies of what the process printed. -/
def finish (k : WorkerId) (w : WorkerDaemon) (s : Serving) : System :=
  match runSvc k.keys s.launch s.call.task s.before with
  | done (service, _) => σ.answer k w s service
  | _ => σ.workerDies k

/-- The main thread of the scanner goes on from the phase it is in. -/
def resume (p : ScannerDaemon) : Event → System
  | .scan env =>
    match p.phase with
    | .waiting => σ.scan p env
    | _ => σ
  | .scanned builderStart connected =>
    match p.phase with
    | .scanning env => σ.scanned site p env builderStart connected
    | _ => σ
  | .receive i time connected record =>
    match σ.replies[i]? with
    | some r => σ.receive p r time connected record
    | none => σ
  | .callFails => if p.phase.calling.isSome then σ.scannerDies else σ
  | .stop connected =>
    match p.phase with
    | .waiting => σ.terminateAll p connected [.builder, .extractor]
    | _ => σ
  | .stopped connected =>
    match p.phase with
    | .stopping rest => σ.terminateAll p connected rest
    | _ => σ
  | _ => σ

/-- The control thread of a worker daemon goes on. -/
def work (k : WorkerId) (w : WorkerDaemon) : Event → System
  | .serve _ i launch => σ.serve k w i launch
  | .finish _ =>
    match w.serving with
    | some s => σ.finish k w s
    | none => σ
  | _ => σ

end System

/-- One event. -/
def step (site : Site) (σ : System) (e : Event) : System :=
  match e with
  | .startScanner => σ.startScanner
  | .killScanner => σ.scannerDies
  | .startWorker k => σ.startWorker k
  | .killWorker k => σ.workerDies k
  | .connect k => σ.connect k
  | .accept i => σ.accept i
  | .serve k _ _ | .finish k => (σ.worker k).elim σ fun w => σ.work k w e
  | .orphanEnds i => { σ with orphans := σ.orphans.eraseIdx i }
  | _ => σ.scanner.elim σ fun p => σ.resume site p e

/-! ## what an event can do -/

/-- The kinds of steps.  Most events can also do nothing. -/
inductive Change (site : Site) (σ : System) : Event → System → Prop where
  | same (e : Event) : Change site σ e σ
  | scannerStarts (h : σ.scanner = none) :
      Change site σ .startScanner { σ with epoch := σ.epoch + 1, scanner := some {} }
  | scannerDies (e : Event) (replies : List Reply) (hreplies : replies.Sublist σ.replies) :
      Change site σ e { σ with replies }.scannerDies
  | workerStarts (k : WorkerId) (h : σ.worker k = none) :
      Change site σ (.startWorker k) (σ.setWorker k (some {}))
  | workerDies (e : Event) (k : WorkerId) : Change site σ e (σ.workerDies k)
  | connects (k : WorkerId) {w : WorkerDaemon} (hw : σ.worker k = some w)
      (hconn : w.connecting = true) :
      Change site σ (.connect k)
        { σ.setWorker k (some { w with connecting := false }) with
          connects := σ.connects ++ [(k, σ.epoch)] }
  | accepts (i : Nat) {p : ScannerDaemon} {k : WorkerId} (hp : σ.scanner = some p)
      (hk : (k, σ.epoch) ∈ σ.connects) :
      Change site σ (.accept i)
        { σ with
          connects := σ.connects.eraseIdx i
          scanner := some { p with running := Function.update p.running k true } }
  | drops (i : Nat) : Change site σ (.accept i) { σ with connects := σ.connects.eraseIdx i }
  | moves (e : Event) {p : ScannerDaemon} {phase : Phase} (hp : σ.scanner = some p)
      (hfrom : p.phase.calling = none) (hto : phase = .hung ∨ phase = .waiting) :
      Change site σ e (σ.goOn p phase)
  | scans {p : ScannerDaemon} {env : ScanEnv} (hp : σ.scanner = some p)
      (hphase : p.phase = .waiting) (hrunning : ∀ k, p.running k = true)
      (hopen : env.mdbOpen = 0) (hdir : env.datadir = 0) :
      Change site σ (.scan env) (σ.goOn p (.scanning env))
  | asks (e : Event) {p : ScannerDaemon} {k : WorkerId} {w : WorkerDaemon} {rest : List WorkerId}
      (hp : σ.scanner = some p) (hfrom : p.phase.calling = none) (hw : σ.worker k = some w) :
      Change site σ e ((σ.enqueue k w .terminate).goOn p (.stopping rest))
  | builds (builderStart : UInt64) (connected : Bool) {p : ScannerDaemon} {env : ScanEnv}
      {status : WorkStatus} {w : WorkerDaemon} (hp : σ.scanner = some p)
      (hphase : p.phase = .scanning env) (hscript : env.script site = done (0, status))
      (hfound : status.nScanned + status.nDeleted ≠ 0) (hw : σ.worker .builder = some w) :
      Change site σ (.scanned builderStart connected)
        (σ.call p .builder w ⟨.builder, σ.epoch, p.calls, status.id⟩
          (.building ⟨.builder, σ.epoch, p.calls, status.id⟩ { status with builderStart }))
  | extracts (i : Nat) (time : UInt64) (connected : Bool) (record : RecordEnv) {p : ScannerDaemon}
      {r : Reply} {status : WorkStatus} {w : WorkerDaemon} (hp : σ.scanner = some p)
      (hphase : p.phase = .building r.call status) (hr : r ∈ σ.replies)
      (hw : σ.worker .extractor = some w) :
      Change site σ (.receive i time connected record)
        ({ σ with replies := σ.replies.erase r }.call p .extractor w
          ⟨.extractor, σ.epoch, p.calls, status.id⟩
          (.extracting ⟨.extractor, σ.epoch, p.calls, status.id⟩
            { status with extractorStart := time, nIndexed := r.count.toInt64.toUInt64 }))
  | records (i : Nat) (time : UInt64) (connected : Bool) (record : RecordEnv) {p : ScannerDaemon}
      {r : Reply} {status : WorkStatus} {phase : Phase} (hp : σ.scanner = some p)
      (hphase : p.phase = .extracting r.call status) (hr : r ∈ σ.replies)
      (hto : phase = .hung ∨ phase = .waiting) :
      Change site σ (.receive i time connected record)
        ({ σ with
            mdb := (recordRound record
              { status with
                extractorEnd := time, nExtracted := r.count.toInt64.toUInt64, status := 0 }
              σ.mdb).1
            replies := σ.replies.erase r }.goOn p phase)
  | serves (k : WorkerId) (i : Nat) (launch : LaunchEnv) {w : WorkerDaemon} {c : RunCall}
      (hw : σ.worker k = some w) (hidle : w.serving = none)
      (hi : w.requests[i]? = some (.run c)) :
      Change site σ (.serve k i launch)
        (σ.setWorker k (some { w with
          requests := w.requests.eraseIdx i
          serving := some ⟨c, launch, w.service⟩
          service := { w.service with currentTask := c.task } }))
  | finishes (k : WorkerId) {w : WorkerDaemon} {s : Serving} {service : Service}
      {child : Option Worker} (hw : σ.worker k = some w) (hs : w.serving = some s)
      (hrun : runSvc k.keys s.launch s.call.task s.before = done (service, child)) :
      Change site σ (.finish k) (σ.answer k w s service)
  | orphanEnds (i : Nat) :
      Change site σ (.orphanEnds i) { σ with orphans := σ.orphans.eraseIdx i }

section Cases
variable {site : Site} {σ : System} {p : ScannerDaemon}

/-- The scanner's end is a change. -/
theorem change_terminateAll (e : Event) (hp : σ.scanner = some p) (hfrom : p.phase.calling = none)
    (connected : Bool) (ks : List WorkerId) :
    Change site σ e (σ.terminateAll p connected ks) := by
  induction ks with
  | nil => exact .scannerDies e σ.replies (List.Sublist.refl _)
  | cons k ks ih =>
      unfold System.terminateAll
      split
      · exact ih
      · split
        · exact .scannerDies e σ.replies (List.Sublist.refl _)
        · next w hw =>
          split
          · exact .scannerDies e σ.replies (List.Sublist.refl _)
          · exact .asks e hp hfrom hw

/-- A worker's connecting is a change. -/
theorem change_connect (σ : System) (k : WorkerId) : Change site σ (.connect k) (σ.connect k) := by
  unfold System.connect
  split
  · next w hw =>
    split
    · exact .same _
    · next hconn =>
      split
      · exact .workerDies _ k
      · exact .connects k hw (by simpa using hconn)
  · exact .same _

/-- The scanner's accepting it is a change. -/
theorem change_accept (σ : System) (i : Nat) : Change site σ (.accept i) (σ.accept i) := by
  unfold System.accept
  split
  · next p k e hp hi =>
    split
    · next he =>
      obtain rfl : e = σ.epoch := he
      exact .accepts i hp (List.mem_of_getElem? hi)
    · exact .drops i
  · exact .same _

/-- The start of a round is a change. -/
theorem change_scan (hp : σ.scanner = some p) (hphase : p.phase = .waiting) (env : ScanEnv) :
    Change site σ (.scan env) (σ.scan p env) := by
  unfold System.scan
  split
  · exact .same _
  · next hb =>
    split
    · exact .same _
    · next hx =>
      split
      · exact .same _
      · next hopen =>
        split
        · exact .same _
        · next hdir =>
          refine .scans hp hphase (fun k => ?_) (by simpa using hopen) (by simpa using hdir)
          cases k with
          | builder => simpa using hb
          | extractor => simpa using hx

/-- The end of the scan is a change. -/
theorem change_scanned (hp : σ.scanner = some p) {env : ScanEnv} (hphase : p.phase = .scanning env)
    (builderStart : UInt64) (connected : Bool) :
    Change site σ (.scanned builderStart connected) (σ.scanned site p env builderStart connected) := by
  have hfrom : p.phase.calling = none := by rw [hphase]; rfl
  unfold System.scanned
  split
  · exact .scannerDies _ σ.replies (List.Sublist.refl _)
  · exact .moves _ hp hfrom (.inl rfl)
  · next ret status hscript =>
    split
    · exact .moves _ hp hfrom (.inr rfl)
    · next hret =>
      split
      · exact .moves _ hp hfrom (.inr rfl)
      · next hfound =>
        obtain rfl : ret = 0 := by simpa using hret
        unfold System.runWorker
        split
        · exact .scannerDies _ σ.replies (List.Sublist.refl _)
        · next w hw =>
          split
          · exact .scannerDies _ σ.replies (List.Sublist.refl _)
          · exact .builds builderStart connected hp hphase hscript hfound hw

/-- The builder's reply is a change. -/
theorem change_builderReply (hp : σ.scanner = some p) {r : Reply} {status : WorkStatus}
    (hphase : p.phase = .building r.call status) (hr : r ∈ σ.replies) (i : Nat) (time : UInt64)
    (connected : Bool) (record : RecordEnv) :
    Change site σ (.receive i time connected record)
      (σ.builderReply p status r time connected) := by
  unfold System.builderReply System.runWorker
  split
  · exact .scannerDies _ _ List.erase_sublist
  · next w hw =>
    split
    · exact .scannerDies _ _ List.erase_sublist
    · exact .extracts i time connected record hp hphase hr hw

/-- Any reply that is received is a change. -/
theorem change_receive (hp : σ.scanner = some p) {r : Reply} (hr : r ∈ σ.replies) (i : Nat)
    (time : UInt64) (connected : Bool) (record : RecordEnv) :
    Change site σ (.receive i time connected record) (σ.receive p r time connected record) := by
  unfold System.receive
  split
  · next call status hphase =>
    split
    · next hcall =>
      subst hcall
      exact change_builderReply hp hphase hr i time connected record
    · exact .same _
  · next call status hphase =>
    split
    · next hcall =>
      subst hcall
      refine .records i time connected record hp hphase hr ?_
      split
      · exact .inl rfl
      · exact .inr rfl
    · exact .same _
  · exact .same _

/-- A request that is served is a change. -/
theorem change_serve {k : WorkerId} {w : WorkerDaemon} (hw : σ.worker k = some w) (i : Nat)
    (launch : LaunchEnv) : Change site σ (.serve k i launch) (σ.serve k w i launch) := by
  unfold System.serve
  split
  · exact .workerDies _ k
  · next call hidle hi => exact .serves k i launch hw hidle hi
  · exact .same _

/-- The end of a process is a change. -/
theorem change_finish {k : WorkerId} {w : WorkerDaemon} (hw : σ.worker k = some w) {s : Serving}
    (hs : w.serving = some s) : Change site σ (.finish k) (σ.finish k w s) := by
  unfold System.finish
  split
  · next service child hrun => exact .finishes k hw hs hrun
  · exact .workerDies _ k

/-- What the main thread of the scanner does. -/
theorem change_resume (hp : σ.scanner = some p) (e : Event) :
    Change site σ e (σ.resume site p e) := by
  cases e with
  | scan env =>
      cases hphase : p.phase with
      | waiting => simpa only [System.resume, hphase] using change_scan hp hphase env
      | _ => simpa only [System.resume, hphase] using Change.same _
  | scanned builderStart connected =>
      cases hphase : p.phase with
      | scanning env =>
          simpa only [System.resume, hphase] using change_scanned hp hphase builderStart connected
      | _ => simpa only [System.resume, hphase] using Change.same _
  | receive i time connected record =>
      cases hi : σ.replies[i]? with
      | some r =>
          simpa only [System.resume, hi] using
            change_receive hp (List.mem_of_getElem? hi) i time connected record
      | none => simpa only [System.resume, hi] using Change.same _
  | callFails =>
      show Change site σ _ (if p.phase.calling.isSome then σ.scannerDies else σ)
      split
      · exact .scannerDies _ σ.replies (List.Sublist.refl _)
      · exact .same _
  | stop connected =>
      cases hphase : p.phase with
      | waiting =>
          simpa only [System.resume, hphase] using
            change_terminateAll _ hp (by rw [hphase]; rfl) connected _
      | _ => simpa only [System.resume, hphase] using Change.same _
  | stopped connected =>
      cases hphase : p.phase with
      | stopping rest =>
          simpa only [System.resume, hphase] using
            change_terminateAll _ hp (by rw [hphase]; rfl) connected _
      | _ => simpa only [System.resume, hphase] using Change.same _
  | _ => exact .same _

/-- **Every event is a step of one of these kinds.** -/
theorem change (site : Site) (σ : System) (e : Event) : Change site σ e (step site σ e) := by
  have hscanner : Change site σ e (σ.scanner.elim σ fun p => σ.resume site p e) := by
    cases hp : σ.scanner with
    | none => exact .same e
    | some p => exact change_resume hp e
  cases e with
  | startScanner =>
      show Change site σ _ σ.startScanner
      unfold System.startScanner
      split
      · next h => exact .scannerStarts h
      · exact .same _
  | killScanner => exact .scannerDies _ σ.replies (List.Sublist.refl _)
  | startWorker k =>
      show Change site σ _ (σ.startWorker k)
      unfold System.startWorker
      split
      · next h => exact .workerStarts k h
      · exact .same _
  | killWorker k => exact .workerDies _ k
  | connect k => exact change_connect σ k
  | accept i => exact change_accept σ i
  | serve k i launch =>
      show Change site σ _ ((σ.worker k).elim σ fun w => σ.work k w _)
      cases hw : σ.worker k with
      | none => exact .same _
      | some w => exact change_serve hw i launch
  | finish k =>
      show Change site σ _ ((σ.worker k).elim σ fun w => σ.work k w _)
      cases hw : σ.worker k with
      | none => exact .same _
      | some w =>
          show Change site σ _ (match w.serving with | some s => σ.finish k w s | none => σ)
          cases hs : w.serving with
          | none => exact .same _
          | some s => exact change_finish hw hs
  | orphanEnds i => exact .orphanEnds i
  | _ => exact hscanner

end Cases

end Protocol

end Hpssix
