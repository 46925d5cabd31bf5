import Hpssix.Scanner

/-!
# Hpssix.Service

The daemons of the builder and the extractor
(`hpssixd/src/hpssixd-builder.c`, `hpssixd-extractor.c`) and the scanner's way
to them.  A request names a task; the daemon launches its worker process for
it, reads a count from what the process prints and replies with the count.

The daemon replies the same way whether the process was launched or not, and
does not look at its exit status.

* `runSvc_eq_done` — when a request is answered, and with what;
* `rpcRunWorker_eq` — what the scanner sees of it.
-/

namespace Hpssix

open CText Fate

/-! ## the worker process -/

/-- A worker process: what it prints, after how many lines its daemon fails to
read on (if it does), its exit status, and whether it did its work.  The work of
a builder is to commit its transaction, that of an extractor to attempt every
row of the workdata. -/
structure Worker where
  printed : List Text
  readUpTo : Option Nat := none
  status : Int := 0
  finished : Bool
deriving DecidableEq

/-- The process as its daemon sees it. -/
def Worker.child (w : Worker) : Child where
  lines := w.printed.take (w.readUpTo.getD w.printed.length)
  readError := w.readUpTo.isSome
  status := w.status

/-- What a daemon meets on a request: the result of `hpssix_get_datadir_today`,
and the process it launches for the task. -/
structure LaunchEnv where
  datadir : Int := 0
  popen : UInt64 → Except Nat Worker

/-- What a daemon keeps between requests. -/
structure Service where
  currentTask : UInt64 := 0
  result : Int32 := 0
deriving DecidableEq

/-- The line that a daemon takes its count from, and the lines that it reads for
its log only. -/
structure CountKeys where
  count : Text
  logged : List Text

/-- The lines of `do_builder`. -/
def builderKeys : CountKeys := ⟨"## files indexed".toList, ["## regular files".toList]⟩

/-- The line of `do_extractor`. -/
def extractorKeys : CountKeys := ⟨"## files extracted".toList, []⟩

/-! ## one request -/

/-- The counts that are only logged. -/
def catchLogged (line : Text) : List Text → Fate Unit
  | [] => done ()
  | key :: keys => do
    let _ ← catchLineOutput line key 0
    catchLogged line keys

/-- The body of the read loop. -/
def catchWorkerLine (keys : CountKeys) (n : UInt64) (line : Text) : Fate UInt64 := do
  let n ← catchLineOutput line keys.count n
  catchLogged line keys.logged
  pure n

/-- `do_builder` and `do_extractor`: the result after it, and the process if one
was launched.  What `pclose` returns is not looked at. -/
def doWorker (keys : CountKeys) (env : LaunchEnv) (task : UInt64) (result : Int32) :
    Fate (Int32 × Option Worker) :=
  if env.datadir ≠ 0 then done (result, none)
  else
    match env.popen task with
    | .error _ => done (result, none)
    | .ok w => do
      let n ← w.child.lines.foldlM (catchWorkerLine keys) 0
      pure (if w.child.readError then result else n.toUInt32.toInt32, some w)

/-- `builder_run_1_svc` and `extractor_run_1_svc`; the reply is the `result` of
the service after it. -/
def runSvc (keys : CountKeys) (env : LaunchEnv) (task : UInt64) (s : Service) :
    Fate (Service × Option Worker) :=
  if task = s.currentTask then done (s, none)
  else do
    let (result, w) ← doWorker keys env task s.result
    pure (⟨task, result⟩, w)

/-- Whether a request gets through: `clnt_create`, the request, the launch, and
the reply before the timeout. -/
structure RpcEnv where
  connected : Bool := true
  delivered : Bool := true
  launch : LaunchEnv
  replied : Bool := true

/-- `rpc_run_worker`: the service after it, the process if one was launched, and
the return code with the reply.  A client that could not be created is destroyed
all the same; a service that dies is started anew. -/
def rpcRunWorker (keys : CountKeys) (env : RpcEnv) (task : UInt64) (s : Service) :
    Service × Option Worker × Fate (Int × Option Int32) :=
  if !env.connected then (s, none, crash)
  else if !env.delivered then (s, none, done (0, none))
  else
    match runSvc keys env.launch task s with
    | done (s, w) => (s, w, done (0, if env.replied then some s.result else none))
    | _ => ({}, none, done (0, none))

/-! ## reading the count -/

/-- The count after a line, where it can be read. -/
def lineCount (key : Text) (n : UInt64) (line : Text) : UInt64 :=
  if hasPrefix key line then
    UInt64.ofNat (strtoull (((strrchr ':' line).getD []).drop 2))
  else n

/-- The key can be looked for on the line. -/
def KeyReadable (line key : Text) : Prop := hasPrefix key line = true → ':' ∈ line

/-- Every key can be looked for on every line. -/
def Readable (keys : CountKeys) (lines : List Text) : Prop :=
  ∀ line ∈ lines, ∀ key ∈ keys.count :: keys.logged, KeyReadable line key

section Read
variable {keys : CountKeys} {line key : Text} {val : UInt64}

/-- A line that can be read gives its number, or none where the key does not match. -/
theorem catchLineOutput_of_readable (h : KeyReadable line key) :
    catchLineOutput line key val = done (lineCount key val line) := by
  unfold catchLineOutput lineCount
  by_cases hkey : hasPrefix key line = true
  · obtain ⟨pos, hpos⟩ := Option.isSome_iff_exists.mp (isSome_strrchr (h hkey))
    simp [hkey, hpos]
  · simp [hkey]

/-- A line that matches and has no colon is read through a null pointer. -/
theorem catchLineOutput_of_not_readable (h : ¬ KeyReadable line key) :
    catchLineOutput line key val = crash := by
  obtain ⟨hkey, hmem⟩ := Classical.not_imp.mp h
  simp [catchLineOutput, hkey, strrchr_eq_none hmem]

/-- Lines for the log are read without harm if they can be read. -/
theorem catchLogged_of_readable {keys : List Text} (h : ∀ key ∈ keys, KeyReadable line key) :
    catchLogged line keys = done () := by
  induction keys with
  | nil => rfl
  | cons key keys ih =>
      rw [List.forall_mem_cons] at h
      rw [catchLogged, catchLineOutput_of_readable h.1, done_bind, ih h.2]

/-- Otherwise the daemon dies, for its log only. -/
theorem catchLogged_of_not_readable {keys : List Text} (h : ¬ ∀ key ∈ keys, KeyReadable line key) :
    catchLogged line keys = crash := by
  induction keys with
  | nil => simp at h
  | cons key keys ih =>
      rw [List.forall_mem_cons] at h
      by_cases hkey : KeyReadable line key
      · rw [catchLogged, catchLineOutput_of_readable hkey, done_bind, ih fun hkeys => h ⟨hkey, hkeys⟩]
      · rw [catchLogged, catchLineOutput_of_not_readable hkey, crash_bind]

/-- A line that can be read counts if it has the key. -/
theorem catchWorkerLine_of_readable (h : ∀ key ∈ keys.count :: keys.logged, KeyReadable line key) :
    catchWorkerLine keys val line = done (lineCount keys.count val line) := by
  rw [List.forall_mem_cons] at h
  simp [catchWorkerLine, catchLineOutput_of_readable h.1, catchLogged_of_readable h.2]

/-- Any other line kills the daemon. -/
theorem catchWorkerLine_of_not_readable
    (h : ¬ ∀ key ∈ keys.count :: keys.logged, KeyReadable line key) :
    catchWorkerLine keys val line = crash := by
  rw [List.forall_mem_cons] at h
  by_cases hkey : KeyReadable line keys.count
  · have hlogged := catchLogged_of_not_readable fun hl => h ⟨hkey, hl⟩
    simp [catchWorkerLine, catchLineOutput_of_readable hkey, hlogged]
  · simp [catchWorkerLine, catchLineOutput_of_not_readable hkey]

/-- The read loop. -/
theorem foldlM_catchWorkerLine {lines : List Text} (h : Readable keys lines) (val : UInt64) :
    lines.foldlM (catchWorkerLine keys) val = done (lines.foldl (lineCount keys.count) val) := by
  induction lines generalizing val with
  | nil => rfl
  | cons line lines ih =>
      obtain ⟨hline, hrest⟩ := List.forall_mem_cons.mp h
      rw [List.foldlM_cons, catchWorkerLine_of_readable hline, done_bind, ih hrest, List.foldl_cons]

/-- One line that cannot be read is enough. -/
theorem foldlM_catchWorkerLine_crash {lines : List Text} (h : ¬ Readable keys lines)
    (val : UInt64) : lines.foldlM (catchWorkerLine keys) val = crash := by
  induction lines generalizing val with
  | nil => exact absurd (by simp [Readable]) h
  | cons line lines ih =>
      rw [List.foldlM_cons]
      by_cases hline : ∀ key ∈ keys.count :: keys.logged, KeyReadable line key
      · rw [catchWorkerLine_of_readable hline, done_bind]
        exact ih (fun hrest => h (List.forall_mem_cons.mpr ⟨hline, hrest⟩)) _
      · rw [catchWorkerLine_of_not_readable hline, crash_bind]

end Read

/-! ## answered requests -/

/-- The process that a request gets: none if the service has the task already. -/
def launched (env : LaunchEnv) (task : UInt64) (s : Service) : Option Worker :=
  if task = s.currentTask ∨ env.datadir ≠ 0 then none else (env.popen task).toOption

/-- The service after a request. -/
def Service.after (keys : CountKeys) (env : LaunchEnv) (task : UInt64) (s : Service) : Service :=
  if task = s.currentTask then s
  else
    { currentTask := task
      result :=
        match launched env task s with
        | none => s.result
        | some w =>
          if w.child.readError then s.result
          else (w.child.lines.foldl (lineCount keys.count) 0).toUInt32.toInt32 }

/-- The process does not print what its daemon cannot read. -/
def Survives (keys : CountKeys) (env : LaunchEnv) (task : UInt64) (s : Service) : Prop :=
  ∀ w ∈ launched env task s, Readable keys w.child.lines

/-- The request gets through and its answer back. -/
def Answered (keys : CountKeys) (env : RpcEnv) (task : UInt64) (s : Service) : Prop :=
  env.connected = true ∧ env.delivered = true ∧ env.replied = true ∧
    Survives keys env.launch task s

section Answer
variable {keys : CountKeys} {task : UInt64} {s : Service}

/-- A daemon that survives its process has launched it, and keeps its count. -/
theorem runSvc_of_survives {env : LaunchEnv} (h : Survives keys env task s) :
    runSvc keys env task s = done (s.after keys env task, launched env task s) := by
  unfold runSvc Service.after
  by_cases htask : task = s.currentTask
  · simp [htask, launched]
  · rw [if_neg htask, if_neg htask]
    unfold doWorker
    by_cases hdir : env.datadir ≠ 0
    · simp [hdir, launched]
    · cases hpopen : env.popen task with
      | error e => simp [launched, htask, hdir, hpopen, Except.toOption]
      | ok w =>
          have hl : launched env task s = some w := by
            simp [launched, htask, hdir, hpopen, Except.toOption]
          simp [hdir, foldlM_catchWorkerLine (h w hl), hl]

/-- One that does not survive it dies. -/
theorem runSvc_of_not_survives {env : LaunchEnv} (h : ¬ Survives keys env task s) :
    runSvc keys env task s = crash := by
  simp only [Survives, not_forall] at h
  obtain ⟨w, hw, hread⟩ := h
  unfold launched at hw
  split at hw
  · contradiction
  · next hnew =>
      obtain ⟨htask, hdir⟩ := not_or.mp hnew
      have hpopen : env.popen task = .ok w := by
        cases hp : env.popen task <;> simp_all [Except.toOption]
      simp [runSvc, htask, doWorker, hdir, hpopen, foldlM_catchWorkerLine_crash hread]

/-- **An answered request**: the reply is the count that the service has then. -/
theorem rpcRunWorker_of_answered {env : RpcEnv} (h : Answered keys env task s) :
    rpcRunWorker keys env task s =
      (s.after keys env.launch task, launched env.launch task s,
        done (0, some (s.after keys env.launch task).result)) := by
  obtain ⟨hconn, hdel, hrep, hsurv⟩ := h
  simp [rpcRunWorker, hconn, hdel, hrep, runSvc_of_survives hsurv]

/-- A request without an answer. -/
theorem rpcRunWorker_of_not_answered {env : RpcEnv} (h : ¬ Answered keys env task s) :
    (rpcRunWorker keys env task s).2.2 = crash ∨
      (rpcRunWorker keys env task s).2.2 = done (0, none) := by
  unfold rpcRunWorker
  by_cases hconn : env.connected = true
  · by_cases hdel : env.delivered = true
    · by_cases hsurv : Survives keys env.launch task s
      · have hrep : ¬ env.replied = true := fun hrep => h ⟨hconn, hdel, hrep, hsurv⟩
        simp [hconn, hdel, hrep, runSvc_of_survives hsurv]
      · simp [hconn, hdel, runSvc_of_not_survives hsurv]
    · simp [hconn, hdel]
  · simp [hconn]

end Answer

end Hpssix
