import Hpssix.Daemon
import Hpssix.ExtractorRun

/-!
# Hpssix.RecordedRounds

What a row of the master db says about its round.

The row moves the watermark on, so it should only be there if the builder has
committed and the extractor has attempted every file, and its counts should be
those that the two processes printed.  The scanner daemon learns neither: it
gets a number from each service, and a service replies with the last number it
knows.
-/

namespace Hpssix

open CText Cursor Fate Lite Rel Trace
open Txn (completes)

variable (site : Site)

/-- The round inserts a row with status 0. -/
def Records (d : Daemons) (env : RoundEnv) : Prop :=
  ∃ r ∈ (doScanner site env d).daemons.mdb, r ∉ d.mdb ∧ r.status = 0

section Records
variable {site} {d : Daemons} {env : RoundEnv}

/-- A new row is the one of a round that gets to the end. -/
theorem mem_mdb_step {r : MdbRow} : r ∈ (doScanner site env d).daemons.mdb ∧ r ∉ d.mdb ↔
    ∃ status, Reaches site env d status ∧
      r = mdbRow (nextId MdbRow.id d.mdb) (roundStatus env
        (d.builder.after builderKeys env.builder.launch env.taskId).result
        (d.extractor.after extractorKeys env.extractor.launch env.taskId).result status) := by
  by_cases h : ∃ status, Reaches site env d status
  · obtain ⟨status, h⟩ := h
    have huniq : ∀ status', Reaches site env d status' → status' = status := fun status' h' => by
      have hscan := h'.scan.symm.trans h.scan
      simpa using hscan
    have hfresh : ∀ status', mdbRow (nextId MdbRow.id d.mdb) status' ∉ d.mdb := fun status' hmem =>
      absurd (lt_nextId MdbRow.id hmem) (Nat.lt_irrefl _)
    rw [doScanner_of_reaches h]
    constructor
    · rintro ⟨hmem, hold⟩
      obtain hmem | hmem := List.mem_append.mp hmem
      · exact absurd hmem hold
      · exact ⟨status, h, List.mem_singleton.mp hmem⟩
    · rintro ⟨status', h', rfl⟩
      obtain rfl := huniq status' h'
      exact ⟨List.mem_append_right _ List.mem_cons_self, hfresh _⟩
  · rw [doScanner_of_not_reaches h]
    exact iff_of_false (fun hr => hr.2 hr.1) fun ⟨status, hs, _⟩ => h ⟨status, hs⟩

/-- A round records exactly if it gets to the end. -/
theorem records_iff : Records site d env ↔ ∃ status, Reaches site env d status := by
  constructor
  · rintro ⟨r, hmem, hold, _⟩
    obtain ⟨status, h, _⟩ := mem_mdb_step.mp ⟨hmem, hold⟩
    exact ⟨status, h⟩
  · rintro ⟨status, h⟩
    obtain ⟨hmem, hold⟩ := mem_mdb_step.mpr ⟨status, h, rfl⟩
    exact ⟨_, hmem, hold, rfl⟩

end Records

/-! ## the work of a recorded round -/

/-- A recorded round has launched its builder, which has committed, and its
extractor, which has attempted every row. -/
def RoundHonest (d : Daemons) (env : RoundEnv) : Prop :=
  Records site d env →
    (∃ w, (doScanner site env d).builder = some w ∧ w.finished = true) ∧
      ∃ w, (doScanner site env d).extractor = some w ∧ w.finished = true

/-- The task is new to the service, the process can be launched for it, and it does
its work. -/
def Works (env : LaunchEnv) (task : UInt64) (s : Service) : Prop :=
  task ≠ s.currentTask ∧ env.datadir = 0 ∧ ∃ w, env.popen task = .ok w ∧ w.finished = true

/-- If a round gets to the end, both services have the work done. -/
def RoundWorks (d : Daemons) (env : RoundEnv) : Prop :=
  (∃ status, Reaches site env d status) →
    Works env.builder.launch env.taskId d.builder ∧
      Works env.extractor.launch env.taskId d.extractor

section Honest
variable {site} {d : Daemons} {env : RoundEnv}

/-- A process is launched for a new task, in a directory that can be prepared. -/
theorem launched_eq_some {env : LaunchEnv} {task : UInt64} {s : Service} {w : Worker} :
    launched env task s = some w ↔
      task ≠ s.currentTask ∧ env.datadir = 0 ∧ env.popen task = .ok w := by
  unfold launched
  split
  · next h => simp; tauto
  · next h =>
      obtain ⟨htask, hdir⟩ := not_or.mp h
      cases env.popen task <;> simp_all [Except.toOption]

/-- A process that was launched has finished its work exactly if the service has the work done.
-/
theorem works_iff {env : LaunchEnv} {task : UInt64} {s : Service} :
    (∃ w, launched env task s = some w ∧ w.finished = true) ↔ Works env task s := by
  simp only [launched_eq_some, Works]
  constructor
  · rintro ⟨w, ⟨htask, hdir, hpopen⟩, hfin⟩
    exact ⟨htask, hdir, w, hpopen, hfin⟩
  · rintro ⟨htask, hdir, w, hpopen, hfin⟩
    exact ⟨w, ⟨htask, hdir, hpopen⟩, hfin⟩

/-- A recorded round is honest exactly if both services have the work done. -/
theorem roundHonest_iff : RoundHonest site d env ↔ RoundWorks site d env := by
  unfold RoundHonest RoundWorks
  rw [records_iff]
  refine forall_congr' fun ⟨status, h⟩ => ?_
  rw [doScanner_of_reaches h]
  exact and_congr works_iff works_iff

end Honest

/-- **Pipeline honesty**: in a sequence of rounds every recorded row is honest
exactly if in every round that gets to the end the work is done. -/
theorem pipeline_honest_iff (d : Daemons) (rounds : List RoundEnv) :
    AllSteps (Daemons.step site) (RoundHonest site) d rounds ↔
      AllSteps (Daemons.step site) (RoundWorks site) d rounds := by
  have heq : RoundHonest site = RoundWorks site := by
    funext d env
    exact propext roundHonest_iff
  rw [heq]

/-! ## the programs of a round -/

/-- A run of `hpssix-builder` as its daemon's process. -/
def builderWorker (tr : Transport) (env : BuilderEnv) (files : ScanFiles) (db : Db) : Worker :=
  let run := builderMain tr env files db
  { printed := run.out, status := run.exit, finished := run.endRc = some .committed }

/-- The filter loads, the database can be reached, and `BEGIN`, the calls and `END` all
succeed; then the tables hold the batch. -/
def BuilderEnv.Commits (tr : Transport) (env : BuilderEnv) (files : ScanFiles) (db : Db) : Prop :=
  ∃ filter, env.filter = some filter ∧ env.connect = true ∧ env.beginOk = true ∧
    env.endOk = true ∧ ∃ s, completes (builderSteps tr env filter files) { db } = some s ∧
      (builderMain tr env files db).db = s.db

/-- The builder's process does its work exactly if the builder commits. -/
theorem finished_builderWorker (tr : Transport) (env : BuilderEnv) (files : ScanFiles) (db : Db) :
    (builderWorker tr env files db).finished = true ↔ env.Commits tr files db := by
  simp [builderWorker, committed_builderMain_iff, BuilderEnv.Commits]

/-- A run of `hpssix-extractor` that comes to its end, over a workdata. -/
structure ExtractorProgram where
  env : ExtractorEnv
  rows : List WorkRow
  ret : Int
  objects : List WorkObject
  printed : List Text
  short : rows.length < 2 ^ 63
  ends : extractorMain env rows = done (ret, objects)

/-- The run as its daemon's process. -/
def ExtractorProgram.worker (p : ExtractorProgram) : Worker :=
  { printed := p.printed, status := p.ret, finished := decide (p.objects.Perm (workObjects p.rows)) }

/-- The extractor's process does its work exactly if it attempts every row. -/
theorem ExtractorProgram.finished_worker (p : ExtractorProgram) :
    p.worker.finished = true ↔ p.env.AttemptsAll p.rows := by
  rw [ExtractorProgram.worker, decide_eq_true_iff]
  exact perm_extractorMain_iff p.short p.ends

/-- A round whose processes are runs of the two programs. -/
structure ProgramRound where
  env : RoundEnv
  transport : Transport
  builder : BuilderEnv
  files : ScanFiles
  db : Db
  extractor : ExtractorProgram
  builder_popen : ∀ task w, env.builder.launch.popen task = .ok w →
    w = builderWorker transport builder files db
  extractor_popen : ∀ task w, env.extractor.launch.popen task = .ok w → w = extractor.worker

/-- The task is new to the service, and a process can be launched for it. -/
def Launches (env : LaunchEnv) (task : UInt64) (s : Service) : Prop :=
  task ≠ s.currentTask ∧ env.datadir = 0 ∧ ∃ w, env.popen task = .ok w

/-- If the round gets to the end, both programs are launched, the builder commits and
the extractor attempts every row. -/
def ProgramsWork (d : Daemons) (r : ProgramRound) : Prop :=
  (∃ status, Reaches site r.env d status) →
    (Launches r.env.builder.launch r.env.taskId d.builder ∧
        r.builder.Commits r.transport r.files r.db) ∧
      Launches r.env.extractor.launch r.env.taskId d.extractor ∧
        r.extractor.env.AttemptsAll r.extractor.rows

section Programs
variable {site} {d : Daemons}

/-- A service whose processes are all runs of one program has the work done if it
launches the program and the program does its work. -/
theorem works_iff_of_popen {env : LaunchEnv} {task : UInt64} {s : Service} {p : Worker}
    (h : ∀ task w, env.popen task = .ok w → w = p) :
    Works env task s ↔ Launches env task s ∧ p.finished = true := by
  constructor
  · rintro ⟨htask, hdir, w, hpopen, hfin⟩
    exact ⟨⟨htask, hdir, w, hpopen⟩, h task w hpopen ▸ hfin⟩
  · rintro ⟨⟨htask, hdir, w, hpopen⟩, hfin⟩
    exact ⟨htask, hdir, w, hpopen, (h task w hpopen).symm ▸ hfin⟩

/-- A round of the two programs is honest exactly if they work. -/
theorem roundHonest_iff_programsWork {r : ProgramRound} :
    RoundHonest site d r.env ↔ ProgramsWork site d r := by
  rw [roundHonest_iff, RoundWorks, ProgramsWork, works_iff_of_popen r.builder_popen,
    works_iff_of_popen r.extractor_popen, finished_builderWorker, ExtractorProgram.finished_worker]

/-- Pipeline honesty, in terms of the two programs. -/
theorem programs_honest_iff (rounds : List ProgramRound) :
    AllSteps (Daemons.step site) (RoundHonest site) d (rounds.map ProgramRound.env) ↔
      AllSteps (fun d r => Daemons.step site d r.env) (ProgramsWork site) d rounds := by
  induction rounds generalizing d with
  | nil => exact Iff.rfl
  | cons r rounds ih => exact and_congr roundHonest_iff_programsWork ih

end Programs

/-- A builder that cannot reach the database; it exits with an error. -/
def failedBuilder : Worker := builderWorker plainTransport { connect := false } ⟨[], [], [], []⟩ {}

/-- An extractor that exits with an error. -/
def failedExtractor : Worker := { printed := [], status := 1, finished := false }

/-- A round that finds an object, and whose processes fail. -/
def failedRound : RoundEnv where
  taskId := 1
  query := answer []
  popen _ _ := .ok { lines := ["## scanned: 1\n".toList] }
  builder := { launch := { popen := fun _ => .ok failedBuilder } }
  extractor := { launch := { popen := fun _ => .ok failedExtractor } }

/-- The round is recorded all the same. -/
theorem failed_builder_recorded : ¬ ∀ (site : Site) (d : Daemons) (rounds : List RoundEnv),
    AllSteps (Daemons.step site) (RoundHonest site) d rounds := by
  intro h
  obtain ⟨hround, _⟩ := h (utcSite (.of 2)) {} [failedRound]
  have hmdb : (doScanner (utcSite (.of 2)) failedRound {}).daemons.mdb =
      [mdbRow 1 { id := 1, nScanned := 1 }] := by decide +kernel
  have hrec : Records (utcSite (.of 2)) {} failedRound :=
    ⟨_, hmdb ▸ List.mem_cons_self, List.not_mem_nil, rfl⟩
  obtain ⟨⟨w, hw, hfin⟩, _⟩ := hround hrec
  have hlaunched : (doScanner (utcSite (.of 2)) failedRound {}).builder = some failedBuilder := by
    decide +kernel
  obtain rfl : failedBuilder = w := by simpa [hlaunched] using hw
  exact absurd hfin (by decide +kernel)

/-! ## the counts of a recorded round -/

/-- The process prints one line with the key, with this number. -/
def Prints (key : Text) (lines : List Text) (n : Nat) : Prop :=
  n < 2 ^ 64 ∧ ∃ pre post, lines = pre ++ reportLine key (decimal n) :: post ∧
    ∀ line ∈ pre ++ post, hasPrefix key line = false

/-- The counts of a new row are the numbers that the processes of its round
printed. -/
def RoundCounts (d : Daemons) (env : RoundEnv) : Prop :=
  ∀ r ∈ (doScanner site env d).daemons.mdb, r ∉ d.mdb →
    (∃ w n, (doScanner site env d).builder = some w ∧ Prints builderKeys.count w.printed n ∧
      r.nIndexed = n) ∧
    ∃ w n, (doScanner site env d).extractor = some w ∧ Prints extractorKeys.count w.printed n ∧
      r.nExtracted = n

/-- The task is new to the service, the process can be launched for it and prints a
number, and the number fits an `int`; or, if the daemon fails to read on, it is the
number that the service had before. -/
def Counted (keys : CountKeys) (env : LaunchEnv) (task : UInt64) (s : Service) : Prop :=
  task ≠ s.currentTask ∧ env.datadir = 0 ∧ ∃ w n, env.popen task = .ok w ∧
    Prints keys.count w.printed n ∧
    if w.readUpTo.isSome then s.result.toInt = n else n < 2 ^ 31

/-- If a round gets to the end, both counts get through. -/
def RoundCounted (d : Daemons) (env : RoundEnv) : Prop :=
  (∃ status, Reaches site env d status) →
    Counted builderKeys env.builder.launch env.taskId d.builder ∧
      Counted extractorKeys env.extractor.launch env.taskId d.extractor

section Counts
variable {site} {d : Daemons} {env : RoundEnv}

/-- A count is read from its line, and kept on the others. -/
theorem foldl_lineCount {key : Text} {lines : List Text} {n : Nat} (h : Prints key lines n)
    (val : UInt64) : lines.foldl (lineCount key) val = UInt64.ofNat n := by
  obtain ⟨hn, pre, post, rfl, hother⟩ := h
  have hkeep : ∀ (ls : List Text) (val : UInt64), (∀ l ∈ ls, hasPrefix key l = false) →
      ls.foldl (lineCount key) val = val := fun ls => by
    induction ls with
    | nil => exact fun val _ => rfl
    | cons l ls ih =>
        intro val hls
        rw [List.forall_mem_cons] at hls
        rw [List.foldl_cons, show lineCount key val l = val by simp [lineCount, hls.1], ih val hls.2]
  have hline : ∀ val, lineCount key val (reportLine key (decimal n)) = UInt64.ofNat n :=
    fun val => by
      have hread : strtoull (((strrchr ':' (reportLine key (decimal n))).getD []).drop 2) = n := by
        rw [strrchr_reportLine key _ (colon_not_mem_decimal n)]
        exact strtoull_decimal hn
      rw [lineCount, if_pos (hasPrefix_reportLine key _), hread]
  rw [List.forall_mem_append] at hother
  rw [List.foldl_append, List.foldl_cons, hkeep pre val hother.1, hline,
    hkeep post _ hother.2]

/-- The row holds the `int` that the service replied with. -/
theorem bindInt64_widen (x : Int32) : bindInt64 x.toInt64.toUInt64 = x.toInt := by
  simp [bindInt64]

/-- A count is exact as an `int` if it is below `2 ^ 31`. -/
theorem toInt_narrow_eq_iff {n : Nat} :
    (UInt64.ofNat n).toUInt32.toInt32.toInt = n ↔ n < 2 ^ 31 := by
  have hbits : (UInt64.ofNat n).toUInt32.toInt32.toInt = (n : Int).bmod (2 ^ 32) := by simp
  rw [hbits, Int.bmod_def]
  split <;> omega

/-- The service's result is the printed number exactly if the count gets through. -/
theorem counted_iff {keys : CountKeys} {env : LaunchEnv} {task : UInt64} {s : Service} :
    (∃ w n, launched env task s = some w ∧ Prints keys.count w.printed n ∧
      ((s.after keys env task).result.toInt : Int) = n) ↔ Counted keys env task s := by
  have hresult : ∀ w n, launched env task s = some w → Prints keys.count w.printed n →
      (((s.after keys env task).result.toInt : Int) = n ↔
        if w.readUpTo.isSome then s.result.toInt = n else n < 2 ^ 31) := fun w n hw hn => by
    have htask := (launched_eq_some.mp hw).1
    rw [Service.after, if_neg htask, hw]
    cases hread : w.readUpTo with
    | some k => simp [Worker.child, hread]
    | none =>
        have hchild : w.child = { lines := w.printed, status := w.status } := by
          simp [Worker.child, hread]
        simp only [hchild, foldl_lineCount hn, Bool.false_eq_true, if_false]
        exact toInt_narrow_eq_iff
  unfold Counted
  constructor
  · rintro ⟨w, n, hw, hn, heq⟩
    obtain ⟨htask, hdir, hpopen⟩ := launched_eq_some.mp hw
    exact ⟨htask, hdir, w, n, hpopen, hn, (hresult w n hw hn).mp heq⟩
  · rintro ⟨htask, hdir, w, n, hpopen, hn, heq⟩
    have hw := launched_eq_some.mpr ⟨htask, hdir, hpopen⟩
    exact ⟨w, n, hw, hn, (hresult w n hw hn).mpr heq⟩

/-- The counts of a recorded row are right exactly if both get through. -/
theorem roundCounts_iff : RoundCounts site d env ↔ RoundCounted site d env := by
  have hrow : RoundCounts site d env ↔ ∀ status, Reaches site env d status →
      Counted builderKeys env.builder.launch env.taskId d.builder ∧
        Counted extractorKeys env.extractor.launch env.taskId d.extractor := by
    constructor
    · intro h status hs
      obtain ⟨hmem, hold⟩ := mem_mdb_step.mpr ⟨status, hs, rfl⟩
      have hcounts := h _ hmem hold
      rw [doScanner_of_reaches hs] at hcounts
      simp only [mdbRow, roundStatus, bindInt64_widen, reached] at hcounts
      exact ⟨counted_iff.mp hcounts.1, counted_iff.mp hcounts.2⟩
    · intro h r hmem hold
      obtain ⟨status, hs, rfl⟩ := mem_mdb_step.mp ⟨hmem, hold⟩
      obtain ⟨hb, he⟩ := h status hs
      rw [doScanner_of_reaches hs]
      simp only [mdbRow, roundStatus, bindInt64_widen, reached]
      exact ⟨counted_iff.mpr hb, counted_iff.mpr he⟩
  rw [hrow, RoundCounted, forall_exists_index]

end Counts

/-- **Recorded counts**: in a sequence of rounds the counts of every recorded row are
those that its processes printed exactly if in every round that gets to the end
both counts get through. -/
theorem recorded_counts_iff (d : Daemons) (rounds : List RoundEnv) :
    AllSteps (Daemons.step site) (RoundCounts site) d rounds ↔
      AllSteps (Daemons.step site) (RoundCounted site) d rounds := by
  have heq : RoundCounts site = RoundCounted site := by
    funext d env
    exact propext roundCounts_iff
  rw [heq]

/-- A builder and an extractor that print their counts. -/
def countingBuilder (n : Nat) : Worker :=
  { printed := [reportLine builderKeys.count (decimal n)], finished := true }

def countingExtractor (n : Nat) : Worker :=
  { printed := [reportLine extractorKeys.count (decimal n)], finished := true }

/-- A round that finds an object and indexes three. -/
def countedRound : RoundEnv where
  taskId := 1
  query := answer []
  popen _ _ := .ok { lines := ["## scanned: 1\n".toList] }
  builder := { launch := { popen := fun _ => .ok (countingBuilder 3) } }
  extractor := { launch := { popen := fun _ => .ok (countingExtractor 2) } }

/-- The next round, whose builder cannot be launched. -/
def unlaunchedRound : RoundEnv :=
  { countedRound with
    taskId := 2
    builder := { launch := { popen := fun _ => .error 12 } } }

/-- The second row has the count of the first. -/
theorem stale_count_recorded : ¬ ∀ (site : Site) (d : Daemons) (rounds : List RoundEnv),
    AllSteps (Daemons.step site) (RoundCounts site) d rounds := by
  intro h
  obtain ⟨_, hcounts, _⟩ := h (utcSite (.of 2)) {} [countedRound, unlaunchedRound]
  let d : Daemons := Daemons.step (utcSite (.of 2)) {} countedRound
  have hmdb : (doScanner (utcSite (.of 2)) unlaunchedRound d).daemons.mdb =
      d.mdb ++ [mdbRow 2 { id := 2, nScanned := 1, nIndexed := 3, nExtracted := 2 }] := by
    decide +kernel
  have hnew : mdbRow 2 { id := 2, nScanned := 1, nIndexed := 3, nExtracted := 2 } ∉ d.mdb := by
    decide +kernel
  obtain ⟨⟨w, n, hw, _⟩, _⟩ :=
    hcounts _ (hmdb ▸ List.mem_append_right _ List.mem_cons_self) hnew
  have hnone : (doScanner (utcSite (.of 2)) unlaunchedRound d).builder = none := by decide +kernel
  simp [d, hnone] at hw

end Hpssix
