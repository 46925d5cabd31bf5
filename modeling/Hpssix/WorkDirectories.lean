import Hpssix.Base.FileTree
import Hpssix.Base.Trace
import Hpssix.DataDir

/-!
# Hpssix.WorkDirectories

The directory of the day (`hpssix_get_datadir_today` in `libhpssix/src/hpssix-utils.c`), which
every daemon looks up and makes where it is missing.

The directories are looked up and made one at a time, so any number of processes can be at it
at the same time; and the date is read once for the path that is handed back and once more for
the directories that are made.

* `datadir_there` — a process that is told that all is well has its directory, unless the date
  changed between the two readings;
* `some_get_through` — where nothing else is in the way, of all the processes at it at least one
  gets through, and the others fail because a directory was made in front of them.
-/

namespace Hpssix

open CText FileTree Trace

namespace WorkDirs

/-! ## the paths -/

/-- The directories that `hpssix_create_work_directories` makes, in its order; the date is
the one it has read. -/
inductive Stage where
  | root
  | data
  | year (now : Tm)
  | day (now : Tm)
deriving DecidableEq

/-- The names below the work root, the innermost first. -/
def Stage.path : Stage → List Text
  | .root => []
  | .data => ["data".toList]
  | .year now => [decimal now.year, "data".toList]
  | .day now =>
    [decimal now.year ++ zeroPad 2 (now.mon + 1) ++ zeroPad 2 now.mday, decimal now.year,
      "data".toList]

/-- How a path is printed. -/
def pathText (workRoot : Text) (p : List Text) : Text :=
  p.foldr (fun name dir => dir ++ '/' :: name) workRoot

/-- The path of the day is the one that `dirname_today` prints. -/
theorem pathText_day (workRoot : Text) (now : Tm) :
    pathText workRoot (Stage.day now).path = dirnameToday workRoot now := by
  have hdata : "/data/".toList = '/' :: ("data".toList ++ ['/']) := by decide +kernel
  simp [pathText, Stage.path, dirnameToday, hdata]

/-- The path up to its last slash, as `strrchr` finds it, is the directory it is in. -/
theorem pathText_dropLast (workRoot name : Text) (p : List Text) (hname : '/' ∉ name) :
    ((pathText workRoot (name :: p)).reverse.dropWhile (· ≠ '/')).tail.reverse =
      pathText workRoot p := by
  have hpos : ∀ c ∈ name.reverse, decide (c ≠ '/') = true := by
    intro c hc
    refine decide_eq_true fun heq => hname ?_
    exact heq ▸ List.mem_reverse.mp hc
  rw [pathText, List.foldr_cons, List.reverse_append, List.reverse_cons, List.append_assoc,
    List.dropWhile_append_of_pos hpos]
  simp [pathText]

/-! ## the calls of one process -/

/-- What a call returns: 0, an `errno`, or the -1 of a `stat` that failed. -/
inductive Ret where
  | zero
  | errno (e : Errno)
  | minusOne
deriving DecidableEq

/-- Where a process is: at the first date, at the `stat` of its day, at the `stat` or the
`mkdir` of a directory, at the second date, or back with its day, the day whose directory it
made, and what it was told. -/
inductive Pc where
  | begun
  | looks (today : Tm)
  | stats (today : Tm) (stage : Stage)
  | mkdirs (today : Tm) (stage : Stage)
  | reads (today : Tm)
  | returned (today : Tm) (made : Option Tm) (ret : Ret)
deriving DecidableEq

/-- `create_directory` has returned 0. -/
def Pc.next (today : Tm) : Stage → Pc
  | .root => .stats today .data
  | .data => .reads today
  | .year now => .stats today (.day now)
  | .day now => .returned today (some now) .zero

/-- The date that the directories are made for. -/
def Stage.now : Stage → Option Tm
  | .root | .data => none
  | .year now | .day now => some now

/-- A call that can fail for reasons of its own. -/
def faulty {α : Type} (fault : Option Errno) (r : Except Errno α) : Except Errno α :=
  fault.elim r .error

/-- The room of the work root and its path's buffer. -/
structure Buffers where
  workRoot : Text
  buflen : Nat

/-- `ENOSPC` -/
def enospc : Errno := .other 28

/-- The next call of `hpssix_get_datadir_today` or `hpssix_create_work_directories`. -/
def call (b : Buffers) (t : DirTree Text) (clock : Tm) (fault : Option Errno) : Pc → DirTree Text × Pc
  | .begun =>
    if b.buflen < b.workRoot.length + 20 then (t, .returned clock none (.errno enospc))
    else (t, .looks clock)
  | .looks today =>
    match faulty fault (t.stat (Stage.day today).path) with
    | .ok _ => (t, .returned today none .zero)
    | .error .enoent => (t, .stats today .root)
    | .error _ => (t, .returned today none .minusOne)
  | .stats today stage =>
    match faulty fault (t.stat stage.path) with
    | .ok .dir => (t, .next today stage)
    | .ok .file => (t, .returned today stage.now (.errno .enotdir))
    | .error .enoent => (t, .mkdirs today stage)
    | .error e => (t, .returned today stage.now (.errno e))
  | .mkdirs today stage =>
    match faulty fault (t.mkdir stage.path) with
    | .ok t' => (t', .next today stage)
    | .error e => (t, .returned today stage.now (.errno e))
  | .reads today => (t, .stats today (.year clock))
  | .returned today made ret => (t, .returned today made ret)

/-- The process is about to make a directory, and will. -/
def makes (t : DirTree Text) (fault : Option Errno) : Pc → Bool
  | .mkdirs _ stage => (faulty fault (t.mkdir stage.path)).toBool
  | _ => false

/-! ## any number of processes -/

/-- The files, the processes, and who made the last directory. -/
structure System where
  tree : DirTree Text
  pc : Nat → Pc := fun _ => .begun
  maker : Option Nat := none

/-- A process takes its next step. -/
structure Event where
  process : Nat
  clock : Tm
  fault : Option Errno := none

def step (b : Buffers) (σ : System) (e : Event) : System :=
  let next := call b σ.tree e.clock e.fault (σ.pc e.process)
  { tree := next.1
    pc := Function.update σ.pc e.process next.2
    maker := if makes σ.tree e.fault (σ.pc e.process) then some e.process else σ.maker }

/-! ## what one call does -/

/-- The kinds of calls, with whether a directory is made. -/
inductive Called (b : Buffers) (t : DirTree Text) (clock : Tm) (fault : Option Errno) :
    Pc → DirTree Text → Pc → Bool → Prop where
  | small (h : b.buflen < b.workRoot.length + 20) :
      Called b t clock fault .begun t (.returned clock none (.errno enospc)) false
  | begins : Called b t clock fault .begun t (.looks clock) false
  | found {today : Tm} {k : Kind} (h : t.node (Stage.day today).path = some k) :
      Called b t clock fault (.looks today) t (.returned today none .zero) false
  | missing (today : Tm) : Called b t clock fault (.looks today) t (.stats today .root) false
  | hidden {today : Tm} {e : Errno}
      (h : faulty fault (t.stat (Stage.day today).path) = .error e) (he : e ≠ .enoent) :
      Called b t clock fault (.looks today) t (.returned today none .minusOne) false
  | isDir {today : Tm} {stage : Stage} (h : t.node stage.path = some .dir) :
      Called b t clock fault (.stats today stage) t (.next today stage) false
  | isFile {today : Tm} {stage : Stage} (h : t.node stage.path = some .file) :
      Called b t clock fault (.stats today stage) t
        (.returned today stage.now (.errno .enotdir)) false
  | absent {today : Tm} {stage : Stage} (h : faulty fault (t.stat stage.path) = .error .enoent) :
      Called b t clock fault (.stats today stage) t (.mkdirs today stage) false
  | statFails {today : Tm} {stage : Stage} {e : Errno}
      (h : faulty fault (t.stat stage.path) = .error e) (he : e ≠ .enoent) :
      Called b t clock fault (.stats today stage) t (.returned today stage.now (.errno e)) false
  | made {today : Tm} {stage : Stage} (hnone : t.node stage.path = none) :
      Called b t clock fault (.mkdirs today stage) (t.add stage.path) (.next today stage) true
  | mkdirFails {today : Tm} {stage : Stage} {e : Errno}
      (h : faulty fault (t.mkdir stage.path) = .error e) :
      Called b t clock fault (.mkdirs today stage) t (.returned today stage.now (.errno e)) false
  | reads (today : Tm) : Called b t clock fault (.reads today) t (.stats today (.year clock)) false
  | stays (today : Tm) (made : Option Tm) (ret : Ret) :
      Called b t clock fault (.returned today made ret) t (.returned today made ret) false

/-- A call that succeeds did what it does without a fault. -/
theorem faulty_eq_ok {α : Type} {fault : Option Errno} {r : Except Errno α} {a : α}
    (h : faulty fault r = .ok a) : r = .ok a := by
  cases fault with
  | none => exact h
  | some e => cases h

/-- A call of the model is one of the calls. -/
theorem called (b : Buffers) (t : DirTree Text) (clock : Tm) (fault : Option Errno) (pc : Pc) :
    Called b t clock fault pc (call b t clock fault pc).1 (call b t clock fault pc).2
      (makes t fault pc) := by
  cases pc with
  | begun =>
      by_cases h : b.buflen < b.workRoot.length + 20
      · simp only [call, makes, if_pos h]
        exact .small h
      · simp only [call, makes, if_neg h]
        exact .begins
  | looks today =>
      match h : faulty fault (t.stat (Stage.day today).path) with
      | .ok k =>
          simp only [call, makes, h]
          exact .found (DirTree.stat_eq_ok_iff.mp (faulty_eq_ok h))
      | .error .enoent =>
          simp only [call, makes, h]
          exact .missing today
      | .error .eexist | .error .enotdir | .error (.other _) =>
          simp only [call, makes, h]
          exact .hidden h (by simp)
  | stats today stage =>
      match h : faulty fault (t.stat stage.path) with
      | .ok .dir =>
          simp only [call, makes, h]
          exact .isDir (DirTree.stat_eq_ok_iff.mp (faulty_eq_ok h))
      | .ok .file =>
          simp only [call, makes, h]
          exact .isFile (DirTree.stat_eq_ok_iff.mp (faulty_eq_ok h))
      | .error .enoent =>
          simp only [call, makes, h]
          exact .absent h
      | .error .eexist | .error .enotdir | .error (.other _) =>
          simp only [call, makes, h]
          exact .statFails h (by simp)
  | mkdirs today stage =>
      match h : faulty fault (t.mkdir stage.path) with
      | .ok t' =>
          simp only [call, makes, h]
          obtain ⟨hnone, -, rfl⟩ := DirTree.mkdir_eq_ok_iff.mp (faulty_eq_ok h)
          exact .made hnone
      | .error e =>
          simp only [call, makes, h]
          exact .mkdirFails h
  | reads today => exact .reads today
  | returned today made ret => exact .stays today made ret

section Call
variable {b : Buffers} {t t' : DirTree Text} {clock : Tm} {fault : Option Errno} {pc pc' : Pc}
  {made : Bool}

/-- A call adds at most a directory. -/
theorem Called.grows (h : Called b t clock fault pc t' pc' made) : t.Grows t' := by
  cases h with
  | made hnone => exact DirTree.grows_add hnone
  | _ => exact .refl t

/-! ## the directory of the day -/

/-- A process that was told that all is well has the directory that it found or made. -/
def Served (t : DirTree Text) : Pc → Prop
  | .returned today made .zero =>
    (∀ now ∈ made, t.node (Stage.day now).path = some .dir) ∧
      (made = none → ∃ k, t.node (Stage.day today).path = some k)
  | _ => True

/-- A directory that is there stays. -/
theorem Served.mono (hg : t.Grows t') (h : Served t pc) : Served t' pc := by
  match pc with
  | .returned today made .zero =>
      exact ⟨fun now hnow => hg.node _ _ (h.1 now hnow), fun hnone => (h.2 hnone).imp (hg.node _)⟩
  | .returned _ _ (.errno _) | .returned _ _ .minusOne | .begun | .looks _ | .stats .. | .mkdirs ..
  | .reads _ => trivial

/-- A stage whose directory is there leads to the next. -/
theorem served_next {today : Tm} {stage : Stage} (h : t.node stage.path = some .dir) :
    Served t (.next today stage) := by
  cases stage with
  | day now => exact ⟨fun d hd => Option.some.inj hd ▸ h, fun hnone => by cases hnone⟩
  | _ => trivial

/-- A call keeps that the directory is there. -/
theorem served_call (h : Called b t clock fault pc t' pc' made) (hpc : Served t pc) :
    Served t' pc' := by
  cases h with
  | found h => exact ⟨fun now hnow => absurd hnow (Option.not_mem_none now), fun _ => ⟨_, h⟩⟩
  | isDir h => exact served_next h
  | made => exact served_next DirTree.node_add_self
  | stays => exact hpc
  | _ => trivial

/-! ## one of many gets through -/

/-- How many calls a process has before it, at most. -/
def Stage.rank : Stage → Nat
  | .root => 8
  | .data => 6
  | .year _ => 3
  | .day _ => 1

def Pc.rank : Pc → Nat
  | .begun => 11
  | .looks _ => 10
  | .stats _ stage => stage.rank + 1
  | .mkdirs _ stage => stage.rank
  | .reads _ => 5
  | .returned .. => 0

/-- The next stage is nearer to the end. -/
theorem rank_next (today : Tm) (stage : Stage) : (Pc.next today stage).rank < stage.rank := by
  cases stage <;> simp [Pc.next, Pc.rank, Stage.rank]

/-- Every call brings a process nearer to its end. -/
theorem Called.rank_le (h : Called b t clock fault pc t' pc' made) : pc'.rank ≤ pc.rank - 1 := by
  cases h with
  | isDir => exact Nat.le_of_lt (rank_next _ _)
  | made => exact Nat.le_sub_one_of_lt (rank_next _ _)
  | _ => simp [Pc.rank, Stage.rank]

/-- The directory that the process is about to look up or make has one to be in. -/
def HasRoom (t : DirTree Text) : Pc → Prop
  | .stats _ stage | .mkdirs _ stage => t.Room stage.path
  | .reads _ => t.node Stage.data.path = some .dir
  | _ => True

/-- The process has not failed, and will not fail to make what it is about to. -/
def Unfailed (t : DirTree Text) : Pc → Prop
  | .mkdirs _ stage => t.node stage.path = none
  | .returned _ _ ret => ret = .zero
  | _ => True

/-- What a process is told when nothing else is in the way. -/
def Told : Pc → Prop
  | .returned _ _ ret => ret = .zero ∨ ret = .errno .eexist
  | _ => True

/-- Room in the tree stays. -/
theorem HasRoom.mono (hg : t.Grows t') (h : HasRoom t pc) : HasRoom t' pc := by
  match pc with
  | .stats .. | .mkdirs .. => exact hg.room h
  | .reads _ => exact hg.node _ _ h
  | .returned .. | .begun | .looks _ => trivial

/-- Nothing is in the way: the work root can be made, and no file stands where a directory
should. -/
structure Clear (t : DirTree Text) : Prop where
  base : t.base = none
  noFile : ∀ stage : Stage, t.node stage.path ≠ some .file

/-- The directory of a day is in directories that the program makes. -/
theorem Clear.stat_day (hc : Clear t) {today : Tm} {e : Errno}
    (h : t.stat (Stage.day today).path = .error e) : e = .enoent := by
  refine DirTree.eq_enoent_of_stat hc.base (fun q hq => ?_) h
  simp only [Stage.path, List.suffix_cons_iff, List.suffix_nil] at hq
  obtain rfl | rfl | rfl | rfl := hq
  · exact hc.noFile (.day today)
  · exact hc.noFile (.year today)
  · exact hc.noFile .data
  · exact hc.noFile .root

/-- Where a process goes on when a directory is there. -/
theorem next_spec (today : Tm) {stage : Stage} (h : t.node stage.path = some .dir) :
    HasRoom t (.next today stage) ∧ Unfailed t (.next today stage) ∧ Told (.next today stage) := by
  cases stage with
  | day now => exact ⟨trivial, rfl, .inl rfl⟩
  | _ => exact ⟨h, trivial, trivial⟩

/-- What a call does when nothing is in the way. -/
structure CallSpec (t : DirTree Text) (pc : Pc) (t' : DirTree Text) (pc' : Pc) (made : Bool) : Prop where
  clear : Clear t'
  room : HasRoom t' pc'
  told : Told pc'
  unfailed : made = true ∨ Unfailed t pc → Unfailed t' pc'
  began : pc' ≠ .begun
  same : made = false → t' = t

/-- What a call without a fault comes to in a clear tree. -/
theorem callSpec (h : Called b t clock none pc t' pc' made)
    (hbuf : b.workRoot.length + 20 ≤ b.buflen) (hc : Clear t) (hroom : HasRoom t pc)
    (htold : Told pc) : CallSpec t pc t' pc' made := by
  cases h with
  | small h => omega
  | begins => exact ⟨hc, trivial, trivial, fun _ => trivial, by simp, fun _ => rfl⟩
  | found => exact ⟨hc, trivial, .inl rfl, fun _ => rfl, by simp, fun _ => rfl⟩
  | missing => exact ⟨hc, hc.base, trivial, fun _ => trivial, by simp, fun _ => rfl⟩
  | hidden h he => exact absurd (hc.stat_day h) he
  | @isDir today stage h =>
      obtain ⟨hr, hu, ht⟩ := next_spec today h
      exact ⟨hc, hr, ht, fun _ => hu, by cases stage <;> simp [Pc.next], fun _ => rfl⟩
  | isFile h => exact absurd h (hc.noFile _)
  | absent h =>
      have hnone := DirTree.node_eq_none_of_stat h
      exact ⟨hc, hroom, trivial, fun _ => hnone, by simp, fun _ => rfl⟩
  | statFails h he =>
      have hnone := DirTree.node_eq_none_of_stat h
      rw [faulty, Option.elim_none, DirTree.stat_of_room hroom hnone] at h
      exact absurd (Except.error.inj h).symm he
  | @made today stage hnone =>
      obtain ⟨hr, hu, ht⟩ := next_spec (t := t.add stage.path) today DirTree.node_add_self
      exact ⟨⟨hc.base, fun s => DirTree.node_add_ne_file (hc.noFile s)⟩, hr, ht, fun _ => hu,
        by cases stage <;> simp [Pc.next], fun h => by cases h⟩
  | @mkdirFails today stage e h =>
      -- the directory was made between the two calls
      rw [faulty, Option.elim_none, DirTree.mkdir_of_room hroom] at h
      split at h
      · cases h
      · next hsome =>
          have he : e = .eexist := (Except.error.inj h).symm
          refine ⟨hc, trivial, .inr (congrArg Ret.errno he), fun hu => ?_, by simp, fun _ => rfl⟩
          exact absurd (hu.resolve_left (by simp)) hsome
  | reads => exact ⟨hc, hroom, trivial, fun _ => trivial, by simp, fun _ => rfl⟩
  | stays today made ret =>
      exact ⟨hc, trivial, htold, fun hu => hu.resolve_left (by simp), by simp, fun _ => rfl⟩

end Call

/-! ## over a run -/

/-- The day of the epoch. -/
def firstDay : Tm := ⟨1970, 0, 1, by decide, by decide⟩

/-- Room for `/var/hpssix`. -/
def varBuffers : Buffers := ⟨"/var/hpssix".toList, 4096⟩

/-- Two processes, one step each in turn. -/
def raceOn (day : Tm) : List Event :=
  (List.range 11).flatMap fun _ => [⟨0, day, none⟩, ⟨1, day, none⟩]

/-- One process, which reads the date first on one day and then on another. -/
def nightOn (day next : Tm) : List Event :=
  ⟨0, day, none⟩ :: List.replicate 10 ⟨0, next, none⟩

/-- These events, on an empty disk. -/
def afresh (es : List Event) : System :=
  run (step varBuffers) { tree := { node := fun _ => none } } es

section Run
variable {b : Buffers} {σ : System}

/-- A step of the system is a call of its process. -/
theorem step_called (b : Buffers) (σ : System) (e : Event) :
    Called b σ.tree e.clock e.fault (σ.pc e.process) (step b σ e).tree
      ((step b σ e).pc e.process) (makes σ.tree e.fault (σ.pc e.process)) := by
  have hpc : (step b σ e).pc e.process = (call b σ.tree e.clock e.fault (σ.pc e.process)).2 :=
    Function.update_self ..
  rw [hpc]
  exact called ..

/-- The other processes stay where they are. -/
theorem step_pc_of_ne {e : Event} {i : Nat} (h : i ≠ e.process) : (step b σ e).pc i = σ.pc i :=
  Function.update_of_ne h ..

/-- Every process has been told the truth. -/
def AllServed (σ : System) : Prop := ∀ i, Served σ.tree (σ.pc i)

/-- A step keeps that every process is served. -/
theorem allServed_step (h : AllServed σ) (e : Event) : AllServed (step b σ e) := fun i => by
  by_cases hi : i = e.process
  · exact hi ▸ served_call (step_called b σ e) (h _)
  · rw [step_pc_of_ne hi]
    exact (h i).mono (step_called b σ e).grows

/-- **The directory of the day**: through every interleaving of any number of processes, with
calls that fail for reasons of their own, a process that is told that all is well has the
directory that it made for the day of its second reading, or, without one, found the path of
its day. -/
theorem datadir_there (b : Buffers) (t : DirTree Text) (es : List Event) {i : Nat} {today : Tm}
    {made : Option Tm} (h : (run (step b) { tree := t } es).pc i = .returned today made .zero) :
    (∀ now ∈ made, (run (step b) { tree := t } es).tree.node (Stage.day now).path = some .dir) ∧
      (made = none →
        ∃ k, (run (step b) { tree := t } es).tree.node (Stage.day today).path = some k) := by
  have hserved : AllServed (run (step b) { tree := t } es) :=
    invariant_run_all es (fun _ => trivial) fun σ e hσ => allServed_step hσ e
  have hi := hserved i
  rwa [h] at hi

/-- Two processes race for the directory of a day. -/
theorem datadir_there_race :
    (afresh (raceOn firstDay)).tree.node (Stage.day firstDay).path = some .dir :=
  have h : (afresh (raceOn firstDay)).pc 0 = .returned firstDay (some firstDay) .zero := by decide
  (datadir_there varBuffers _ _ h).1 firstDay rfl

-- Past midnight a process is told that all is well, and its directory is not there.
example :
    let next : Tm := ⟨1970, 0, 2, by decide, by decide⟩
    (afresh (nightOn firstDay next)).pc 0 = .returned firstDay (some next) .zero ∧
      (afresh (nightOn firstDay next)).tree.node (Stage.day firstDay).path = none := by decide

/-- Each step of a process brings it nearer to its end. -/
theorem rank_run (es : List Event) (i : Nat) :
    ((run (step b) σ es).pc i).rank ≤ (σ.pc i).rank - es.countP fun e => e.process = i := by
  induction es generalizing σ with
  | nil => exact Nat.le_refl _
  | cons e es ih =>
      rw [run_cons, List.countP_cons]
      refine (ih (σ := step b σ e)).trans ?_
      by_cases hi : i = e.process
      · have hle := (step_called b σ e).rank_le
        simp only [hi, decide_true, if_true]
        omega
      · have hne : ¬ e.process = i := fun h => hi h.symm
        rw [step_pc_of_ne hi]
        simp [hne]

/-- A process at the end has returned. -/
theorem exists_returned {pc : Pc} (h : pc.rank = 0) : ∃ today made ret, pc = .returned today made ret := by
  cases pc with
  | returned today made ret => exact ⟨today, made, ret, rfl⟩
  | stats today stage => simp [Pc.rank] at h
  | mkdirs today stage => cases stage <;> simp [Pc.rank, Stage.rank] at h
  | _ => simp [Pc.rank] at h

/-- What holds in every state when nothing else is in the way: who made the last directory
has not failed, and nobody has if there is none. -/
structure Raced (σ : System) : Prop where
  clear : Clear σ.tree
  room : ∀ i, HasRoom σ.tree (σ.pc i)
  told : ∀ i, Told (σ.pc i)
  last : ∀ i, σ.maker = none ∨ σ.maker = some i → Unfailed σ.tree (σ.pc i)
  began : ∀ i, σ.maker = some i → σ.pc i ≠ .begun

/-- No directory was made at first. -/
theorem raced_init {t : DirTree Text} (hc : Clear t) : Raced { tree := t } where
  clear := hc
  room _ := trivial
  told _ := trivial
  last _ _ := trivial
  began i h := by cases h

/-- A step without a fault keeps the invariant of the race. -/
theorem raced_step (hbuf : b.workRoot.length + 20 ≤ b.buflen) (h : Raced σ) {e : Event}
    (hfault : e.fault = none) : Raced (step b σ e) := by
  have hcalled := step_called b σ e
  rw [hfault] at hcalled
  have hmaker : (step b σ e).maker =
      if makes σ.tree none (σ.pc e.process) then some e.process else σ.maker := by
    rw [← hfault]
    rfl
  have hspec := callSpec hcalled hbuf h.clear (h.room _) (h.told _)
  generalize makes σ.tree none (σ.pc e.process) = made at hcalled hmaker hspec
  refine ⟨hspec.clear, fun i => ?_, fun i => ?_, fun i hi => ?_, fun i hi => ?_⟩
  · by_cases hie : i = e.process
    · exact hie ▸ hspec.room
    · rw [step_pc_of_ne hie]
      exact (h.room i).mono hcalled.grows
  · by_cases hie : i = e.process
    · exact hie ▸ hspec.told
    · rw [step_pc_of_ne hie]
      exact h.told i
  · by_cases hie : i = e.process
    · subst hie
      refine hspec.unfailed ?_
      cases made with
      | true => exact .inl rfl
      | false => exact .inr (h.last _ (by simpa [hmaker] using hi))
    · rw [step_pc_of_ne hie]
      cases made with
      | true => simp [hmaker, Ne.symm hie] at hi
      | false =>
          rw [hspec.same rfl]
          exact h.last i (by simpa [hmaker] using hi)
  · by_cases hie : i = e.process
    · exact hie ▸ hspec.began
    · rw [step_pc_of_ne hie]
      cases made with
      | true => simp [hmaker, Ne.symm hie] at hi
      | false => exact h.began i (by simpa [hmaker] using hi)

/-- A process that takes no step is where it was. -/
theorem pc_run_of_ne {es : List Event} {i : Nat} (h : ∀ e ∈ es, e.process ≠ i) :
    (run (step b) σ es).pc i = σ.pc i := by
  induction es generalizing σ with
  | nil => rfl
  | cons e es ih =>
      rw [run_cons, ih fun e' he' => h e' (List.mem_cons_of_mem _ he'),
        step_pc_of_ne (h e List.mem_cons_self).symm]

/-- **One gets through**: where no file is in the way and no call fails for reasons of its own,
in every interleaving of any number of processes in which each gets its turns, every one of
them ends, at least one is told that all is well, and the others that a directory was made in
front of them. -/
theorem some_get_through (hbuf : b.workRoot.length + 20 ≤ b.buflen) {t : DirTree Text} (hc : Clear t)
    {es : List Event} (hne : es ≠ []) (hfault : ∀ e ∈ es, e.fault = none)
    (hturns : ∀ e ∈ es, 11 ≤ es.countP fun e' => e'.process = e.process) :
    (∀ e ∈ es, ∃ today made ret,
      (run (step b) { tree := t } es).pc e.process = .returned today made ret ∧
        (ret = .zero ∨ ret = .errno .eexist)) ∧
      ∃ e ∈ es, ∃ today made,
        (run (step b) { tree := t } es).pc e.process = .returned today made .zero := by
  have hraced : Raced (run (step b) { tree := t } es) := by
    have hall : AllSteps (step b) (fun _ e => e.fault = none) { tree := t } es :=
      allSteps_iff.mpr fun pre e post hes => hfault e (by simp [hes])
    exact invariant_run (raced_init hc) hall fun σ e h he => raced_step hbuf h he
  have hends : ∀ e ∈ es, ∃ today made ret,
      (run (step b) { tree := t } es).pc e.process = .returned today made ret := fun e he => by
    have hrank := rank_run (b := b) (σ := { tree := t }) es e.process
    refine exists_returned (Nat.le_zero.mp (hrank.trans ?_))
    have hmany := hturns e he
    simp only [Pc.rank]
    omega
  have hlast : ∀ e ∈ es, (run (step b) { tree := t } es).maker = none ∨
      (run (step b) { tree := t } es).maker = some e.process → ∃ today made,
        (run (step b) { tree := t } es).pc e.process = .returned today made .zero := by
    intro e he hmaker
    obtain ⟨today, made, ret, hpc⟩ := hends e he
    have hunfailed := hraced.last e.process hmaker
    rw [hpc] at hunfailed
    obtain rfl : ret = .zero := hunfailed
    exact ⟨today, made, hpc⟩
  refine ⟨fun e he => ?_, ?_⟩
  · obtain ⟨today, made, ret, hpc⟩ := hends e he
    have htold := hraced.told e.process
    rw [hpc] at htold
    exact ⟨today, made, ret, hpc, htold⟩
  · cases hmaker : (run (step b) { tree := t } es).maker with
    | none =>
        obtain ⟨e, he⟩ := List.exists_mem_of_ne_nil es hne
        exact ⟨e, he, hlast e he (.inl hmaker)⟩
    | some i =>
        -- who made a directory has taken a step
        have hbegan := hraced.began i hmaker
        obtain ⟨e, he, hei⟩ : ∃ e ∈ es, e.process = i := by
          by_contra hnone
          exact hbegan (pc_run_of_ne fun e he hei => hnone ⟨e, he, hei⟩)
        exact ⟨e, he, hlast e he (.inr (hei ▸ hmaker))⟩

/-- One of the two processes gets through. -/
theorem some_get_through_race :
    ∃ e ∈ raceOn firstDay, ∃ today made,
      (afresh (raceOn firstDay)).pc e.process = .returned today made .zero :=
  (some_get_through (by decide) ⟨rfl, fun _ => by simp⟩ (by decide) (by decide) (by decide)).2

-- The second process comes too late for the work root.
example : (afresh (raceOn firstDay)).pc 1 = .returned firstDay none (.errno .eexist) := by decide

end Run

end WorkDirs

end Hpssix
