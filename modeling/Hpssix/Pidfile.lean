import Mathlib.Logic.Function.Basic
import Hpssix.Base.CText
import Hpssix.Base.Trace

/-!
# Hpssix.Pidfile

The pid files that keep a daemon from running twice (`hpssixd_setup_pidfile` and
`daemonize_sysv` in `hpssixd/src/hpssixd-daemon.c`, `main` in `hpssixd/src/hpssixd.c`).

A process opens the file, locks it, empties it and writes its pid; the lock ends with
the process.  Any number of processes do so at the same time, and any of them may end
between two of its calls.

* `pidfile_exclusive` — once a daemon has come by its pid file, the file has its pid and no
  other daemon of its name comes by it, as long as it lives;
* `daemon_starts_iff` — a daemon can be started unless a process of its name holds the file.
-/

namespace Hpssix

open CText Trace

namespace Pidfile

/-! ## hpssixd -/

/-- An option of `hpssixd`. -/
inductive DaemonOption where
  | builder
  | debug
  | extractor
  | foreground
  | scanner
  | systemd
  | other
deriving DecidableEq

/-- What `main` has read from the options. -/
structure Startup where
  name : Option Text := none
  foreground : Bool := false
  systemd : Bool := false

/-- One turn of the loop over the options; `usage` ends the process. -/
def readOption (start : Startup) : DaemonOption → Option Startup
  | .builder => some { start with name := some [ 'b', 'u', 'i', 'l', 'd', 'e', 'r' ] }
  | .debug | .foreground => some { start with foreground := true }
  | .extractor => some { start with name := some [ 'e', 'x', 't', 'r', 'a', 'c', 't', 'o', 'r' ] }
  | .scanner => some { start with name := some [ 's', 'c', 'a', 'n', 'n', 'e', 'r' ] }
  | .systemd => some { start with systemd := true }
  | .other => none

/-- The way a process comes by its work: over the pid file, or, as a child of `init` in the
background, without. -/
inductive Launch where
  | pidfile (name : Text)
  | direct (name : Text)
deriving DecidableEq

/-- `main`, up to `hpssixd_setup_pidfile`; `none` where the process ends. -/
def launch (options : List DaemonOption) (initChild : Bool) : Option Launch := do
  let start ← options.foldlM readOption {}
  let name ← start.name
  if start.foreground then some (.pidfile name)
  else if start.systemd then none
  else if initChild then some (.direct name)
  else some (.pidfile name)

/-! ## the processes -/

/-- Where a process stands in `hpssixd_setup_pidfile`, or at work. -/
inductive Phase where
  | begun
  | opened
  | locked
  | truncated
  | working (pidfile : Bool)
deriving DecidableEq

/-- The process has the lock. -/
def Phase.holds : Phase → Bool
  | .begun | .opened => false
  | .locked | .truncated => true
  | .working pidfile => pidfile

structure Proc where
  name : Text
  phase : Phase
deriving DecidableEq

/-- `generate_pidfile_path`. -/
def pidfilePath (workdir name : Text) : Text := workdir ++ "/pid/".toList ++ name ++ ".pid".toList

/-- `fprintf(fp, "%d\n", pid)`. -/
def pidText (pid : Nat) : Text := decimal pid ++ [ '\n' ]

/-- The processes, the files, and the locks that the kernel keeps. -/
structure System where
  proc : Nat → Option Proc := fun _ => none
  file : Text → Option Text := fun _ => none
  lock : Text → Option Nat := fun _ => none

/-- The next call of a process, and how it turns out.  A write that fails may have
written some of its characters. -/
inductive Event where
  | exec (pid : Nat) (options : List DaemonOption) (initChild : Bool)
  | fopen (pid : Nat) (ok : Bool)
  | lockf (pid : Nat) (ok : Bool)
  | ftruncate (pid : Nat) (ok : Bool)
  | fflush (pid : Nat) (failed : Option Nat)
  | ends (pid : Nat)
deriving DecidableEq

namespace System
variable (workdir : Text) (σ : System)

/-- The end of a process: its lock is released. -/
def exit (pid : Nat) : System :=
  { σ with
    proc := Function.update σ.proc pid none
    lock := fun path => if σ.lock path = some pid then none else σ.lock path }

/-- The process goes on. -/
def goOn (pid : Nat) (p : Proc) (phase : Phase) : System :=
  { σ with proc := Function.update σ.proc pid (some { p with phase }) }

def write (path content : Text) : System :=
  { σ with file := Function.update σ.file path (some content) }

/-- The process that starts. -/
def started : Launch → Proc
  | .pidfile name => ⟨name, .begun⟩
  | .direct name => ⟨name, .working false⟩

/-- `exec`: a process has a pid that no other one has. -/
def exec (pid : Nat) (options : List DaemonOption) (initChild : Bool) : System :=
  match σ.proc pid, launch options initChild with
  | none, some l => { σ with proc := Function.update σ.proc pid (some (started l)) }
  | _, _ => σ

/-- One call of one process. -/
def step (σ : System) : Event → System
  | .exec pid options initChild => σ.exec pid options initChild
  | .fopen pid ok =>
    match σ.proc pid with
    | some ⟨name, .begun⟩ =>
      let path := pidfilePath workdir name
      if ok then (σ.write path ((σ.file path).getD [])).goOn pid ⟨name, .begun⟩ .opened
      else σ.exit pid
    | _ => σ
  | .lockf pid ok =>
    match σ.proc pid with
    | some ⟨name, .opened⟩ =>
      let path := pidfilePath workdir name
      if ok ∧ σ.lock path = none then
        { σ with lock := Function.update σ.lock path (some pid) }.goOn pid ⟨name, .opened⟩ .locked
      else σ.exit pid
    | _ => σ
  | .ftruncate pid ok =>
    match σ.proc pid with
    | some ⟨name, .locked⟩ =>
      if ok then (σ.write (pidfilePath workdir name) []).goOn pid ⟨name, .locked⟩ .truncated
      else σ.exit pid
    | _ => σ
  | .fflush pid failed =>
    match σ.proc pid with
    | some ⟨name, .truncated⟩ =>
      let path := pidfilePath workdir name
      let content := (σ.file path).getD []
      match failed with
      | none => (σ.write path (content ++ pidText pid)).goOn pid ⟨name, .truncated⟩ (.working true)
      | some n => (σ.write path (content ++ (pidText pid).take n)).exit pid
    | _ => σ
  | .ends pid => σ.exit pid

end System

/-! ## what a step can do -/

section Change
variable (workdir : Text)

/-- A step out of a state. -/
inductive Change (σ : System) : Event → System → Prop
  | stays (e : Event) : Change σ e σ
  | starts (e : Event) (pid : Nat) (l : Launch) (hnone : σ.proc pid = none) :
      Change σ e { σ with proc := Function.update σ.proc pid (some (System.started l)) }
  | exits (e : Event) (pid : Nat) (he : e = .ends pid ∨ ∃ p, σ.proc pid = some p ∧
      p.phase ≠ .working true) : Change σ e (σ.exit pid)
  | opens (e : Event) (pid : Nat) (name : Text) (hp : σ.proc pid = some ⟨name, .begun⟩) :
      Change σ e ((σ.write (pidfilePath workdir name)
        ((σ.file (pidfilePath workdir name)).getD [])).goOn pid ⟨name, .begun⟩ .opened)
  | locks (e : Event) (pid : Nat) (name : Text) (hp : σ.proc pid = some ⟨name, .opened⟩)
      (hfree : σ.lock (pidfilePath workdir name) = none) :
      Change σ e ({ σ with lock := Function.update σ.lock (pidfilePath workdir name) (some pid)
        }.goOn pid ⟨name, .opened⟩ .locked)
  | empties (e : Event) (pid : Nat) (name : Text) (hp : σ.proc pid = some ⟨name, .locked⟩) :
      Change σ e ((σ.write (pidfilePath workdir name) []).goOn pid ⟨name, .locked⟩ .truncated)
  | writes (e : Event) (pid : Nat) (name : Text) (hp : σ.proc pid = some ⟨name, .truncated⟩) :
      Change σ e ((σ.write (pidfilePath workdir name)
        ((σ.file (pidfilePath workdir name)).getD [] ++ pidText pid)).goOn pid
          ⟨name, .truncated⟩ (.working true))
  | fails (e : Event) (pid : Nat) (name : Text) (n : Nat)
      (hp : σ.proc pid = some ⟨name, .truncated⟩) :
      Change σ e ((σ.write (pidfilePath workdir name)
        ((σ.file (pidfilePath workdir name)).getD [] ++ (pidText pid).take n)).exit pid)

/-- An event of the run is one of the changes. -/
theorem change (σ : System) (e : Event) : Change workdir σ e (σ.step workdir e) := by
  cases e with
  | exec pid options initChild =>
      simp only [System.step, System.exec]
      split
      · next l hnone hl => exact .starts _ pid l hnone
      · exact .stays _
  | fopen pid ok =>
      simp only [System.step]
      split
      · next name hp =>
          split
          · exact .opens _ pid name hp
          · exact .exits _ pid (.inr ⟨_, hp, by simp⟩)
      · exact .stays _
  | lockf pid ok =>
      simp only [System.step]
      split
      · next name hp =>
          split
          · next h => exact .locks _ pid name hp h.2
          · exact .exits _ pid (.inr ⟨_, hp, by simp⟩)
      · exact .stays _
  | ftruncate pid ok =>
      simp only [System.step]
      split
      · next name hp =>
          split
          · exact .empties _ pid name hp
          · exact .exits _ pid (.inr ⟨_, hp, by simp⟩)
      · exact .stays _
  | fflush pid failed =>
      simp only [System.step]
      split
      · next name hp =>
          cases failed with
          | none => exact .writes _ pid name hp
          | some n => exact .fails _ pid name n hp
      · exact .stays _
  | ends pid => exact .exits _ pid (.inl rfl)

end Change

/-! ## one process has the file -/

section Lock
variable {workdir : Text} {σ : System} {pid : Nat} {p : Proc}

/-- What the file says about the process that holds it. -/
def Reads (content : Option Text) (pid : Nat) : Phase → Prop
  | .truncated => content = some []
  | .working true => content = some (pidText pid)
  | .begun | .opened | .locked | .working false => True

/-- The lock is with the process that got it, and the file has what that one wrote. -/
structure Ok (workdir : Text) (σ : System) : Prop where
  held : ∀ pid p, σ.proc pid = some p → p.phase.holds = true →
    σ.lock (pidfilePath workdir p.name) = some pid
  owner : ∀ path pid, σ.lock path = some pid →
    ∃ p, σ.proc pid = some p ∧ p.phase.holds = true ∧ pidfilePath workdir p.name = path
  reads : ∀ pid p, σ.proc pid = some p → Reads (σ.file (pidfilePath workdir p.name)) pid p.phase

/-- A process that does not hold the file may read anything. -/
theorem reads_of_not_holds {content : Option Text} {phase : Phase} (h : phase.holds = false) :
    Reads content pid phase := by
  cases phase with
  | working pidfile => cases pidfile with
    | false => trivial
    | true => cases h
  | begun => trivial
  | opened => trivial
  | locked => trivial
  | truncated => cases h

/-- No process is there at first. -/
theorem ok_init : Ok workdir {} where
  held pid p hp := by cases hp
  owner path pid hlock := by cases hlock
  reads pid p hp := by cases hp

/-- A process after one has moved: that one, or another as it was. -/
theorem proc_update {f : Nat → Option Proc} {x : Option Proc} {q : Nat} {r : Proc}
    (h : Function.update f pid x q = some r) : q = pid ∧ x = some r ∨ q ≠ pid ∧ f q = some r := by
  by_cases hq : q = pid
  · subst hq
    rw [Function.update_self] at h
    exact .inl ⟨rfl, h⟩
  · rw [Function.update_of_ne hq] at h
    exact .inr ⟨hq, h⟩

/-- Where a file keeps its content, it reads as before. -/
theorem Reads.imp {content content' : Option Text} {phase : Phase} (h : Reads content pid phase)
    (hkeep : ∀ text, content = some text → content' = some text) : Reads content' pid phase := by
  cases phase with
  | truncated => exact hkeep [] h
  | working pidfile => cases pidfile with
    | true => exact hkeep (pidText pid) h
    | false => trivial
  | begun => trivial
  | opened => trivial
  | locked => trivial

/-- The process has no lock, or there is none. -/
def Free (σ : System) (pid : Nat) : Prop := ∀ p, σ.proc pid = some p → p.phase.holds = false

/-- A process in such a phase has no lock. -/
theorem free_of_proc (hp : σ.proc pid = some p) (hholds : p.phase.holds = false) : Free σ pid :=
  fun q hq => by
    obtain rfl := Option.some.inj (hp.symm.trans hq)
    exact hholds

/-- A lock is with another process. -/
theorem Ok.owner_of_free (h : Ok workdir σ) (hfree : Free σ pid) {path : Text} {q : Nat}
    (hlock : σ.lock path = some q) {x : Option Proc} :
    ∃ r, Function.update σ.proc pid x q = some r ∧ r.phase.holds = true ∧
      pidfilePath workdir r.name = path := by
  obtain ⟨r, hr, hrholds, hpath⟩ := h.owner path q hlock
  have hq : q ≠ pid := fun hq => by
    rw [hfree r (hq ▸ hr)] at hrholds
    cases hrholds
  exact ⟨r, (Function.update_of_ne hq ..).trans hr, hrholds, hpath⟩

/-- A process starts, or goes on, without the lock. -/
theorem Ok.setProc (h : Ok workdir σ) (hfree : Free σ pid) (hp : p.phase.holds = false) :
    Ok workdir { σ with proc := Function.update σ.proc pid (some p) } where
  held q r hr hholds := by
    obtain ⟨-, hr'⟩ | ⟨-, hr'⟩ := proc_update hr
    · obtain rfl := Option.some.inj hr'
      rw [hp] at hholds
      cases hholds
    · exact h.held q r hr' hholds
  owner _ _ hlock := h.owner_of_free hfree hlock
  reads q r hr := by
    obtain ⟨-, hr'⟩ | ⟨-, hr'⟩ := proc_update hr
    · obtain rfl := Option.some.inj hr'
      exact reads_of_not_holds hp
    · exact h.reads q r hr'

/-- A file is made, and those that are there keep their content. -/
theorem Ok.make (h : Ok workdir σ) (path : Text) :
    Ok workdir (σ.write path ((σ.file path).getD [])) where
  held := h.held
  owner := h.owner
  reads q r hr := (h.reads q r hr).imp fun text hfile => by
    by_cases hpath : pidfilePath workdir r.name = path
    · rw [← hpath, hfile]
      exact Function.update_self ..
    · exact (Function.update_of_ne hpath ..).trans hfile

/-- The end of a process keeps the invariant. -/
theorem Ok.exit (h : Ok workdir σ) (pid : Nat) : Ok workdir (σ.exit pid) where
  held q r hr hholds := by
    obtain ⟨-, hr⟩ | ⟨hq, hr⟩ := proc_update hr
    · cases hr
    · have hlock := h.held q r hr hholds
      simp [System.exit, hlock, hq]
  owner path q hlock := by
    have hlock' : (if σ.lock path = some pid then none else σ.lock path) = some q := hlock
    split at hlock'
    · cases hlock'
    · next hne =>
        obtain ⟨r, hr, hrest⟩ := h.owner path q hlock'
        have hq : q ≠ pid := fun hq => hne (hq ▸ hlock')
        exact ⟨r, by simp [System.exit, Function.update_of_ne hq, hr], hrest⟩
  reads q r hr := by
    obtain ⟨-, hr⟩ | ⟨-, hr⟩ := proc_update hr
    · cases hr
    · exact h.reads q r hr

/-- Nobody else has the lock of the process. -/
theorem Ok.alone (h : Ok workdir σ) (hp : σ.proc pid = some p) (hholds : p.phase.holds = true)
    {q : Nat} {r : Proc} (hr : σ.proc q = some r)
    (hpath : pidfilePath workdir r.name = pidfilePath workdir p.name)
    (hrholds : r.phase.holds = true) : q = pid := by
  have hlock := h.held q r hr hrholds
  rw [hpath, h.held pid p hp hholds] at hlock
  exact (Option.some.inj hlock).symm

/-- A process that has the lock writes to the file. -/
theorem Ok.write (h : Ok workdir σ) (hp : σ.proc pid = some p) (hholds : p.phase.holds = true)
    {content : Text} {phase : Phase} (hphase : phase.holds = true)
    (hreads : Reads (some content) pid phase) :
    Ok workdir ((σ.write (pidfilePath workdir p.name) content).goOn pid p phase) where
  held q r hr hrholds := by
    obtain ⟨rfl, hr'⟩ | ⟨-, hr'⟩ := proc_update hr
    · obtain rfl := Option.some.inj hr'
      exact h.held q p hp hholds
    · exact h.held q r hr' hrholds
  owner path q hlock := by
    obtain ⟨r, hr, hrholds, hpath⟩ := h.owner path q hlock
    by_cases hq : q = pid
    · subst hq
      obtain rfl : p = r := Option.some.inj (hp.symm.trans hr)
      exact ⟨{ p with phase }, Function.update_self .., hphase, hpath⟩
    · exact ⟨r, (Function.update_of_ne hq ..).trans hr, hrholds, hpath⟩
  reads q r hr := by
    obtain ⟨rfl, hr'⟩ | ⟨hq, hr'⟩ := proc_update hr
    · obtain rfl := Option.some.inj hr'
      have hfile : (σ.write (pidfilePath workdir p.name) content).file (pidfilePath workdir p.name) =
          some content := Function.update_self ..
      exact hfile.symm ▸ hreads
    · by_cases hpath : pidfilePath workdir r.name = pidfilePath workdir p.name
      · refine reads_of_not_holds (Bool.eq_false_iff.mpr fun hrholds => hq ?_)
        exact h.alone hp hholds hr' hpath hrholds
      · have hfile : (σ.write (pidfilePath workdir p.name) content).file (pidfilePath workdir r.name) =
            σ.file (pidfilePath workdir r.name) := Function.update_of_ne hpath ..
        exact hfile ▸ h.reads q r hr'

end Lock

/-- A process that ends is gone wherever it was. -/
theorem exit_goOn (σ : System) (pid : Nat) (p : Proc) (phase : Phase) :
    (σ.goOn pid p phase).exit pid = σ.exit pid := by
  have hproc : Function.update (Function.update σ.proc pid (some { p with phase })) pid none =
      Function.update σ.proc pid none := Function.update_idem ..
  unfold System.exit
  rw [System.goOn, hproc]

/-- Every change keeps the invariant. -/
theorem ok_change {workdir : Text} {σ σ' : System} {e : Event} (h : Ok workdir σ)
    (hc : Change workdir σ e σ') : Ok workdir σ' := by
  cases hc with
  | stays => exact h
  | starts pid l hnone =>
      have hfree : Free σ pid := fun p hp => by
        rw [hnone] at hp
        cases hp
      exact h.setProc hfree (by cases l <;> rfl)
  | exits pid => exact h.exit pid
  | opens pid name hp => exact (h.make _).setProc (free_of_proc hp rfl) rfl
  | locks pid name hp hfree =>
      refine ⟨fun q r hr hholds => ?_, fun path q hlock => ?_, fun q r hr => ?_⟩
      · obtain ⟨rfl, hr'⟩ | ⟨hq, hr'⟩ := proc_update hr
        · obtain rfl := Option.some.inj hr'
          exact Function.update_self ..
        · have hlock := h.held q r hr' hholds
          have hpath : pidfilePath workdir r.name ≠ pidfilePath workdir name := fun hpath => by
            rw [hpath, hfree] at hlock
            cases hlock
          exact (Function.update_of_ne hpath ..).trans hlock
      · have hlock' : Function.update σ.lock (pidfilePath workdir name) (some pid) path = some q := hlock
        by_cases hpath : path = pidfilePath workdir name
        · rw [hpath, Function.update_self] at hlock'
          obtain rfl := Option.some.inj hlock'
          exact ⟨_, Function.update_self .., rfl, hpath.symm⟩
        · rw [Function.update_of_ne hpath] at hlock'
          exact h.owner_of_free (free_of_proc hp rfl) hlock'
      · obtain ⟨-, hr'⟩ | ⟨-, hr'⟩ := proc_update hr
        · obtain rfl := Option.some.inj hr'
          trivial
        · exact h.reads q r hr'
  | empties pid name hp => exact h.write hp rfl rfl rfl
  | writes pid name hp =>
      have hempty : σ.file (pidfilePath workdir name) = some [] := h.reads pid _ hp
      exact h.write hp rfl rfl (by rw [hempty]; rfl)
  | fails pid name n hp =>
      rw [← exit_goOn _ pid ⟨name, .truncated⟩ .locked]
      exact (h.write hp rfl rfl (show Reads _ pid .locked from trivial)).exit pid

/-- The invariant holds in every run. -/
theorem ok_run (workdir : Text) (es : List Event) : Ok workdir (run (System.step workdir) {} es) :=
  invariant_run_all es ok_init fun σ e h => ok_change h (change workdir σ e)

/-! ## the daemons -/

/-- The process is a daemon of that name, which has come by its pid file. -/
def Daemon (pid : Nat) (name : Text) (σ : System) : Prop :=
  σ.proc pid = some ⟨name, .working true⟩

/-- A daemon at work stays there until it ends. -/
theorem working_change {workdir : Text} {σ σ' : System} {e : Event} {pid : Nat} {name : Text}
    (hp : Daemon pid name σ) (he : e ≠ .ends pid) (hc : Change workdir σ e σ') :
    Daemon pid name σ' := by
  -- the process that takes the step is another one
  have hother : ∀ {q : Nat} (x : Option Proc), pid ≠ q →
      Function.update σ.proc q x pid = some ⟨name, .working true⟩ := fun x hne => by
    rw [Function.update_of_ne hne]
    exact hp
  have hne : ∀ {q : Nat} {x : Option Proc}, σ.proc q = x → x ≠ some ⟨name, .working true⟩ →
      pid ≠ q := by
    rintro q x rfl hx rfl
    exact hx hp
  cases hc with
  | stays => exact hp
  | starts q l hnone => exact hother _ (hne hnone (by simp))
  | exits q hq =>
      refine hother none ?_
      rcases hq with rfl | ⟨r, hr, hphase⟩
      · exact fun hpq => he (by rw [hpq])
      · refine hne hr fun hr' => hphase ?_
        rw [Option.some.inj hr']
  | opens q n hq => exact hother _ (hne hq (by simp))
  | locks q n hq hfree => exact hother _ (hne hq (by simp))
  | empties q n hq => exact hother _ (hne hq (by simp))
  | writes q n hq => exact hother _ (hne hq (by simp))
  | fails q n k hq => exact hother none (hne hq (by simp))

/-- A process that goes through `main` and `hpssixd_setup_pidfile` with nothing in between. -/
def startEvents (pid : Nat) (options : List DaemonOption) (initChild : Bool) : List Event :=
  [.exec pid options initChild, .fopen pid true, .lockf pid true, .ftruncate pid true,
    .fflush pid none]

/-- **One daemon of each name**: once a daemon has come by its pid file, and as long as it
lives, the file has its pid and no other daemon of that name comes by it, whatever the other
processes do. -/
theorem pidfile_exclusive (workdir : Text) (pre es : List Event) {pid : Nat} {name : Text}
    (hp : Daemon pid name (run (System.step workdir) {} pre)) (hlives : .ends pid ∉ es) :
    let σ := run (System.step workdir) {} (pre ++ es)
    Daemon pid name σ ∧ σ.file (pidfilePath workdir name) = some (pidText pid) ∧
      ∀ q, Daemon q name σ → q = pid := by
  intro σ
  have hok : Ok workdir σ := ok_run workdir (pre ++ es)
  have hall : AllSteps (System.step workdir) (fun _ e => e ≠ .ends pid)
      (run (System.step workdir) {} pre) es :=
    allSteps_iff.mpr fun _ e _ hes he => hlives (by rw [hes, ← he]; simp)
  have hlast := invariant_run hp hall fun σ e h he => working_change h he (change workdir σ e)
  have hworking : Daemon pid name σ := by
    rw [← run_append] at hlast
    exact hlast
  exact ⟨hworking, hok.reads pid _ hworking, fun q hq => hok.alone hworking rfl hq rfl rfl⟩

/-- The builder's name. -/
def builderName : Text := [ 'b', 'u', 'i', 'l', 'd', 'e', 'r' ]

/-- A builder starts, and another one after it. -/
theorem pidfile_exclusive_builder :
    let σ := run (System.step [ '/', 'w' ]) {} (startEvents 7 [.builder] false ++
      startEvents 8 [.debug, .builder] false)
    Daemon 7 builderName σ ∧
      σ.file (pidfilePath [ '/', 'w' ] builderName) = some (pidText 7) ∧
      ∀ q, Daemon q builderName σ → q = 7 :=
  pidfile_exclusive [ '/', 'w' ] (startEvents 7 [.builder] false) (startEvents 8 [.debug, .builder] false)
    rfl (by decide)

/-- The names of the daemons tell their PID files apart. -/
theorem pidfilePath_inj {workdir name name' : Text} :
    pidfilePath workdir name = pidfilePath workdir name' ↔ name = name' := by
  simp [pidfilePath]

/-- **A daemon starts** if and only if no process of its name holds the pid file; what
was in the file does not matter. -/
theorem daemon_starts_iff (workdir : Text) (es : List Event) {pid : Nat}
    {options : List DaemonOption} {initChild : Bool} {name : Text}
    (hfresh : (run (System.step workdir) {} es).proc pid = none)
    (hlaunch : launch options initChild = some (.pidfile name)) :
    Daemon pid name (run (System.step workdir) {} (es ++ startEvents pid options initChild)) ↔
      ∀ q p, (run (System.step workdir) {} es).proc q = some p → p.name = name →
        p.phase.holds = false := by
  have hok := ok_run workdir es
  rw [run_append]
  generalize run (System.step workdir) {} es = σ at hfresh hok ⊢
  have hlock : σ.lock (pidfilePath workdir name) = none ↔
      ∀ q p, σ.proc q = some p → p.name = name → p.phase.holds = false := by
    constructor
    · intro hnone q p hp hname
      refine Bool.eq_false_iff.mpr fun hholds => ?_
      have hheld := hok.held q p hp hholds
      rw [hname, hnone] at hheld
      cases hheld
    · intro h
      refine Option.eq_none_iff_forall_ne_some.mpr fun q hq => ?_
      obtain ⟨p, hp, hholds, hpath⟩ := hok.owner _ q hq
      rw [h q p hp (pidfilePath_inj.mp hpath)] at hholds
      cases hholds
  rw [← hlock]
  by_cases hfree : σ.lock (pidfilePath workdir name) = none
  · simp [Daemon, startEvents, System.step, System.exec, hfresh, hlaunch, System.started, System.goOn,
      System.write, hfree]
  · simp [Daemon, startEvents, System.step, System.exec, hfresh, hlaunch, System.started, System.goOn,
      System.write, hfree, System.exit]

/-- A builder starts where no other runs. -/
theorem daemon_starts_iff_builder :
    Daemon 7 builderName (run (System.step [ '/', 'w' ]) {} (startEvents 7 [.builder] false)) :=
  (daemon_starts_iff [ '/', 'w' ] [] rfl rfl).mpr fun q p hp => by cases hp

end Pidfile

end Hpssix
