import Mathlib.Data.Int.Basic
import Hpssix.Base.Trace

/-!
# Hpssix.Alarm

The main loop of the scanner daemon (`register_alarm` and
`hpssixd_daemon_scanner` in `hpssixd/src/hpssixd-scanner.c`): it arms an alarm
for the daily scan, waits for a signal, handles it, and starts over.

Times are whole seconds, local time has a constant offset, and an alarm that
becomes due ends the wait.  In the second of the schedule itself
`register_alarm` asks for an alarm after 0 seconds, and that is none.
-/

namespace Hpssix

open Trace

/-- The seconds of a day. -/
def daySecs : Int := 24 * 60 * 60

/-- When the daily scan is due, and how far local time is ahead. -/
structure Schedule where
  schedule : Int
  utcOffset : Int
  ofDay : 0 ≤ schedule ∧ schedule < daySecs

namespace Schedule

/-- `localtime_r`: the day. -/
def localDay (s : Schedule) (t : Int) : Int := (t + s.utcOffset) / daySecs

/-- `mktime`, of the scheduled time on a day. -/
def runAt (s : Schedule) (day : Int) : Int := day * daySecs + s.schedule - s.utcOffset

/-- The duration that `register_alarm` passes to `alarm`. -/
def sleepDuration (s : Schedule) (now : Int) : Int :=
  let timeRunAt := s.runAt (s.localDay now)
  let timeRunAt := if timeRunAt < now then timeRunAt + 24 * 60 * 60 else timeRunAt
  timeRunAt - now

/-- The second of the daily scan. -/
def Scheduled (s : Schedule) (t : Int) : Prop := (t + s.utcOffset) % daySecs = s.schedule

instance (s : Schedule) (t : Int) : Decidable (s.Scheduled t) := inferInstanceAs (Decidable (_ = _))

/-- The next daily scan after a time. -/
structure Next (s : Schedule) (t due : Int) : Prop where
  after : t < due
  scheduled : s.Scheduled due
  first : ∀ u, t < u → u < due → ¬ s.Scheduled u

end Schedule

/-- `alarm`: when the alarm is due; 0 seconds cancel it. -/
def alarm (now seconds : Int) : Option Int := if seconds = 0 then none else some (now + seconds)

inductive Signal where
  | alrm
  | usr1
  | usr2
  | hup
  | term
deriving DecidableEq

/-- The loop while it waits, or after it has been left: the time, when
`register_alarm` last ran, and the pending alarm. -/
structure MainLoop where
  now : Int
  registered : Int
  alarm : Option Int
  waiting : Bool := true
deriving DecidableEq

/-- Time passes, or a signal is fetched; `scan` is how long `do_scanner` takes if
the signal starts it. -/
inductive LoopEvent where
  | pass (seconds : Nat)
  | fetch (signal : Signal) (scan : Nat)
deriving DecidableEq

namespace MainLoop

variable (s : Schedule)

/-- The top of the loop: `register_alarm`, and the wait begins. -/
def arm (now : Int) : MainLoop where
  now := now
  registered := now
  alarm := Hpssix.alarm now (s.sleepDuration now)

/-- One event. -/
def step (l : MainLoop) : LoopEvent → MainLoop
  | .pass seconds => { l with now := l.now + seconds }
  | .fetch signal scan =>
    if !l.waiting then l
    else
      match signal with
      | .alrm | .usr1 => arm s (l.now + scan)
      | .usr2 | .hup => arm s l.now
      | .term => { l with waiting := false }

/-- The wait ends at the latest when the alarm is due. -/
def Admitted (l : MainLoop) : LoopEvent → Prop
  | .pass seconds => l.waiting = true → ∀ due ∈ l.alarm, l.now + seconds ≤ due
  | .fetch _ _ => True

/-- If the loop waits, an alarm is pending for the next daily scan after
`register_alarm` ran. -/
def AlarmPending (l : MainLoop) : Prop :=
  l.waiting = true → ∃ due, l.alarm = some due ∧ s.Next l.registered due ∧ l.now ≤ due ∧
    1 ≤ due - l.registered ∧ due - l.registered ≤ daySecs

end MainLoop

/-! ## one call -/

namespace Schedule

variable (s : Schedule)

/-- The duration is the distance to the scheduled second, counted from this one. -/
theorem sleepDuration_eq (now : Int) :
    s.sleepDuration now = (s.schedule - (now + s.utcOffset) % daySecs) % daySecs := by
  have hday := s.ofDay
  have hmod := Int.emod_add_mul_ediv (now + s.utcOffset) daySecs
  have hnonneg := Int.emod_nonneg (now + s.utcOffset) (show daySecs ≠ 0 by decide)
  have hlt := Int.emod_lt_of_pos (now + s.utcOffset) (show 0 < daySecs by decide)
  have hrun : s.runAt (s.localDay now) =
      (now + s.utcOffset) / daySecs * daySecs + s.schedule - s.utcOffset := rfl
  unfold sleepDuration
  by_cases hlater : s.runAt (s.localDay now) < now
  · simp only [if_pos hlater]
    rw [hrun] at hlater ⊢
    simp only [daySecs] at *
    omega
  · simp only [if_neg hlater]
    rw [hrun] at hlater ⊢
    simp only [daySecs] at *
    omega

theorem sleepDuration_bounds (now : Int) :
    0 ≤ s.sleepDuration now ∧ s.sleepDuration now < daySecs := by
  rw [sleepDuration_eq]
  exact ⟨Int.emod_nonneg _ (by decide), Int.emod_lt_of_pos _ (by decide)⟩

/-- In the scheduled second the duration is 0. -/
theorem sleepDuration_eq_zero {now : Int} : s.sleepDuration now = 0 ↔ s.Scheduled now := by
  have hday := s.ofDay
  rw [sleepDuration_eq, Scheduled]
  simp only [daySecs] at *
  omega

/-- Otherwise it leads to the next daily scan. -/
theorem next_sleepDuration {now : Int} (h : ¬ s.Scheduled now) :
    s.Next now (now + s.sleepDuration now) := by
  have hday := s.ofDay
  obtain ⟨hpos, hlt⟩ := s.sleepDuration_bounds now
  have hne : s.sleepDuration now ≠ 0 := fun h0 => h (s.sleepDuration_eq_zero.mp h0)
  have heq := s.sleepDuration_eq now
  refine ⟨by omega, ?_, fun u hu hdue => ?_⟩
  · rw [Scheduled]
    simp only [daySecs] at *
    omega
  · rw [Scheduled]
    simp only [daySecs] at *
    omega

end Schedule

/-! ## the loop -/

namespace MainLoop

variable {s : Schedule} {l : MainLoop}

/-- A waiting loop has the alarm of its last `register_alarm`, not yet overdue. -/
structure Armed (s : Schedule) (l : MainLoop) : Prop where
  alarm : l.waiting = true → l.alarm = Hpssix.alarm l.registered (s.sleepDuration l.registered)
  notOverdue : l.waiting = true → ∀ due ∈ l.alarm, l.now ≤ due

theorem armed_arm (now : Int) : (arm s now).Armed s where
  alarm _ := rfl
  notOverdue _ due hdue := by
    have hpos := (s.sleepDuration_bounds now).1
    simp only [arm, Hpssix.alarm, Option.mem_def, Option.ite_none_left_eq_some,
      Option.some.injEq] at hdue ⊢
    omega

/-- A signal registers the alarm anew, or it ends the wait; without a wait it changes
nothing. -/
theorem step_fetch (s : Schedule) (l : MainLoop) (signal : Signal) (scan : Nat) :
    l.step s (.fetch signal scan) = l ∨ (∃ now, l.step s (.fetch signal scan) = arm s now) ∨
      l.step s (.fetch signal scan) = { l with waiting := false } := by
  cases hwait : l.waiting with
  | false => exact .inl (by simp [step, hwait])
  | true =>
      cases signal with
      | alrm => exact .inr (.inl ⟨l.now + scan, by simp [step, hwait]⟩)
      | usr1 => exact .inr (.inl ⟨l.now + scan, by simp [step, hwait]⟩)
      | usr2 => exact .inr (.inl ⟨l.now, by simp [step, hwait]⟩)
      | hup => exact .inr (.inl ⟨l.now, by simp [step, hwait]⟩)
      | term => exact .inr (.inr (by simp [step, hwait]))

theorem armed_step (hl : l.Armed s) (e : LoopEvent) (he : l.Admitted e) :
    (l.step s e).Armed s := by
  cases e with
  | pass seconds => exact ⟨hl.alarm, he⟩
  | fetch signal scan =>
      obtain hsame | ⟨now, harm⟩ | hend := step_fetch s l signal scan
      · rw [hsame]
        exact hl
      · rw [harm]
        exact armed_arm now
      · rw [hend]
        exact ⟨fun h => by contradiction, fun h => by contradiction⟩

/-- A waiting loop has its alarm exactly if `register_alarm` did not run in the
scheduled second. -/
theorem alarmPending_iff (hl : l.Armed s) :
    l.AlarmPending s ↔ (l.waiting = true → ¬ s.Scheduled l.registered) := by
  refine forall_congr' fun hwait => ?_
  have halarm := hl.alarm hwait
  have hover := hl.notOverdue hwait
  rw [halarm] at hover ⊢
  by_cases hs : s.Scheduled l.registered
  · rw [Hpssix.alarm, if_pos (s.sleepDuration_eq_zero.mpr hs)]
    simp [hs]
  · have hne : s.sleepDuration l.registered ≠ 0 := fun h0 => hs (s.sleepDuration_eq_zero.mp h0)
    have hnext := s.next_sleepDuration hs
    have hbounds := s.sleepDuration_bounds l.registered
    rw [Hpssix.alarm, if_neg hne] at hover ⊢
    have hafter := hnext.after
    refine iff_of_true ⟨_, rfl, hnext, hover _ rfl, by omega, by omega⟩ hs

/-- **The daily alarm**: in a run of the loop an alarm for the next daily scan is
pending in every wait exactly if `register_alarm` never runs in the scheduled
second. -/
theorem daily_alarm_iff (s : Schedule) (start : Int) (events : List LoopEvent)
    (he : AllSteps (step s) Admitted (arm s start) events) :
    (∀ pre, pre <+: events → (run (step s) (arm s start) pre).AlarmPending s) ↔
      ∀ pre, pre <+: events → (run (step s) (arm s start) pre).waiting = true →
        ¬ s.Scheduled (run (step s) (arm s start) pre).registered := by
  refine forall₂_congr fun pre hpre => ?_
  exact alarmPending_iff (invariant_at (armed_arm start) he (fun l e hl he => armed_step hl e he) hpre)

/-- A scan at one o'clock, UTC. -/
def oneOClock : Schedule := ⟨3600, 0, by decide, by decide⟩

/-- The alarm is due ten seconds after the start, and `do_scanner` returns within
the second. -/
def quickScanRun : List LoopEvent := [.pass 10, .fetch .alrm 0]

theorem admitted_quickScanRun :
    AllSteps (step oneOClock) Admitted (arm oneOClock 3590) quickScanRun := by
  have halarm : (arm oneOClock 3590).alarm = some 3600 := by decide
  refine ⟨fun _ due hdue => ?_, trivial, trivial⟩
  rw [halarm, Option.mem_def, Option.some.injEq] at hdue
  rw [← hdue]
  decide

theorem daily_alarm_iff_quickScanRun :
    (∀ pre, pre <+: quickScanRun →
        (run (step oneOClock) (arm oneOClock 3590) pre).AlarmPending oneOClock) ↔
      ∀ pre, pre <+: quickScanRun → (run (step oneOClock) (arm oneOClock 3590) pre).waiting = true →
        ¬ oneOClock.Scheduled (run (step oneOClock) (arm oneOClock 3590) pre).registered :=
  daily_alarm_iff oneOClock 3590 quickScanRun admitted_quickScanRun

/-- After that scan the loop waits without an alarm. -/
theorem quick_scan_leaves_no_alarm : ¬ ∀ (s : Schedule) (start : Int) (events : List LoopEvent),
    AllSteps (step s) Admitted (arm s start) events →
      ∀ pre, pre <+: events → (run (step s) (arm s start) pre).AlarmPending s := by
  intro h
  obtain ⟨due, hdue, _⟩ := h oneOClock 3590 quickScanRun admitted_quickScanRun quickScanRun
    List.prefix_rfl (by decide)
  have hnone : (run (step oneOClock) (arm oneOClock 3590) quickScanRun).alarm = none := by decide
  rw [hnone] at hdue
  contradiction

end MainLoop

end Hpssix
