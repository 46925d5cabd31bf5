import Hpssix.Alarm
import Hpssix.ParseDatetime

/-!
# Hpssix.SysConf

`hpssix.conf` (`libhpssix/src/hpssix-config.c`), and the daily scan under the schedule that it
sets.

libconfig parses the file.  A setting that is not there, or of the wrong type, leaves the zero
of the structure; so does a file that cannot be read, and the function still returns 0.
Nothing checks the schedule: `sscanf` stores the numbers that it finds, and `mktime` carries
hours, minutes and seconds that no day has.  Local time is at a constant offset here; with
daylight saving, `mktime` takes the schedule as standard time (`tm_isdst` is 0).

* `always_scheduled_iff` — the alarm for the daily scan is never lost exactly if the
  schedule is the end of the day, 24:00:00.
-/

namespace Hpssix

open CText Scanf Trace

/-! ## the file -/

/-- A group of settings: what `config_setting_lookup_string` and `config_setting_lookup_int`
find under a name. -/
structure ConfigGroup where
  string : String → Option Text := fun _ => none
  int : String → Option Int32 := fun _ => none

/-- A parsed file: what `config_lookup` finds. -/
abbrev ConfigFile := String → Option ConfigGroup

/-- The fields of `struct tm` that the schedule sets. -/
structure ScheduleFields where
  tmHour : Int := 0
  tmMin : Int := 0
  tmSec : Int := 0
deriving DecidableEq

/-- `hpssix_config_t`. -/
structure HpssixConfig where
  dbHost : Option Text := none
  dbUser : Option Text := none
  dbPassword : Option Text := none
  dbDatabase : Option Text := none
  dbPort : UInt16 := 0
  tagPrefix : Option Text := none
  workdir : Option Text := none
  hpssMountpoint : Option Text := none
  db2path : Option Text := none
  db2user : Option Text := none
  db2password : Option Text := none
  tikaHost : Option Text := none
  tikaPort : UInt16 := 0
  extractorNthreads : UInt32 := 0
  extractorMaxfilesize : UInt64 := 0
  scannerHost : Option Text := none
  builderHost : Option Text := none
  extractorHost : Option Text := none
  rpcTimeout : UInt64 := 0
  firstOid : UInt64 := 0
  schedule : ScheduleFields := {}

/-- `"%2d:%2d:%2d"`. -/
def scheduleFormat : List Directive :=
  [.d (some 2), .lit ':', .d (some 2), .lit ':', .d (some 2)]

/-- `read_hpssix_schedule`. -/
def readHpssixSchedule (str : Text) : ScheduleFields :=
  let values := (scan scheduleFormat str).1
  { tmHour := values.getD 0 0, tmMin := values.getD 1 0, tmSec := values.getD 2 0 }

/-- `hpssix_config_read_sysconf`, which returns 0; none is a file that libconfig refuses. -/
def hpssixConfigReadSysconf (file : Option ConfigFile) : HpssixConfig :=
  let string (group name : String) : Option Text :=
    file.bind fun f => (f group).bind fun g => g.string name
  let int (group name : String) : Int32 :=
    (file.bind fun f => (f group).bind fun g => g.int name).getD 0
  { workdir := string "hpssix" "workdir"
    schedule := (string "hpssix" "schedule").elim {} readHpssixSchedule
    rpcTimeout := (int "hpssix" "rpctimeout").toInt64.toUInt64
    firstOid := (int "hpssix" "firstoid").toInt64.toUInt64
    tagPrefix := string "tagging" "prefix"
    hpssMountpoint := string "hpss" "mountpoint"
    db2path := string "hpss" "db2path"
    db2user := string "hpss" "db2user"
    db2password := string "hpss" "db2password"
    dbHost := string "database" "host"
    dbPort := (int "database" "port").toUInt32.toUInt16
    dbUser := string "database" "user"
    dbPassword := string "database" "password"
    dbDatabase := string "database" "database"
    tikaHost := string "tika" "host"
    tikaPort := (int "tika" "port").toUInt32.toUInt16
    scannerHost := string "scanner" "host"
    builderHost := string "builder" "host"
    extractorHost := string "extractor" "host"
    extractorMaxfilesize := (int "extractor" "maxfilesize").toInt64.toUInt64
    extractorNthreads := (int "extractor" "nthreads").toUInt32 }

/-! ## the alarm -/

namespace ScheduleFields

variable (f : ScheduleFields) (utcOffset : Int)

/-- What `mktime` adds to the first moment of the day. -/
def seconds : Int := f.tmHour * 3600 + f.tmMin * 60 + f.tmSec

/-- The time of day that this comes to. -/
def daily : Schedule where
  schedule := f.seconds % daySecs
  utcOffset := utcOffset
  ofDay := ⟨Int.emod_nonneg _ (by decide), Int.emod_lt_of_pos _ (by decide)⟩

/-- `sleep_duration_sec` of `register_alarm`, an unsigned number. -/
def sleepDurationSec (now : Int) : UInt64 :=
  let timeRunAt := (now + utcOffset) / daySecs * daySecs + f.seconds - utcOffset
  let timeRunAt := if timeRunAt < now then timeRunAt + 24 * 60 * 60 else timeRunAt
  .ofInt (timeRunAt - now)

/-- The top of the loop, as `MainLoop.arm`; the parameter of `alarm` has 32 bits. -/
def arm (now : Int) : MainLoop where
  now := now
  registered := now
  alarm := Hpssix.alarm now (f.sleepDurationSec utcOffset now).toUInt32.toNat

/-- One event, as `MainLoop.step`. -/
def step (l : MainLoop) : LoopEvent → MainLoop
  | .pass seconds => { l with now := l.now + seconds }
  | .fetch signal scan =>
    if !l.waiting then l
    else
      match signal with
      | .alrm | .usr1 => f.arm utcOffset (l.now + scan)
      | .usr2 | .hup => f.arm utcOffset l.now
      | .term => { l with waiting := false }

/-! ### the duration -/

variable {f utcOffset}

theorem toNat_toUInt32_ofInt {d : Int} (hlow : 0 ≤ d) (hhigh : d < 2 ^ 32) :
    ((UInt64.ofInt d).toUInt32.toNat : Int) = d := by
  have hd : UInt64.ofInt d = UInt64.ofNat d.toNat := by
    rw [UInt64.ofInt, Int.emod_eq_of_lt hlow (by omega)]
  rw [hd, UInt64.toNat_toUInt32, UInt64.toNat_ofNat', Nat.mod_mod_of_dvd _ (by decide),
    Nat.mod_eq_of_lt (by omega)]
  omega

/-- The duration, where it is one: the time to the moment that the fields come to, or to a day
after it. -/
theorem sleepDurationSec_eq {now : Int}
    (hlow : 0 ≤ f.seconds - (now + utcOffset) % daySecs +
      if f.seconds < (now + utcOffset) % daySecs then daySecs else 0)
    (hhigh : f.seconds < 2 ^ 31) :
    ((f.sleepDurationSec utcOffset now).toUInt32.toNat : Int) =
      f.seconds - (now + utcOffset) % daySecs +
        if f.seconds < (now + utcOffset) % daySecs then daySecs else 0 := by
  have hmod := Int.emod_add_mul_ediv (now + utcOffset) daySecs
  have hnonneg := Int.emod_nonneg (now + utcOffset) (show daySecs ≠ 0 by decide)
  have heq : (if (now + utcOffset) / daySecs * daySecs + f.seconds - utcOffset < now then
        (now + utcOffset) / daySecs * daySecs + f.seconds - utcOffset + 24 * 60 * 60
      else (now + utcOffset) / daySecs * daySecs + f.seconds - utcOffset) - now =
      f.seconds - (now + utcOffset) % daySecs +
        if f.seconds < (now + utcOffset) % daySecs then daySecs else 0 := by
    simp only [daySecs] at *
    split_ifs <;> omega
  unfold sleepDurationSec
  dsimp only
  rw [heq]
  refine toNat_toUInt32_ofInt hlow ?_
  simp only [daySecs] at *
  split_ifs <;> omega

/-- A schedule within the day is one of `Alarm`. -/
theorem arm_eq (h : 0 ≤ f.seconds ∧ f.seconds < daySecs) (now : Int) :
    f.arm utcOffset now = MainLoop.arm (f.daily utcOffset) now := by
  have hday : (f.daily utcOffset).schedule = f.seconds := Int.emod_eq_of_lt h.1 h.2
  have hdur : ((f.sleepDurationSec utcOffset now).toUInt32.toNat : Int) =
      (f.daily utcOffset).sleepDuration now := by
    rw [Schedule.sleepDuration_eq, hday]
    show _ = (f.seconds - (now + utcOffset) % daySecs) % daySecs
    have hnonneg := Int.emod_nonneg (now + utcOffset) (show daySecs ≠ 0 by decide)
    have hlt := Int.emod_lt_of_pos (now + utcOffset) (show 0 < daySecs by decide)
    rw [sleepDurationSec_eq]
    · simp only [daySecs] at *
      split_ifs <;> omega
    · simp only [daySecs] at *
      split_ifs <;> omega
    · simp only [daySecs] at *
      omega
  rw [arm, MainLoop.arm, hdur]

theorem step_eq (h : 0 ≤ f.seconds ∧ f.seconds < daySecs) (l : MainLoop) (e : LoopEvent) :
    f.step utcOffset l e = l.step (f.daily utcOffset) e := by
  cases e with
  | pass seconds => rfl
  | fetch signal scan => cases signal <;> simp only [step, MainLoop.step, arm_eq h]

theorem run_eq (h : 0 ≤ f.seconds ∧ f.seconds < daySecs) (start : Int) (events : List LoopEvent) :
    run (f.step utcOffset) (f.arm utcOffset start) events =
      run (MainLoop.step (f.daily utcOffset)) (MainLoop.arm (f.daily utcOffset) start) events := by
  rw [arm_eq h, show f.step utcOffset = MainLoop.step (f.daily utcOffset) from
    funext fun l => funext fun e => step_eq h l e]

/-! ### the loop -/

/-- The loop keeps its alarm if `register_alarm` always finds one. -/
theorem alarmPending_step (harm : ∀ now, (f.arm utcOffset now).AlarmPending (f.daily utcOffset))
    {l : MainLoop} (hl : l.AlarmPending (f.daily utcOffset)) {e : LoopEvent} (he : l.Admitted e) :
    (f.step utcOffset l e).AlarmPending (f.daily utcOffset) := by
  cases e with
  | pass seconds =>
      intro hwait
      obtain ⟨due, halarm, hnext, -, hbounds⟩ := hl hwait
      exact ⟨due, halarm, hnext, he hwait due halarm, hbounds⟩
  | fetch signal scan =>
      cases hwait : l.waiting with
      | false =>
          rw [show f.step utcOffset l (.fetch signal scan) = l by simp [step, hwait]]
          exact hl
      | true =>
          cases signal with
          | alrm => simpa [step, hwait] using harm (l.now + scan)
          | usr1 => simpa [step, hwait] using harm (l.now + scan)
          | usr2 => simpa [step, hwait] using harm l.now
          | hup => simpa [step, hwait] using harm l.now
          | term =>
              intro hterm
              simp [step, hwait] at hterm

/-- At the end of the day the duration is never 0, and never more than a day. -/
theorem alarmPending_arm (h : f.seconds = daySecs) (now : Int) :
    (f.arm utcOffset now).AlarmPending (f.daily utcOffset) := by
  intro _
  have hnonneg := Int.emod_nonneg (now + utcOffset) (show daySecs ≠ 0 by decide)
  have hlt := Int.emod_lt_of_pos (now + utcOffset) (show 0 < daySecs by decide)
  have hdur : ((f.sleepDurationSec utcOffset now).toUInt32.toNat : Int) =
      daySecs - (now + utcOffset) % daySecs := by
    rw [sleepDurationSec_eq, h, if_neg (by omega), Int.add_zero]
    · rw [h, if_neg (by omega)]
      omega
    · rw [h]
      decide
  have hschedule : (f.daily utcOffset).schedule = 0 := by
    show f.seconds % daySecs = 0
    rw [h]
    rfl
  refine ⟨now + (daySecs - (now + utcOffset) % daySecs), ?_, ⟨?_, ?_, fun u hu hdue => ?_⟩, ?_, ?_, ?_⟩
  · rw [arm, hdur, Hpssix.alarm, if_neg (by omega)]
  · show now < _
    omega
  · rw [Schedule.Scheduled, hschedule]
    show (now + (daySecs - (now + utcOffset) % daySecs) + utcOffset) % daySecs = 0
    simp only [daySecs] at *
    omega
  · rw [Schedule.Scheduled, hschedule]
    show ¬ (u + utcOffset) % daySecs = 0
    have hu' : now < u := hu
    simp only [daySecs] at *
    omega
  · show now ≤ _
    omega
  · show 1 ≤ _ - now
    omega
  · show _ - now ≤ _
    omega

/-- Otherwise a moment of the day is without an alarm, or the alarm comes too late. -/
theorem not_alarmPending_arm (hlow : -daySecs ≤ f.seconds) (hhigh : f.seconds < 2 ^ 31)
    (h : f.seconds ≠ daySecs) :
    ∃ now, ¬ (f.arm utcOffset now).AlarmPending (f.daily utcOffset) := by
  have hmod : ∀ n, 0 ≤ n → n < daySecs → (n - utcOffset + utcOffset) % daySecs = n :=
    fun n h0 h1 => by rw [Int.sub_add_cancel, Int.emod_eq_of_lt h0 h1]
  have hnone : ∀ now, ((f.sleepDurationSec utcOffset now).toUInt32.toNat : Int) = 0 →
      ¬ (f.arm utcOffset now).AlarmPending (f.daily utcOffset) := fun now h0 hp => by
    obtain ⟨due, halarm, -⟩ := hp rfl
    rw [arm, Hpssix.alarm, if_pos h0] at halarm
    cases halarm
  by_cases hneg : f.seconds < 0
  · refine ⟨f.seconds + daySecs - utcOffset, hnone _ ?_⟩
    have hn := hmod (f.seconds + daySecs) (by omega) (by omega)
    have hday : 0 < daySecs := by decide
    rw [sleepDurationSec_eq, hn, if_pos (by omega)]
    · omega
    · rw [hn, if_pos (by omega)]
      omega
    · exact hhigh
  · by_cases hlt : f.seconds < daySecs
    · refine ⟨f.seconds - utcOffset, hnone _ ?_⟩
      have hn := hmod f.seconds (by omega) hlt
      rw [sleepDurationSec_eq, hn, if_neg (by omega)]
      · omega
      · rw [hn, if_neg (by omega)]
        omega
      · exact hhigh
    · refine ⟨0 - utcOffset, fun hp => ?_⟩
      have hn := hmod 0 (Int.le_refl 0) (by decide)
      have hdur : ((f.sleepDurationSec utcOffset (0 - utcOffset)).toUInt32.toNat : Int) =
          f.seconds := by
        rw [sleepDurationSec_eq, hn, if_neg hneg]
        · omega
        · rw [hn, if_neg hneg]
          omega
        · exact hhigh
      have hday : 0 < daySecs := by decide
      obtain ⟨due, halarm, -, -, -, hle⟩ := hp rfl
      rw [arm, hdur, Hpssix.alarm, if_neg (by omega), Option.some.injEq] at halarm
      have hle' : due - (0 - utcOffset) ≤ daySecs := hle
      omega

end ScheduleFields

/-! ## the schedule of a file -/

/-- What a text comes to: a sign takes up one of the two characters. -/
theorem seconds_readHpssixSchedule (str : Text) :
    -32949 ≤ (readHpssixSchedule str).seconds ∧ (readHpssixSchedule str).seconds ≤ 362439 := by
  have hfixed : ∀ d ∈ scheduleFormat, d.Fixed (1 + 1) := by
    simp [scheduleFormat, Directive.Fixed]
  have hvalue : ∀ i, -9 ≤ (scan scheduleFormat str).1.getD i 0 ∧
      (scan scheduleFormat str).1.getD i 0 ≤ 99 := fun i => by
    rw [List.getD_eq_getElem?_getD]
    cases hi : (scan scheduleFormat str).1[i]? with
    | none => decide
    | some v =>
        have hv := mem_scan_fixed (by decide) hfixed (List.mem_of_getElem? hi)
        simp only [Option.getD_some]
        omega
  have hhour := hvalue 0
  have hmin := hvalue 1
  have hsec := hvalue 2
  simp only [ScheduleFields.seconds, readHpssixSchedule]
  omega

theorem seconds_schedule (file : Option ConfigFile) :
    -32949 ≤ (hpssixConfigReadSysconf file).schedule.seconds ∧
      (hpssixConfigReadSysconf file).schedule.seconds ≤ 362439 := by
  unfold hpssixConfigReadSysconf
  dsimp only
  cases file.bind fun f => (f "hpssix").bind fun g => g.string "schedule" with
  | none => exact ⟨by decide, by decide⟩
  | some str => exact seconds_readHpssixSchedule str

/-- **The daily scan of a configuration**: with the schedule of `hpssix.conf`, whatever the file
says, an alarm for the next daily scan is pending in every wait of every run exactly if hours,
minutes and seconds come to a whole day. -/
theorem always_scheduled_iff (file : Option ConfigFile) (utcOffset : Int) :
    let f := (hpssixConfigReadSysconf file).schedule
    (∀ start events,
        AllSteps (f.step utcOffset) MainLoop.Admitted (f.arm utcOffset start) events →
        (run (f.step utcOffset) (f.arm utcOffset start) events).AlarmPending (f.daily utcOffset)) ↔
      f.tmHour * 3600 + f.tmMin * 60 + f.tmSec = 24 * 60 * 60 := by
  intro f
  obtain ⟨hlow, hhigh⟩ := seconds_schedule file
  constructor
  · intro hall
    by_contra hne
    have hday : -daySecs ≤ f.seconds := Int.le_trans (by decide) hlow
    have hsome : ∃ now, ¬ (f.arm utcOffset now).AlarmPending (f.daily utcOffset) :=
      ScheduleFields.not_alarmPending_arm hday (Int.lt_of_le_of_lt hhigh (by decide)) hne
    obtain ⟨now, hnow⟩ := hsome
    exact hnow (hall now [] trivial)
  · intro hend start events hadmitted
    have harm : ∀ now, (f.arm utcOffset now).AlarmPending (f.daily utcOffset) :=
      ScheduleFields.alarmPending_arm hend
    exact invariant_run (harm start) hadmitted fun l e hl he =>
      ScheduleFields.alarmPending_step harm hl he

/-- A text of three fields with two digits is read as it stands. -/
theorem readHpssixSchedule_text {h m s : Nat} (hh : h < 100) (hm : m < 100) (hs : s < 100) :
    readHpssixSchedule (zeroPad 2 h ++ ':' :: (zeroPad 2 m ++ ':' :: zeroPad 2 s)) =
      ⟨h, m, s⟩ := by
  have hlast : (scan [.d (some 2)] (zeroPad 2 s)).1 = [(s : Int)] := by
    have hscan := scan_two hs [] []
    rw [List.append_nil] at hscan
    rw [hscan]
    rfl
  have hscan : (scan scheduleFormat (zeroPad 2 h ++ ':' :: (zeroPad 2 m ++ ':' :: zeroPad 2 s))).1 =
      [(h : Int), m, s] := by
    rw [scheduleFormat, scan_two hh, scan_lit_self, scan_two hm, scan_lit_self]
    simp only [hlast]
  rw [readHpssixSchedule, hscan]
  rfl

example : (readHpssixSchedule "24:00:00".toList).seconds = 24 * 60 * 60 := by decide +kernel

end Hpssix
