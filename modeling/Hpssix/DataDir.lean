import Hpssix.Base.CText

/-!
# Hpssix.DataDir

Where the files of a task are (`libhpssix/src/hpssix-utils.c`).  Every daemon
takes the directory of the day that its own clock shows when it gets to the
task, so the daemons agree if it is the same day for all of them.
-/

namespace Hpssix

open CText

/-- The date in a `struct tm`. -/
structure Tm where
  year : Nat
  mon : Nat
  mday : Nat
  monLt : mon < 12
  mdayLt : mday < 32
deriving DecidableEq

/-- `dirname_today`. -/
def dirnameToday (workRoot : Text) (now : Tm) : Text :=
  workRoot ++ "/data/".toList ++ decimal now.year ++
    '/' :: (decimal now.year ++ zeroPad 2 (now.mon + 1) ++ zeroPad 2 now.mday)

/-- The exports of the scan script: `${outdir}/scanner.${ts}.fattr.csv` and so on. -/
def scannerFile (datadir : Text) (task : UInt64) (kind : Text) : Text :=
  datadir ++ "/scanner.".toList ++ decimal task.toNat ++ ".".toList ++ kind ++ ".csv".toList

/-- The four exports. -/
def scannerKinds : List Text :=
  ["fattr".toList, "path".toList, "xattr".toList, "deleted".toList]

/-- The workdata file. -/
def builderOutput (datadir : Text) (task : UInt64) : Text :=
  datadir ++ "/builder.".toList ++ decimal task.toNat ++ ".db".toList

/-- The times at which the daemons take the directory in one round. -/
structure RoundTimes where
  scanner : Int
  builder : Int
  extractor : Int

/-- The builder reads the exports that the script writes, and the extractor opens
the workdata that the builder writes. -/
def PathsAgree (workRoot : Text) (localtime : Int → Tm) (task : UInt64) (t : RoundTimes) : Prop :=
  (∀ kind ∈ scannerKinds,
    scannerFile (dirnameToday workRoot (localtime t.scanner)) task kind =
      scannerFile (dirnameToday workRoot (localtime t.builder)) task kind) ∧
    builderOutput (dirnameToday workRoot (localtime t.builder)) task =
      builderOutput (dirnameToday workRoot (localtime t.extractor)) task

/-- A day has its own directory. -/
theorem dirnameToday_inj {workRoot : Text} {d d' : Tm} :
    dirnameToday workRoot d = dirnameToday workRoot d' ↔ d = d' := by
  refine ⟨fun h => ?_, fun h => by rw [h]⟩
  have htake : ∀ (n : Nat) (rest : Text),
      (decimal n ++ '/' :: rest).takeWhile (isDigitOf 10) = decimal n := fun n rest =>
    takeWhile_decimal_append n (by rintro c ⟨⟩; rfl)
  simp only [dirnameToday, List.append_assoc, List.append_cancel_left_eq] at h
  have hyear : d.year = d'.year := by
    have hdigits := congrArg (List.takeWhile (isDigitOf 10)) h
    rwa [htake, htake, decimal_inj] at hdigits
  rw [hyear, List.append_cancel_left_eq, List.cons_inj_right, List.append_cancel_left_eq] at h
  have hlen : ∀ d : Tm, (zeroPad 2 (d.mon + 1)).length = 2 := fun d =>
    length_zeroPad (by decide) (Nat.lt_trans (Nat.succ_lt_succ d.monLt) (by decide))
  obtain ⟨hmon, hday⟩ := List.append_inj h ((hlen d).trans (hlen d').symm)
  have hmon' : d.mon + 1 = d'.mon + 1 := by simpa using congrArg (digitsVal 10) hmon
  have hday' : d.mday = d'.mday := by simpa using congrArg (digitsVal 10) hday
  cases d
  cases d'
  simp_all

theorem scannerFile_inj {dir dir' kind : Text} {task : UInt64} :
    scannerFile dir task kind = scannerFile dir' task kind ↔ dir = dir' := by
  simp [scannerFile]

theorem builderOutput_inj {dir dir' : Text} {task : UInt64} :
    builderOutput dir task = builderOutput dir' task ↔ dir = dir' := by
  simp [builderOutput]

/-- **The task's directory**: the daemons agree exactly if the date is the same when
each of them takes the directory. -/
theorem paths_agree_iff (workRoot : Text) (localtime : Int → Tm) (task : UInt64) (t : RoundTimes) :
    PathsAgree workRoot localtime task t ↔
      localtime t.scanner = localtime t.builder ∧ localtime t.builder = localtime t.extractor := by
  unfold PathsAgree
  simp only [scannerFile_inj, builderOutput_inj, dirnameToday_inj]
  exact and_congr_left fun _ => ⟨fun h => h _ List.mem_cons_self, fun h _ _ => h⟩

/-- `localtime` of a zone without offset, from the epoch on: days are counted in
eras of 400 years that begin on the first of March. -/
def utcTime (t : Int) : Tm :=
  let days := (t / 86400).toNat + 719468
  let dayOfEra := days % 146097
  let yearOfEra := (dayOfEra - dayOfEra / 1460 + dayOfEra / 36524 - dayOfEra / 146096) / 365
  let dayOfYear := dayOfEra - (365 * yearOfEra + yearOfEra / 4 - yearOfEra / 100)
  let fromMarch := (5 * dayOfYear + 2) / 153
  let mon := (fromMarch + 2) % 12
  { year := yearOfEra + days / 146097 * 400 + if mon < 2 then 1 else 0
    mon
    mday := (dayOfYear - (153 * fromMarch + 2) / 5 + 1) % 32
    monLt := Nat.mod_lt _ (by decide)
    mdayLt := Nat.mod_lt _ (by decide) }

example : utcTime 1540559332 = ⟨2018, 9, 26, by decide, by decide⟩ := by decide

/-- The builder gets its request two seconds later, on the next day. -/
def midnightRound : RoundTimes := ⟨1540598399, 1540598401, 1540598401⟩

theorem paths_differ_at_midnight : ¬ ∀ (workRoot : Text) (localtime : Int → Tm) (task : UInt64)
    (t : RoundTimes), t.scanner ≤ t.builder → t.builder ≤ t.extractor →
      PathsAgree workRoot localtime task t := by
  intro h
  obtain ⟨hscan, _⟩ := h ['/'] utcTime 1540598399 midnightRound (by decide) (by decide)
  have hdir := scannerFile_inj.mp (hscan _ List.mem_cons_self)
  exact absurd (dirnameToday_inj.mp hdir) (by decide)

end Hpssix
