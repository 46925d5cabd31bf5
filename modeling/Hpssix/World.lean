import Hpssix.Base.Trace
import Hpssix.Scanner

/-!
# Hpssix.World

The two parties of the scan protocol together: HPSS, whose clients change the
metadata, and the scanner daemon, whose rounds read it.  A run is a list of
events with the times at which they happen; a round is one event, at the time
of its export, and every step of the round succeeds.

`World.round` is the part of `do_scanner` that a successful round goes
through.  What it does is stated once (`round_eq`), and the master db is tied
to the recorded rounds by the invariant `World.Wf`.
-/

namespace Hpssix

open CText Cursor Fate Lite Rel Trace

/-! ## tag commands -/

/-- `sprintf(xname, "user.%s.%s", tag_prefix, name)`. -/
def tagXname (tagPrefix name : Text) : Text :=
  "user.".toList ++ tagPrefix ++ ".".toList ++ name

/-- `hpssix-tag set`, successful: `setxattr`, then `utime`. -/
def tagCmdSet (site : Site) (now : Nat) (time : UInt64) (o : Oid) (name val : Text) (h : Hpss) :
    Hpss :=
  (h.setxattr o (tagXname site.tagPrefix name) val).touchFileinfo now o time

/-- `hpssix-tag del`, successful: `removexattr`. -/
def tagCmdDel (site : Site) (o : Oid) (name : Text) (h : Hpss) : Hpss :=
  h.removexattr o (tagXname site.tagPrefix name)

/-- A tag command leaves the object table alone. -/
theorem tagCmdSet_objecttable (site : Site) (now : Nat) (time : UInt64) (o : Oid) (name val : Text)
    (h : Hpss) :
    (tagCmdSet site now time o name val h).objecttable = h.objecttable ∧
      (tagCmdSet site now time o name val h).objecttableHistory = h.objecttableHistory := by
  have hset : (h.setxattr o (tagXname site.tagPrefix name) val).objecttable = h.objecttable ∧
      (h.setxattr o (tagXname site.tagPrefix name) val).objecttableHistory =
        h.objecttableHistory := by
    unfold Hpss.setxattr
    split <;> exact ⟨rfl, rfl⟩
  obtain ⟨ht, hh⟩ := touchFileinfo_objecttable now o time
    (h.setxattr o (tagXname site.tagPrefix name) val)
  exact ⟨ht.trans hset.1, hh.trans hset.2⟩

/-! ## events -/

/-- What a round takes from outside: when the scanner reads its start time and
when it launches the script (in microseconds), the other clock readings, and
the counts that the workers reply. -/
structure RoundInput where
  start : Nat
  launch : Nat
  builderStart : UInt64 := 0
  extractorStart : UInt64 := 0
  extractorEnd : UInt64 := 0
  nIndexed : Int32 := 0
  nExtracted : Int32 := 0
deriving DecidableEq

inductive Act where
  | op (o : HpssOp)
  | tagSet (objid : Oid) (name val : Text)
  | tagDel (objid : Oid) (name : Text)
  | round (r : RoundInput)
deriving DecidableEq

/-- Something that happens, and when (in microseconds). -/
structure Event where
  time : Nat
  act : Act
deriving DecidableEq

/-- A recorded round: when it started and when it exported, what the script was
called with, and what it exported. -/
structure Round where
  start : Nat
  time : Nat
  args : UInt64 × Int
  files : ScanFiles
deriving DecidableEq

/-- The clock, the metadata, the master db, and the rounds recorded in it. -/
structure World where
  now : Nat := 0
  hpss : Hpss := {}
  mdb : List MdbRow := []
  rounds : List Round := []
deriving DecidableEq

/-- `time(NULL)`. -/
def secs (t : Nat) : UInt64 := UInt64.ofNat (t / 1000000)

namespace World

variable (site : Site)

/-- What the daemon passes to the script in a round launched now. -/
def scanArgs (w : World) (r : RoundInput) : UInt64 × Int :=
  Hpssix.scanArgs site (secs r.launch) (lastStatus w.mdb)

/-- What a round exports now. -/
def scan (w : World) (r : RoundInput) : ScanFiles :=
  scanFiles site (w.scanArgs site r).1.toNat (w.scanArgs site r).2 w.hpss

/-- The status with everything that `do_scanner` sets after the scan. -/
def finish (r : RoundInput) (status : WorkStatus) : WorkStatus :=
  { status with
    builderStart := r.builderStart
    extractorStart := r.extractorStart
    nIndexed := r.nIndexed.toInt64.toUInt64
    extractorEnd := r.extractorEnd
    nExtracted := r.nExtracted.toInt64.toUInt64
    status := 0 }

/-- A successful round: scan, stop if nothing was scanned, otherwise build,
extract and record. -/
def round (w : World) (time : Nat) (r : RoundInput) : World :=
  match launchScannerProcess site (answer (sqlLastStatus w.mdb)) (secs r.launch)
      (runScript site w.hpss) { id := secs r.start, scannerStart := secs r.start } with
  | .done (0, status) =>
    if status.nScanned + status.nDeleted = 0 then w
    else
      { w with
        mdb := sqlRecord (finish r status) w.mdb
        rounds := w.rounds ++ [⟨r.start, time, w.scanArgs site r, w.scan site r⟩] }
  | _ => w

/-- One event. -/
def step (w : World) (e : Event) : World :=
  match e.act with
  | .op o => { w with now := e.time, hpss := hpssStep e.time o w.hpss }
  | .tagSet o name val =>
    { w with now := e.time, hpss := tagCmdSet site e.time (secs e.time) o name val w.hpss }
  | .tagDel o name => { w with now := e.time, hpss := tagCmdDel site o name w.hpss }
  | .round r => { w with now := e.time }.round site e.time r

/-- The object id that the next scan starts after. -/
def watermark (w : World) : UInt64 :=
  if (lastStatus w.mdb).1 = 0 then UInt64.ofNat site.firstOid.val else (lastStatus w.mdb).1

/-- The clock runs: every event is later than the one before, a round starts,
is launched and exports in this order, and times fit `time_t`. -/
def WellTimed (w : World) (e : Event) : Prop :=
  w.now < e.time ∧ e.time < 2 ^ 63 * 1000000 ∧
    match e.act with
    | .round r => r.start ≤ r.launch ∧ r.launch ≤ e.time
    | _ => True

instance (w : World) (e : Event) : Decidable (WellTimed w e) :=
  match e with
  | ⟨_, .round _⟩ => inferInstanceAs (Decidable (_ ∧ _ ∧ _ ∧ _))
  | ⟨_, .op _⟩ | ⟨_, .tagSet ..⟩ | ⟨_, .tagDel ..⟩ =>
    inferInstanceAs (Decidable (_ ∧ _ ∧ True))

/-! ## what a round does -/

/-- The round finds something to build, so that it is recorded. -/
def Recorded (w : World) (r : RoundInput) : Prop :=
  (w.scan site r).fattr ≠ [] ∨ (w.scan site r).deleted ≠ []

instance (w : World) (r : RoundInput) : Decidable (w.Recorded site r) :=
  inferInstanceAs (Decidable (_ ∨ _))

/-- What is recorded. -/
def recordStatus (w : World) (r : RoundInput) : WorkStatus :=
  finish r (scannedStatus (w.scanArgs site r).1.toNat (w.scan site r)
    { id := secs r.start, scannerStart := secs r.start })

/-- The world after a recorded round. -/
def record (w : World) (time : Nat) (r : RoundInput) : World :=
  { w with
    mdb := sqlRecord (w.recordStatus site r) w.mdb
    rounds := w.rounds ++ [⟨r.start, time, w.scanArgs site r, w.scan site r⟩] }

variable {site} {w : World} {e : Event} {r : RoundInput} {time : Nat}

theorem ofNat_add_eq_zero {m n : Nat} (h : m + n < 2 ^ 64) :
    UInt64.ofNat m + UInt64.ofNat n = 0 ↔ m = 0 ∧ n = 0 := by
  rw [← UInt64.ofNat_add, ← UInt64.toNat_inj, UInt64.toNat_ofNat_of_lt' h]
  simp

/-- **A round**: it is recorded if it exported anything, and otherwise changes
nothing. -/
theorem round_eq (hw : w.hpss.Wf) (ht : IdSorted MdbRow.id w.mdb) :
    w.round site time r = if w.Recorded site r then w.record site time r else w := by
  have hlen : (w.scan site r).fattr.length + (w.scan site r).deleted.length < 2 ^ 64 :=
    Nat.lt_of_le_of_lt (length_fattr_add_length_deleted hw) (by decide)
  have hcount : (scannedStatus (w.scanArgs site r).1.toNat (w.scan site r)
        { id := secs r.start, scannerStart := secs r.start }).nScanned +
      (scannedStatus (w.scanArgs site r).1.toNat (w.scan site r)
        { id := secs r.start, scannerStart := secs r.start }).nDeleted = 0 ↔
      ¬ w.Recorded site r := by
    simp only [scannedStatus, ofNat_add_eq_zero hlen, List.length_eq_zero_iff, Recorded]
    tauto
  rw [round, launchScannerProcess_scan site hw ht]
  by_cases hrec : w.Recorded site r
  · rw [if_pos hrec]
    exact if_neg fun h => hcount.mp h hrec
  · rw [if_neg hrec]
    exact if_pos (hcount.mpr hrec)

/-! ## the invariant -/

/-- The namespace is a tree, the master db's ids grow, and its rows are the
recorded rounds. -/
structure Wf (w : World) : Prop where
  hpss : w.hpss.Wf
  ids : IdSorted MdbRow.id w.mdb
  log : (finished w.mdb).map (fun r => (r.oidEnd, r.scannerStart)) =
    w.rounds.map fun r => (bindInt64 (endOid r.files.fattr), bindInt64 (secs r.start))

theorem wf_init : Wf {} where
  hpss := Hpss.wf_empty
  ids := idSorted_nil _
  log := rfl

theorem wf_record (hw : w.Wf) : (w.record site time r).Wf where
  hpss := hw.hpss
  ids := idSorted_sqlRecord hw.ids _
  log := by
    have hstatus : (w.recordStatus site r).status = 0 := rfl
    simp only [record, finished_sqlRecord hstatus, List.map_append, hw.log]
    rfl

/-- The steps of the two parties. -/
inductive Stepped (site : Site) (w : World) (e : Event) : World → Prop
  /-- HPSS changes; the scanner does nothing. -/
  | hpss (h : Hpss) (op : HpssOp) (ha : ∀ r, e.act ≠ .round r)
      (hop : ∀ d p name, op = .rename d p name → e.act = .op op) (he : TableEdit e.time op w.hpss h) :
      Stepped site w e { w with now := e.time, hpss := h }
  /-- A round that exports something. -/
  | recorded (r : RoundInput) (ha : e.act = .round r) (hr : w.Recorded site r) :
      Stepped site w e { w.record site e.time r with now := e.time }
  /-- A round without anything to export. -/
  | idle (r : RoundInput) (ha : e.act = .round r) (hr : ¬ w.Recorded site r) :
      Stepped site w e { w with now := e.time }

/-- Every event is one of these steps. -/
theorem stepped (hw : w.Wf) : Stepped site w e (w.step site e) := by
  unfold step
  cases hact : e.act with
  | op o => exact .hpss _ o (by simp [hact]) (by simp [hact]) (tableEdit_hpssStep ..)
  | tagSet o name val =>
      obtain ⟨ht, hh⟩ := tagCmdSet_objecttable site e.time (secs e.time) o name val w.hpss
      exact .hpss _ (.utime o 0) (by simp [hact]) (by simp [hact]) (.none ht hh)
  | tagDel o name => exact .hpss _ (.utime o 0) (by simp [hact]) (by simp [hact]) (.none rfl rfl)
  | round r =>
      show Stepped site w e (round site { w with now := e.time } e.time r)
      rw [round_eq (w := { w with now := e.time }) hw.hpss hw.ids]
      split
      · next hr => exact .recorded r hact hr
      · next hr => exact .idle r hact hr

/-- Every event keeps the invariant. -/
theorem wf_step (hw : w.Wf) : (w.step site e).Wf := by
  have hstep : Stepped site w e (w.step site e) := stepped hw
  generalize w.step site e = w' at hstep ⊢
  cases hstep with
  | hpss h op _ _ he => exact { hw with hpss := he.wf hw.hpss }
  | recorded r _ _ => exact { wf_record hw with }
  | idle r _ _ => exact { hw with }

/-- Every reachable world is well formed. -/
theorem wf_run (es : List Event) : (run (step site) {} es).Wf :=
  invariant_run_all es wf_init fun _ _ hw => wf_step hw

/-- The last row of the master db is the last recorded round. -/
theorem lastStatus_eq (hw : w.Wf) : lastStatus w.mdb =
    match w.rounds.getLast? with
    | some q => (endOid q.files.fattr, secs q.start)
    | none => (0, 0) := by
  have hlog := congrArg List.getLast? hw.log
  rw [List.getLast?_map, List.getLast?_map] at hlog
  unfold lastStatus
  cases hq : w.rounds.getLast? with
  | none =>
      rw [hq, Option.map_none, Option.map_eq_none_iff] at hlog
      rw [hlog]
  | some q =>
      rw [hq, Option.map_some, Option.map_eq_some_iff] at hlog
      obtain ⟨row, hrow, hpair⟩ := hlog
      rw [Prod.mk.injEq] at hpair
      simp [hrow, hpair.1, hpair.2]

theorem toNat_secs {t : Nat} (h : t < 2 ^ 63 * 1000000) : (secs t).toNat = t / 1000000 := by
  have hn : t / 1000000 < 2 ^ 63 := Nat.div_lt_of_lt_mul (Nat.mul_comm _ _ ▸ h)
  exact UInt64.toNat_ofNat_of_lt' (hn.trans (by decide))

/-- "From the previous day": 24 hours before a time, in seconds. -/
theorem toInt_secs_sub {t : Nat} (h : t < 2 ^ 63 * 1000000) :
    (secs t - 60 * 60 * 24).toInt64.toInt = ((t / 1000000 : Nat) : Int) - 86400 := by
  have hn : (secs t).toNat < 2 ^ 63 := by
    rw [toNat_secs h]
    exact Nat.div_lt_of_lt_mul (Nat.mul_comm _ _ ▸ h)
  have hsub := bindInt64_sub (y := 60 * 60 * 24) hn (by decide)
  rw [toNat_secs h] at hsub
  exact hsub

theorem scanArgs_fst : (w.scanArgs site r).1 = w.watermark site := by
  simp only [scanArgs, Hpssix.scanArgs, watermark]
  split <;> rfl

/-! ## the clock -/

/-- The recorded rounds lie in the past, and the clock fits `time_t`. -/
structure Timed (w : World) : Prop where
  wf : w.Wf
  rounds : ∀ q ∈ w.rounds, q.start ≤ q.time ∧ q.time ≤ w.now
  now : w.now < 2 ^ 63 * 1000000

/-- The times are in order at first. -/
theorem timed_init : Timed {} where
  wf := wf_init
  rounds := fun q hq => absurd hq List.not_mem_nil
  now := by decide

/-- Every well-timed event keeps them so. -/
theorem timed_step (ht : Timed w) (he : WellTimed w e) : Timed (w.step site e) := by
  have hwf : (w.step site e).Wf := wf_step ht.wf
  have hstep : Stepped site w e (w.step site e) := stepped ht.wf
  generalize w.step site e = w' at hstep hwf ⊢
  obtain ⟨hnow, hlt, hround⟩ := he
  have hold : ∀ q ∈ w.rounds, q.start ≤ q.time ∧ q.time ≤ e.time := fun q hq =>
    ⟨(ht.rounds q hq).1, Nat.le_of_lt (Nat.lt_of_le_of_lt (ht.rounds q hq).2 hnow)⟩
  cases hstep with
  | hpss h op _ _ _ => exact ⟨hwf, hold, hlt⟩
  | idle r _ _ => exact ⟨hwf, hold, hlt⟩
  | recorded r hact _ =>
      rw [hact] at hround
      refine ⟨hwf, fun q hq => ?_, hlt⟩
      obtain hq | hq := List.mem_append.mp hq
      · exact hold q hq
      · rw [List.mem_singleton.mp hq]
        exact ⟨Nat.le_trans hround.1 hround.2, Nat.le_refl _⟩

end World

/-! ## small runs -/

/-- A site in UTC. -/
def utcSite (firstOid : Oid) : Site := ⟨firstOid, "tag".toList, .utc, true⟩

/-- Noon of the `n`-th day, in microseconds. -/
def dayTime (n : Nat) : Nat := n * 86400000000 + 43200000000

/-- A file or directory created on a day. -/
def createOn (day : Nat) (o parent : Oid) (name : String) : Event :=
  ⟨dayTime day, .op (.create { objid := o, parentId := parent, name := name.toList } none)⟩

/-- A deletion on a day. -/
def deleteOn (day : Nat) (o : Oid) : Event := ⟨dayTime day, .op (.delete o)⟩

/-- A round on a day. -/
def roundOn (day : Nat) : Event :=
  ⟨dayTime day, .round { start := dayTime day, launch := dayTime day }⟩

end Hpssix
