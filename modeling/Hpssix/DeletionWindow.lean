import Hpssix.World

/-!
# Hpssix.DeletionWindow

The date from which a scan looks at the history tables, over whole runs.

* `fromdate_le_iff` — the date reaches back to the day of the previous
  recorded round, unless that round recorded the object id 0 and so looks like
  no round at all;
* `deletions_covered_iff` — a run in which the date always reaches back, and
  every later deletion is exported, is one whose rounds meet `WindowReaches`.
-/

namespace Hpssix

open CText Lite Rel Trace

/-- The start of a recorded round, in seconds. -/
def Round.startSecs (q : Round) : Int := (q.start / 1000000 : Nat)

namespace World

variable (site : Site)

/-- The date passed to the script is not later than the day of the previous
recorded round's start. -/
def FromdateOk (w : World) (e : Event) : Prop :=
  match e.act with
  | .round r => ∀ q, w.rounds.getLast? = some q →
      (w.scanArgs site r).2 ≤ site.calendar.day q.startSecs
  | _ => True

/-- The previous recorded round has an object id, or the day before the launch
is not after the day of that round. -/
def WindowReaches (w : World) (e : Event) : Prop :=
  match e.act with
  | .round r => ∀ q, w.rounds.getLast? = some q → endOid q.files.fattr ≠ 0 ∨
      site.calendar.day ((r.launch / 1000000 : Nat) - 86400) ≤ site.calendar.day q.startSecs
  | _ => True

/-- An object is deleted after a round was recorded; then no round starts until
one does, after the deletion: it lists the object. -/
def DeletionsCovered (es : List Event) : Prop :=
  ∀ pre mid post τ o t r,
    es = pre ++ ⟨τ, .op (.delete o)⟩ :: (mid ++ ⟨t, .round r⟩ :: post) →
    (run (step site) {} pre).hpss.CanDelete o → (run (step site) {} pre).rounds ≠ [] →
    (∀ e ∈ mid, ∀ r', e.act = .round r' → r'.start < τ) → τ ≤ r.start →
    o ∈ ((run (step site) {} (pre ++ ⟨τ, .op (.delete o)⟩ :: mid)).scan site r).deleted

variable {site} {w : World} {e : Event} {r : RoundInput} {q : Round}

/-! ## the date -/

/-- The date, from the last recorded round. -/
theorem scanArgs_snd (ht : Timed w) (hq : w.rounds.getLast? = some q)
    (hr : r.launch < 2 ^ 63 * 1000000) : (w.scanArgs site r).2 =
      if endOid q.files.fattr = 0 then site.calendar.day ((r.launch / 1000000 : Nat) - 86400)
      else site.calendar.day (q.startSecs - 86400) := by
  have hmem := List.mem_of_getLast? hq
  have hstart : q.start < 2 ^ 63 * 1000000 := by
    have := ht.rounds q hmem
    have := ht.now
    omega
  simp only [scanArgs, Hpssix.scanArgs, lastStatus_eq ht.wf, hq]
  split
  · rw [toInt_secs_sub hr]
  · rw [toInt_secs_sub hstart, Round.startSecs]

/-- One round's date reaches back exactly if the window does. -/
theorem fromdate_le_iff (ht : Timed w) (he : WellTimed w e) :
    FromdateOk site w e ↔ WindowReaches site w e := by
  unfold FromdateOk WindowReaches
  obtain ⟨_, hlt, hround⟩ := he
  split
  · next r hact =>
      rw [hact] at hround
      have hlaunch : r.launch < 2 ^ 63 * 1000000 := Nat.lt_of_le_of_lt hround.2 hlt
      refine forall_congr' fun q => forall_congr' fun hq => ?_
      rw [scanArgs_snd ht hq hlaunch]
      split
      · next h => simp [h]
      · next h =>
          have hday : site.calendar.day (q.startSecs - 86400) ≤ site.calendar.day q.startSecs :=
            site.calendar.day_mono (by omega)
          simp [h, hday]
  · exact Iff.rfl

/-! ## what a reaching date selects -/

/-- A history row later than the start of the last recorded round is inside the
window of a round whose date reaches back. -/
theorem after_of_fromdate {fromdate : Int} (hd : fromdate ≤ site.calendar.day q.startSecs)
    {τ : Nat} (hτ : q.start < τ) : site.after fromdate τ := by
  have hmid := (site.calendar.midnight_mono hd).trans (site.calendar.midnight_day_le q.startSecs)
  have hstart : q.startSecs * 1000000 ≤ q.start := by
    rw [Round.startSecs]
    omega
  unfold Site.after
  omega

/-- The state after a deletion: the object is gone, its history row is there,
and every recorded round started before. -/
structure DeletedAt (τ : Nat) (o : Oid) (w : World) : Prop where
  wf : w.Wf
  row : ⟨o, τ⟩ ∈ w.hpss.objecttableHistory
  gone : o ∉ w.hpss.oids
  rounds : ∀ q ∈ w.rounds, q.start < τ
  some : w.rounds ≠ []

/-- The event is no round that starts from the deletion on. -/
def StartsBefore (τ : Nat) (e : Event) : Prop := ∀ r, e.act = .round r → r.start < τ

theorem deletedAt_step {τ : Nat} {o : Oid} (h : DeletedAt τ o w) (he : StartsBefore τ e) :
    DeletedAt τ o (w.step site e) := by
  have hwf : (w.step site e).Wf := wf_step h.wf
  have hstep : Stepped site w e (w.step site e) := stepped h.wf
  generalize w.step site e = w' at hstep hwf ⊢
  cases hstep with
  | hpss h' op _ _ hedit =>
      refine ⟨hwf, hedit.mem_history h.row, fun ho => ?_, h.rounds, h.some⟩
      obtain hold | hnew := hedit.appears ho
      · exact h.gone hold
      · exact hnew (List.mem_map.mpr ⟨⟨o, τ⟩, h.row, rfl⟩)
  | idle r _ _ => exact ⟨hwf, h.row, h.gone, h.rounds, h.some⟩
  | recorded r hact _ =>
      refine ⟨hwf, h.row, h.gone, fun q hq => ?_, by simp [record]⟩
      obtain hq | hq := List.mem_append.mp hq
      · exact h.rounds q hq
      · rw [List.mem_singleton.mp hq]
        exact he r hact

/-- A deletion that takes effect. -/
theorem deletedAt_delete {τ : Nat} {o : Oid} (ht : Timed w) (hτ : w.now < τ)
    (hd : w.hpss.CanDelete o) (hsome : w.rounds ≠ []) :
    DeletedAt τ o (w.step site ⟨τ, .op (.delete o)⟩) where
  wf := wf_step ht.wf
  row := by simp [step, hpssStep, hd]
  gone := by simp [step, hpssStep, hd, Hpss.oids]
  rounds := fun q hq => by
    have := ht.rounds q hq
    omega
  some := hsome

/-- A round that starts after a deletion, with a date that reaches back, lists
it. -/
theorem mem_deleted_of_fromdate {τ : Nat} {o : Oid} (h : DeletedAt τ o w)
    (hf : ∀ q, w.rounds.getLast? = some q →
      (w.scanArgs site r).2 ≤ site.calendar.day q.startSecs) :
    o ∈ (w.scan site r).deleted := by
  obtain ⟨q, hq⟩ := Option.isSome_iff_exists.mp (List.getLast?_isSome.mpr h.some)
  have hstart := h.rounds q (List.mem_of_getLast? hq)
  exact mem_deleted.mpr ⟨⟨⟨o, τ⟩, h.row, after_of_fromdate (hf q hq) hstart, rfl⟩, h.gone⟩

/-- **Deletion coverage**: in a well-timed run, the dates always reach back to
the previous recorded round and every deletion after the first recorded round
is exported by the first round that starts after it, exactly if every round
meets `WindowReaches`. -/
theorem deletions_covered_iff (site : Site) (es : List Event)
    (ht : AllSteps (step site) WellTimed {} es) :
    (AllSteps (step site) (FromdateOk site) {} es ∧ DeletionsCovered site es) ↔
      AllSteps (step site) (WindowReaches site) {} es := by
  have htimed : ∀ pre, pre <+: es → Timed (run (step site) {} pre) := fun pre hpre =>
    invariant_at timed_init ht (fun w e => timed_step) hpre
  have hiff : AllSteps (step site) (FromdateOk site) {} es ↔
      AllSteps (step site) (WindowReaches site) {} es := by
    simp only [allSteps_iff] at ht ⊢
    refine forall_congr' fun pre => forall_congr' fun e => forall_congr' fun post =>
      forall_congr' fun hes => ?_
    exact fromdate_le_iff (htimed pre ⟨_, hes.symm⟩) (ht pre e post hes)
  refine ⟨fun h => hiff.mp h.1, fun h => ⟨hiff.mpr h, ?_⟩⟩
  intro pre mid post τ o t r hes hdel hsome hmid _
  have hstep := allSteps_iff.mp ht pre _ _ hes
  have hdeleted : DeletedAt τ o ((run (step site) {} pre).step site ⟨τ, .op (.delete o)⟩) :=
    deletedAt_delete (htimed pre ⟨_, hes.symm⟩) hstep.1 hdel hsome
  have hmid' : DeletedAt τ o (run (step site) {} (pre ++ ⟨τ, .op (.delete o)⟩ :: mid)) := by
    rw [run_append, run_cons]
    refine invariant_run (P := fun _ e => StartsBefore τ e) hdeleted ?_ fun w e =>
      deletedAt_step
    exact allSteps_iff.mpr fun pre' e post' he => hmid e (by rw [he]; simp)
  have hround := allSteps_iff.mp (hiff.mpr h) (pre ++ ⟨τ, .op (.delete o)⟩ :: mid)
    ⟨t, .round r⟩ post (by rw [hes]; simp)
  exact mem_deleted_of_fromdate hmid' hround

/-- A first round that exports only a deletion records the object id 0; then
object 5 is deleted, and the next round comes two weeks later. -/
def blankRoundRun : List Event :=
  [createOn 1 (.of 5) rootOid "a", createOn 3 (.of 12) rootOid "b", deleteOn 4 (.of 12), roundOn 5,
    deleteOn 6 (.of 5), roundOn 20]

/-- The second round of that run takes its date from the clock, and the deletion
of object 5 is never exported. -/
theorem deletion_missed : ¬ ∀ (site : Site) (es : List Event),
    AllSteps (step site) WellTimed {} es →
      AllSteps (step site) (FromdateOk site) {} es ∧ DeletionsCovered site es := by
  intro h
  have hcov := (h (utcSite (.of 10)) blankRoundRun (by decide)).2
  have hmem := hcov (blankRoundRun.take 4) [] [] (dayTime 6) (.of 5) (dayTime 20)
    { start := dayTime 20, launch := dayTime 20 } rfl (by decide) (by decide)
    (fun e he => absurd he List.not_mem_nil) (by decide)
  exact absurd hmem (by decide)

/-- A run whose first round exports an object. -/
def deletedLaterRun : List Event :=
  [createOn 1 (.of 5) rootOid "a", createOn 3 (.of 12) rootOid "b", roundOn 5, deleteOn 6 (.of 5),
    roundOn 20]

theorem deletions_covered_iff_deletedLaterRun :
    AllSteps (step (utcSite (.of 10))) WellTimed {} deletedLaterRun ∧
      ((AllSteps (step (utcSite (.of 10))) (FromdateOk (utcSite (.of 10))) {} deletedLaterRun ∧
          DeletionsCovered (utcSite (.of 10)) deletedLaterRun) ↔
        AllSteps (step (utcSite (.of 10))) (WindowReaches (utcSite (.of 10))) {}
          deletedLaterRun) :=
  ⟨by decide, deletions_covered_iff _ _ (by decide)⟩

end World

end Hpssix
