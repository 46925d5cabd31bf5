import Hpssix.RunCalls

/-!
# Hpssix.WorkerExclusion

What the three daemons keep up together although each of them can die at any time.

The scanner forgets a call only by dying, and a new scanner process sends nothing
before both workers have connected to it, which a worker does once in its life.  So
a run request of an earlier scanner process is gone before the next one is sent.

* `one_worker_at_a_time` — at most one worker process runs, as long as no daemon dies
  under its process;
* `nothing_recorded_until_restarted` — once the scanner has died, each worker has to
  be started anew before anything is recorded.
-/

namespace Hpssix

open Cursor Trace

namespace Protocol

variable {site : Site}

namespace System

variable (σ : System)

/-- The process that runs under a worker's daemon. -/
def child (k : WorkerId) : Option Worker := (σ.worker k).bind WorkerDaemon.child

/-- The worker processes that run. -/
def children : Nat :=
  σ.orphans.length + (σ.child .builder).toList.length + (σ.child .extractor).toList.length

/-- The run requests that no worker has answered. -/
def pending : Nat := (σ.runs .builder).length + (σ.runs .extractor).length

/-- A worker that has a process has a call. -/
theorem length_child_le (k : WorkerId) : (σ.child k).toList.length ≤ (σ.runs k).length := by
  unfold child runs
  cases σ.worker k with
  | none => simp
  | some w =>
      cases hs : w.serving with
      | none => simp [WorkerDaemon.child, hs]
      | some s =>
          have : (s.child).toList.length ≤ 1 := by cases s.child <;> simp
          simp only [Option.bind_some, WorkerDaemon.child, hs, Option.elim_some, WorkerDaemon.runs,
            Option.map_some, Option.toList_some, List.length_append, List.length_singleton]
          omega

end System

/-- A worker that connects has only requests of the scanner process that it connects
to. -/
def ConnectsFresh (σ : System) : Event → Prop
  | .connect k => ∀ c ∈ σ.runs k, c.epoch = σ.epoch
  | _ => True

/-- No worker daemon dies under its process, and workers connect without requests of
earlier scanner processes. -/
def Orderly (site : Site) (σ : System) (e : Event) : Prop :=
  (∀ k, (σ.child k).isSome = true → ((step site σ e).worker k).isSome = true) ∧ ConnectsFresh σ e

instance (σ : System) : (e : Event) → Decidable (ConnectsFresh σ e)
  | .connect k => inferInstanceAs (Decidable (∀ c ∈ σ.runs k, c.epoch = σ.epoch))
  | .startScanner | .killScanner | .startWorker _ | .killWorker _ | .accept _ | .scan _
  | .scanned _ _ | .serve _ _ _ | .finish _ | .receive _ _ _ _ | .callFails | .stop _ | .stopped _
  | .orphanEnds _ => isTrue trivial

instance (P : WorkerId → Prop) [DecidablePred P] : Decidable (∀ k, P k) :=
  decidable_of_iff (P .builder ∧ P .extractor)
    ⟨fun h k => by cases k with | builder => exact h.1 | extractor => exact h.2,
      fun h => ⟨h .builder, h .extractor⟩⟩

instance (site : Site) (σ : System) (e : Event) : Decidable (Orderly site σ e) :=
  inferInstanceAs (Decidable (_ ∧ _))

/-! ## what is on the way to the scanner -/

/-- What is sent to the scanner goes to a process that has been started. -/
def Sent (σ : System) : Prop := ∀ x ∈ σ.connects, x.2 ≤ σ.epoch

/-- Every change keeps that what is sent goes to a process that was started. -/
theorem sent_change {σ σ' : System} {e : Event} (h : Sent σ) (hc : Change site σ e σ') :
    Sent σ' := by
  cases hc with
  | scannerStarts hnone => exact fun x hx => Nat.le_succ_of_le (h x hx)
  | connects k hw hconn =>
      intro x hx
      rcases List.mem_append.mp hx with hx | hx
      · exact h x hx
      · rw [List.mem_singleton.mp hx]
        exact Nat.le_refl σ.epoch
  | accepts i hp hk => exact fun x hx => h x (List.mem_of_mem_eraseIdx hx)
  | drops i => exact fun x hx => h x (List.mem_of_mem_eraseIdx hx)
  | _ => exact h

/-- So does every run. -/
theorem sent_run (es : List Event) : Sent (run (step site) {} es) :=
  invariant_run_all es (fun _ hx => nomatch hx) fun σ e h => sent_change h (change site σ e)

/-! ## one worker process at a time -/

/-- At most one run request is pending; one of the living scanner process is what it
waits for, and where a worker is marked there are no others. -/
structure Exclusive (σ : System) : Prop where
  orphans : σ.orphans = []
  one : σ.pending ≤ 1
  connected : ∀ x ∈ σ.connects, x.2 ≤ σ.epoch
  connecting : ∀ k, (k, σ.epoch) ∈ σ.connects → ∀ c ∈ σ.runs k, c.epoch = σ.epoch
  marked : ∀ p, σ.scanner = some p → ∀ k, p.running k = true → ∀ c ∈ σ.runs k, c.epoch = σ.epoch
  waited : ∀ p, σ.scanner = some p → ∀ k, ∀ c ∈ σ.runs k, c.epoch = σ.epoch →
    p.phase.calling = some (k, c)
  ready : ∀ p, σ.scanner = some p → p.phase.InRound → ∀ k, p.running k = true

/-- No process runs at first. -/
theorem exclusive_init : Exclusive {} where
  orphans := rfl
  one := by simp [System.pending, System.runs]
  connected x hx := nomatch hx
  connecting k hk := nomatch hk
  marked p hp := nomatch hp
  waited p hp := nomatch hp
  ready p hp := nomatch hp

section Step
variable {σ σ' : System}

/-- A step that takes up or drops requests and leaves the scanner's thread alone. -/
theorem Exclusive.mono (h : Exclusive σ) (hruns : ∀ k, (σ'.runs k).Subperm (σ.runs k))
    (hepoch : σ'.epoch = σ.epoch) (hconnects : σ'.connects ⊆ σ.connects)
    (hscanner : ∀ p', σ'.scanner = some p' → ∃ p, σ.scanner = some p ∧ p.running = p'.running ∧
      p.phase = p'.phase)
    (horphans : σ'.orphans = []) : Exclusive σ' where
  orphans := horphans
  one := by
    have hb := (hruns .builder).length_le
    have hx := (hruns .extractor).length_le
    have hone := h.one
    unfold System.pending at *
    omega
  connected x hx := hepoch ▸ h.connected x (hconnects hx)
  connecting k hk c hc := by
    rw [hepoch] at hk ⊢
    exact h.connecting k (hconnects hk) c ((hruns k).subset hc)
  marked p' hp' k hk c hc := by
    obtain ⟨p, hp, hrunning, _⟩ := hscanner p' hp'
    rw [hepoch]
    exact h.marked p hp k (hrunning ▸ hk) c ((hruns k).subset hc)
  waited p' hp' k c hc he := by
    obtain ⟨p, hp, _, hphase⟩ := hscanner p' hp'
    rw [← hphase]
    exact h.waited p hp k c ((hruns k).subset hc) (hepoch ▸ he)
  ready p' hp' hround := by
    obtain ⟨p, hp, hrunning, hphase⟩ := hscanner p' hp'
    rw [← hrunning]
    exact h.ready p hp (hphase ▸ hround)

/-- A step of the scanner's thread to a place where it waits for no reply, after which
no request of this scanner process is pending. -/
theorem Exclusive.goOn (h : Exclusive σ) {p : ScannerDaemon} (hp : σ.scanner = some p)
    (hnone : ∀ k, ∀ c ∈ σ.runs k, c.epoch ≠ σ.epoch) {phase : Phase}
    (hready : phase.InRound → ∀ k, p.running k = true) : Exclusive (σ.goOn p phase) where
  orphans := h.orphans
  one := h.one
  connected := h.connected
  connecting := h.connecting
  marked p' hp' := by
    cases hp'
    exact h.marked p hp
  waited p' hp' k c hc he := absurd he (hnone k c hc)
  ready p' hp' hround := by
    cases hp'
    exact hready hround

/-- A scanner process that waits for no reply has no request pending. -/
theorem Exclusive.none_of_calling (h : Exclusive σ) {p : ScannerDaemon} (hp : σ.scanner = some p)
    (hcalling : p.phase.calling = none) (k : WorkerId) : ∀ c ∈ σ.runs k, c.epoch ≠ σ.epoch :=
  fun c hc he => by
    have hwaited := h.waited p hp k c hc he
    rw [hcalling] at hwaited
    exact nomatch hwaited

/-- Once its reply is on the way, the request that the scanner waits for is not pending
any more. -/
theorem Exclusive.none_of_reply (h : Exclusive σ) (ha : Accounted σ) {p : ScannerDaemon}
    (hp : σ.scanner = some p) {r : Reply} {j : WorkerId} (hcalling : p.phase.calling = some (j, r.call))
    (hr : r ∈ σ.replies) (k : WorkerId) : ∀ c ∈ σ.runs k, c.epoch ≠ σ.epoch :=
  fun c hc he => by
    have hwaited := h.waited p hp k c hc he
    rw [hcalling] at hwaited
    obtain ⟨_, rfl⟩ : j = k ∧ r.call = c := by simpa using hwaited
    obtain ⟨s, hs, hcall, _⟩ := ha.replied r hr
    have hruns : 0 < (σ.runs k).count r.call := List.count_pos_iff.mpr hc
    have hserved : 0 < (σ.served.map Serving.call).count r.call :=
      List.count_pos_iff.mpr (hcall ▸ List.mem_map_of_mem hs)
    have honce := ha.once r.call
    unfold System.copies at honce
    cases k <;> omega

/-- In a round nothing else is pending. -/
theorem Exclusive.runs_eq_nil (h : Exclusive σ) {p : ScannerDaemon} (hp : σ.scanner = some p)
    (hround : p.phase.InRound) (hnone : ∀ k, ∀ c ∈ σ.runs k, c.epoch ≠ σ.epoch) (k : WorkerId) :
    σ.runs k = [] := by
  refine List.eq_nil_iff_forall_not_mem.mpr fun c hc => hnone k c hc ?_
  exact h.marked p hp k (h.ready p hp hround k) c hc

/-- A run call, when nothing is pending. -/
theorem Exclusive.call (h : Exclusive σ) {p : ScannerDaemon} (hp : σ.scanner = some p)
    (hround : p.phase.InRound) (hnil : ∀ k, σ.runs k = []) {k : WorkerId} {w : WorkerDaemon}
    (hw : σ.worker k = some w) (task : UInt64) {phase : Phase}
    (hcalling : phase.calling = some (k, ⟨k, σ.epoch, p.calls, task⟩)) :
    Exclusive (σ.call p k w ⟨k, σ.epoch, p.calls, task⟩ phase) := by
  have hself : (σ.call p k w ⟨k, σ.epoch, p.calls, task⟩ phase).runs k =
      [⟨k, σ.epoch, p.calls, task⟩] := by
    have hperm := runs_enqueue_run w ⟨k, σ.epoch, p.calls, task⟩
    rw [← System.runs_of_worker hw, hnil k, List.perm_singleton] at hperm
    exact (System.runs_setWorker_self σ k _).trans hperm
  have hother : ∀ j, j ≠ k → (σ.call p k w ⟨k, σ.epoch, p.calls, task⟩ phase).runs j = [] :=
    fun j hj => (System.runs_setWorker_of_ne hj σ _).trans (hnil j)
  have hruns : ∀ j, ∀ c ∈ (σ.call p k w ⟨k, σ.epoch, p.calls, task⟩ phase).runs j,
      j = k ∧ c = ⟨k, σ.epoch, p.calls, task⟩ := fun j c hc => by
    by_cases hj : j = k
    · subst hj
      rw [hself] at hc
      exact ⟨rfl, List.mem_singleton.mp hc⟩
    · rw [hother j hj] at hc
      exact nomatch hc
  refine ⟨h.orphans, ?_, h.connected, fun j _ c hc => ?_, fun p' hp' j _ c hc => ?_,
    fun p' hp' j c hc _ => ?_, fun p' hp' _ j => ?_⟩
  · unfold System.pending
    cases k with
    | builder =>
        rw [hself, hother .extractor (by decide)]
        simp
    | extractor =>
        rw [hself, hother .builder (by decide)]
        simp
  · rw [(hruns j c hc).2]
    rfl
  · rw [(hruns j c hc).2]
    rfl
  · obtain ⟨rfl, rfl⟩ := hruns j c hc
    cases hp'
    exact hcalling
  · cases hp'
    exact h.ready p hp hround j

/-- Every orderly change keeps the exclusion. -/
theorem exclusive_change {e : Event} (h : Exclusive σ) (ha : Accounted σ)
    (ho : Orderly site σ e) (hstep : step site σ e = σ') (hc : Change site σ e σ') :
    Exclusive σ' := by
  have hsub : ∀ k, (σ.runs k).Subperm (σ.runs k) := fun k => List.Subperm.refl _
  have hconn : σ.connects ⊆ σ.connects := List.Subset.refl _
  have hthread : ∀ p', σ.scanner = some p' → ∃ p, σ.scanner = some p ∧ p.running = p'.running ∧
      p.phase = p'.phase := fun p hp => ⟨p, hp, rfl, rfl⟩
  have hsent : Sent σ' := sent_change h.connected hc
  cases hc with
  | same => exact h
  | scannerStarts hnone =>
      refine ⟨h.orphans, h.one, hsent, fun k hk => ?_, fun p hp k hk => ?_, fun p hp k c hc he => ?_, fun p hp hround => ?_⟩
      · exact absurd (h.connected _ hk) (Nat.not_succ_le_self _)
      · cases hp
        exact absurd hk Bool.false_ne_true
      · have hle := (ha.issued c (lt_of_lt_of_le (List.count_pos_iff.mpr hc)
          (σ.count_runs_le k c))).1
        have he' : c.epoch = σ.epoch + 1 := he
        omega
      · cases hp
        exact hround.elim
  | scannerDies e replies hreplies =>
      exact h.mono hsub rfl hconn (fun _ hp => (Option.some_ne_none _ hp.symm).elim) h.orphans
  | workerStarts k hnone =>
      have hruns : ∀ j, ((σ.setWorker k (some {})).runs j).Subperm (σ.runs j) :=
        System.runs_setWorker_subperm (by simp [WorkerDaemon.runs])
      exact h.mono hruns rfl hconn hthread h.orphans
  | workerDies e k =>
      have hruns : ∀ j, ((σ.setWorker k none).runs j).Subperm (σ.runs j) :=
        System.runs_setWorker_subperm List.nil_subperm
      refine h.mono hruns rfl hconn hthread ?_
      have hdead : (σ.workerDies k).worker k = none := by
        simp [System.workerDies, System.setWorker]
      have hnone : σ.child k = none := by
        by_contra hsome
        have halive := ho.1 k (Option.isSome_iff_ne_none.mpr hsome)
        rw [hstep, hdead] at halive
        exact absurd halive Bool.false_ne_true
      have hchild : (σ.worker k).bind WorkerDaemon.child = none := hnone
      simp [System.workerDies, h.orphans, hchild]
  | @connects k w hw hconn' =>
      have hruns : ∀ j, ((σ.setWorker k (some { w with connecting := false })).runs j).Subperm
          (σ.runs j) := System.runs_setWorker_subperm (by
        rw [System.runs_of_worker hw]
        exact List.Subperm.refl _)
      refine ⟨h.orphans, ?_, hsent, fun j hj c hc => ?_, fun p hp j hj c hc => ?_,
        fun p hp j c hc => ?_, h.ready⟩
      · exact (Nat.add_le_add (hruns .builder).length_le (hruns .extractor).length_le).trans h.one
      · rcases List.mem_append.mp hj with hj | hj
        · exact h.connecting j hj c ((hruns j).subset hc)
        · obtain ⟨rfl, _⟩ : j = k ∧ _ := by simpa using hj
          exact ho.2 c ((hruns j).subset hc)
      · exact h.marked p hp j hj c ((hruns j).subset hc)
      · exact h.waited p hp j c ((hruns j).subset hc)
  | @accepts i p k hp hk =>
      refine ⟨h.orphans, h.one, hsent, fun j hj => h.connecting j (List.mem_of_mem_eraseIdx hj), fun p' hp' j hj => ?_,
        fun p' hp' => ?_, fun p' hp' hround j => ?_⟩
      · cases hp'
        by_cases hjk : j = k
        · subst hjk
          exact h.connecting j hk
        · exact h.marked p hp j (by simpa [Function.update_of_ne hjk] using hj)
      · cases hp'
        exact h.waited p hp
      · cases hp'
        by_cases hjk : j = k
        · subst hjk
          simp
        · simpa [Function.update_of_ne hjk] using h.ready p hp hround j
  | drops i =>
      exact h.mono hsub rfl (fun x hx => List.mem_of_mem_eraseIdx hx) hthread h.orphans
  | moves e hp hfrom hto =>
      refine h.goOn hp (h.none_of_calling hp hfrom) fun hround => ?_
      rcases hto with rfl | rfl <;> exact hround.elim
  | scans hp hphase hrunning hopen hdir =>
      exact h.goOn hp (h.none_of_calling hp (by rw [hphase]; rfl)) fun _ => hrunning
  | @asks e p k w rest hp hfrom hw =>
      have hruns : ∀ j, (σ.enqueue k w .terminate).runs j = σ.runs j := fun j => by
        by_cases hj : j = k
        · subst hj
          rw [System.enqueue, System.runs_setWorker_self, Option.elim_some, runs_enqueue_terminate,
            System.runs_of_worker hw]
        · exact System.runs_setWorker_of_ne hj σ _
      have h' : Exclusive (σ.enqueue k w .terminate) :=
        h.mono (fun j => by rw [hruns j]) rfl hconn hthread h.orphans
      exact h'.goOn hp (h'.none_of_calling hp hfrom) fun hround => hround.elim
  | @builds builderStart connected p env status w hp hphase hscript hfound hw =>
      have hround : p.phase.InRound := by rw [hphase]; trivial
      have hcalling : p.phase.calling = none := by rw [hphase]; rfl
      exact h.call hp hround (h.runs_eq_nil hp hround (h.none_of_calling hp hcalling)) hw _ rfl
  | @extracts i time connected record p r status w hp hphase hr hw =>
      have hround : p.phase.InRound := by rw [hphase]; trivial
      have hcalling : p.phase.calling = some (.builder, r.call) := by rw [hphase]; rfl
      have hnil := h.runs_eq_nil hp hround (h.none_of_reply ha hp hcalling hr)
      have h' : Exclusive { σ with replies := σ.replies.erase r } :=
        h.mono hsub rfl hconn hthread h.orphans
      exact h'.call hp hround hnil hw _ rfl
  | @records i time connected record p r status phase hp hphase hr hto =>
      have hcalling : p.phase.calling = some (.extractor, r.call) := by rw [hphase]; rfl
      have hnone := h.none_of_reply ha hp hcalling hr
      have h' : Exclusive { σ with
          mdb := (recordRound record
            { status with
              extractorEnd := time, nExtracted := r.count.toInt64.toUInt64, status := 0 } σ.mdb).1
          replies := σ.replies.erase r } :=
        h.mono hsub rfl hconn hthread h.orphans
      refine h'.goOn hp hnone fun hround => ?_
      rcases hto with rfl | rfl <;> exact hround.elim
  | serves k i launch hw hidle hi =>
      refine h.mono (System.runs_setWorker_subperm ?_) rfl hconn hthread h.orphans
      rw [System.runs_of_worker hw]
      exact (runs_serves hidle hi launch _).subperm
  | @finishes k w s service child hw hs hrun =>
      have hruns : ∀ j, ((σ.setWorker k (some { w with serving := none, service })).runs j).Subperm
          (σ.runs j) := System.runs_setWorker_subperm (by
        rw [System.runs_of_worker hw]
        exact subperm_finishes hs service)
      exact h.mono hruns rfl hconn hthread h.orphans
  | orphanEnds i => exact h.mono hsub rfl hconn hthread (by simp [h.orphans])

end Step

/-- What holds in every state of an orderly run. -/
def Excluded (σ : System) : Prop := Exclusive σ ∧ Accounted σ

/-- The exclusion holds in every orderly run. -/
theorem excluded_run {es : List Event} (h : AllSteps (step site) (Orderly site) {} es) :
    Excluded (run (step site) {} es) := by
  refine invariant_run ⟨exclusive_init, accounted_init⟩ h ?_
  rintro σ e ⟨hx, ha⟩ ho
  exact ⟨exclusive_change hx ha ho rfl (change site σ e), accounted_step ha e⟩

/-- **One worker process at a time.**  Through every interleaving in which no worker
daemon dies under its process, at most one worker process runs, builder or
extractor, and none without its daemon. -/
theorem one_worker_at_a_time {es : List Event} (h : AllSteps (step site) (Orderly site) {} es) :
    (run (step site) {} es).children ≤ 1 ∧ (run (step site) {} es).orphans = [] := by
  obtain ⟨hx, _⟩ := excluded_run h
  refine ⟨?_, hx.orphans⟩
  have hb := (run (step site) {} es).length_child_le .builder
  have he := (run (step site) {} es).length_child_le .extractor
  have hone := hx.one
  unfold System.children
  unfold System.pending at hone
  rw [hx.orphans, List.length_nil]
  omega

/-- A scan that finds one file. -/
def oneFileScan : ScanEnv where
  taskId := 100
  query := answer []
  popen _ _ := .ok { lines := ["## scanned: 1\n".toList] }

/-- A daemon's launch of a worker process that prints its count. -/
def countLaunch (line : String) : LaunchEnv where
  popen _ := .ok { printed := [line.toList], finished := true }

/-- The three daemons start, connect, and begin a round; the builder runs. -/
def builderRuns : List Event :=
  [.startScanner, .startWorker .builder, .connect .builder, .accept 0, .startWorker .extractor,
    .connect .extractor, .accept 0, .scan oneFileScan, .scanned 101 true,
    .serve .builder 0 (countLaunch "## files indexed: 1\n")]

/-- A builder that is at work. -/
theorem one_worker_at_a_time_builderRuns :
    AllSteps (step (utcSite (.of 1))) (Orderly (utcSite (.of 1))) {} builderRuns ∧
      (run (step (utcSite (.of 1))) {} builderRuns).children ≤ 1 :=
  have h : AllSteps (step (utcSite (.of 1))) (Orderly (utcSite (.of 1))) {} builderRuns := by
    decide +kernel
  ⟨h, (one_worker_at_a_time h).1⟩

-- A builder daemon killed under its process: once everything is started anew, two
-- builders run.
example : (run (step (utcSite (.of 1))) {} (builderRuns ++
    [.killWorker .builder, .callFails, .killWorker .extractor, .startScanner,
      .startWorker .builder, .connect .builder, .accept 0, .startWorker .extractor,
      .connect .extractor, .accept 0, .scan oneFileScan, .scanned 101 true,
      .serve .builder 0 (countLaunch "## files indexed: 1\n")])).children = 2 := by decide +kernel

/-! ## after the scanner has died -/

/-- A worker that no scanner process to come can hear of: it has connected or is gone,
and what it sent went to scanner processes that are gone. -/
structure Unheard (k : WorkerId) (t : List MdbRow) (σ : System) : Prop where
  mdb : σ.mdb = t
  connected : ∀ w, σ.worker k = some w → w.connecting = false
  sent : ∀ x ∈ σ.connects, x.2 ≤ σ.epoch
  gone : ∀ p, σ.scanner = some p → (k, σ.epoch) ∉ σ.connects
  unmarked : ∀ p, σ.scanner = some p → p.running k = false
  calls : ∀ p, σ.scanner = some p → p.calls = 0 ∧ p.phase.calling = none ∧ ¬ p.phase.InRound

section Unheard
variable {σ σ' : System} {k : WorkerId} {t : List MdbRow}

/-- A step that leaves the scanner alone. -/
theorem Unheard.mono (h : Unheard k t σ) (hmdb : σ'.mdb = σ.mdb) (hepoch : σ'.epoch = σ.epoch)
    (hworker : ∀ w', σ'.worker k = some w' → ∃ w, σ.worker k = some w ∧
      w'.connecting = w.connecting)
    (hconnects : σ'.connects ⊆ σ.connects)
    (hscanner : ∀ p, σ'.scanner = some p → σ.scanner = some p) : Unheard k t σ' where
  mdb := hmdb.trans h.mdb
  connected w' hw' := by
    obtain ⟨w, hw, hconn⟩ := hworker w' hw'
    exact hconn.trans (h.connected w hw)
  sent x hx := hepoch ▸ h.sent x (hconnects hx)
  gone p hp hk := h.gone p (hscanner p hp) (hconnects (hepoch ▸ hk))
  unmarked p hp := h.unmarked p (hscanner p hp)
  calls p hp := h.calls p (hscanner p hp)

/-- A step of the scanner's thread that makes no call. -/
theorem Unheard.goOn (h : Unheard k t σ) {p : ScannerDaemon} (hp : σ.scanner = some p)
    {phase : Phase} (hphase : phase.calling = none ∧ ¬ phase.InRound) :
    Unheard k t (σ.goOn p phase) where
  mdb := h.mdb
  connected := h.connected
  sent := h.sent
  gone _ _ := h.gone p hp
  unmarked p' hp' := by
    cases hp'
    exact h.unmarked p hp
  calls p' hp' := by
    cases hp'
    exact ⟨(h.calls p hp).1, hphase⟩

/-- A worker that changes without connecting anew stays unheard. -/
theorem unheard_setWorker (h : Unheard k t σ) {j : WorkerId} {w : WorkerDaemon}
    (hw : σ.worker j = some w) {w' : WorkerDaemon} (hconn : w'.connecting = w.connecting) :
    Unheard k t (σ.setWorker j (some w')) := by
  refine h.mono rfl rfl (fun v hv => ?_) (List.Subset.refl _) fun p hp => hp
  by_cases hj : k = j
  · subst hj
    obtain rfl : w' = v := by simpa [System.setWorker] using hv
    exact ⟨w, hw, hconn⟩
  · exact ⟨v, by simpa [System.setWorker, Function.update_of_ne hj] using hv, rfl⟩

/-- Every change but a new start keeps a worker unheard. -/
theorem unheard_change {e : Event} (h : Unheard k t σ) (he : e ≠ .startWorker k)
    (hc : Change site σ e σ') : Unheard k t σ' := by
  have hsub : σ.connects ⊆ σ.connects := List.Subset.refl _
  have hsent : Sent σ' := sent_change h.sent hc
  have hworker : ∀ w', σ.worker k = some w' → ∃ w, σ.worker k = some w ∧
      w'.connecting = w.connecting := fun w hw => ⟨w, hw, rfl⟩
  cases hc with
  | same => exact h
  | scannerStarts hnone =>
      refine ⟨h.mdb, h.connected, hsent, fun p _ hk => ?_, fun p hp => ?_, fun p hp => ?_⟩
      · exact absurd (h.sent _ hk) (Nat.not_succ_le_self _)
      · cases hp
        rfl
      · cases hp
        exact ⟨rfl, rfl, id⟩
  | scannerDies e replies hreplies =>
      exact h.mono rfl rfl hworker hsub fun _ hp => (Option.some_ne_none _ hp.symm).elim
  | workerStarts j hnone =>
      refine h.mono rfl rfl (fun w hw => ⟨w, ?_, rfl⟩) hsub fun p hp => hp
      have hj : k ≠ j := fun hj => he (by rw [hj])
      simpa [System.setWorker, Function.update_of_ne hj] using hw
  | workerDies e j =>
      refine h.mono rfl rfl (fun w hw => ⟨w, ?_, rfl⟩) hsub fun p hp => hp
      by_cases hj : k = j
      · subst hj
        simp [System.workerDies, System.setWorker] at hw
      · simpa [System.workerDies, System.setWorker, Function.update_of_ne hj] using hw
  | @connects j w hw hconn =>
      -- the worker itself has nothing left to connect
      have hj : k ≠ j := fun hj => by
        subst hj
        rw [h.connected w hw] at hconn
        exact absurd hconn Bool.false_ne_true
      refine ⟨h.mdb, fun v hv => h.connected v ?_, hsent, fun p hp hk => ?_, h.unmarked, h.calls⟩
      · simpa [System.setWorker, Function.update_of_ne hj] using hv
      · rcases List.mem_append.mp hk with hk | hk
        · exact h.gone p hp hk
        · exact hj (congrArg Prod.fst (List.mem_singleton.mp hk))
  | @accepts i p j hp hj =>
      have hne : k ≠ j := fun hne => by
        subst hne
        exact h.gone p hp hj
      refine ⟨h.mdb, h.connected, hsent, fun _ _ hk => h.gone p hp (List.mem_of_mem_eraseIdx hk), fun p' hp' => ?_, fun p' hp' => ?_⟩
      · cases hp'
        simpa [Function.update_of_ne hne] using h.unmarked p hp
      · cases hp'
        exact h.calls p hp
  | drops i =>
      exact h.mono rfl rfl hworker (fun x hx => List.mem_of_mem_eraseIdx hx) fun p hp => hp
  | moves e hp hfrom hto =>
      refine h.goOn hp ?_
      rcases hto with rfl | rfl <;> exact ⟨rfl, id⟩
  | scans hp hphase hrunning hopen hdir =>
      have hk := hrunning k
      rw [h.unmarked _ hp] at hk
      exact absurd hk Bool.false_ne_true
  | @asks e p j w rest hp hfrom hw =>
      have hstopping : (Phase.stopping rest).calling = none ∧ ¬ (Phase.stopping rest).InRound :=
        ⟨rfl, id⟩
      have h' : Unheard k t (σ.enqueue j w .terminate) := unheard_setWorker h hw rfl
      exact h'.goOn hp hstopping
  | builds builderStart connected hp hphase hscript hfound hw =>
      exact absurd (show Phase.InRound _ by rw [hphase]; trivial) (h.calls _ hp).2.2
  | extracts i time connected record hp hphase hr hw =>
      exact absurd (show Phase.InRound _ by rw [hphase]; trivial) (h.calls _ hp).2.2
  | records i time connected record hp hphase hr hto =>
      exact absurd (show Phase.InRound _ by rw [hphase]; trivial) (h.calls _ hp).2.2
  | serves j i launch hw hidle hi => exact unheard_setWorker h hw rfl
  | @finishes j w s service child hw hs hrun =>
      have h' : Unheard k t (σ.setWorker j (some { w with serving := none, service })) :=
        unheard_setWorker h hw rfl
      exact h'.mono rfl rfl (fun v hv => ⟨v, hv, rfl⟩) hsub fun p hp => hp
  | orphanEnds i => exact h.mono rfl rfl hworker hsub fun p hp => hp

end Unheard

/-- **A dead scanner takes its workers' connections along.**  When the scanner has died
and a worker had connected before, nothing is recorded, and no scanner process sends
a run request, until that worker is started anew: whatever else is started, killed or
sent in between. -/
theorem nothing_recorded_until_restarted (site : Site) (pre es : List Event) (k : WorkerId)
    (hdead : (run (step site) {} pre).scanner = none)
    (hconnected : ∀ w, (run (step site) {} pre).worker k = some w → w.connecting = false)
    (hstart : ∀ e ∈ es, e ≠ .startWorker k) :
    (run (step site) {} (pre ++ es)).mdb = (run (step site) {} pre).mdb ∧
      ∀ p, (run (step site) {} (pre ++ es)).scanner = some p → p.calls = 0 := by
  have hno : ∀ p, (run (step site) {} pre).scanner ≠ some p := fun p hp => by
    rw [hdead] at hp
    exact nomatch hp
  have hinit : Unheard k (run (step site) {} pre).mdb (run (step site) {} pre) :=
    ⟨rfl, hconnected, sent_run pre, fun p hp => absurd hp (hno p), fun p hp => absurd hp (hno p),
      fun p hp => absurd hp (hno p)⟩
  have hall : AllSteps (step site) (fun _ e => e ≠ .startWorker k) (run (step site) {} pre) es :=
    allSteps_iff.mpr fun pre' e post hes => hstart e (by rw [hes]; simp)
  have hlast := invariant_run hinit hall fun σ e h he => unheard_change h he (change site σ e)
  rw [run_append]
  exact ⟨hlast.mdb, fun p hp => (hlast.calls p hp).1⟩

/-- The builder is not started anew. -/
theorem nothing_recorded_until_restarted_builder :
    (run (step (utcSite (.of 1))) {}
      ([.startScanner, .startWorker .builder, .connect .builder, .accept 0, .killScanner] ++
        [.startScanner, .startWorker .extractor, .connect .extractor, .accept 0,
          .scan oneFileScan])).mdb = [] :=
  (nothing_recorded_until_restarted (utcSite (.of 1))
    [.startScanner, .startWorker .builder, .connect .builder, .accept 0, .killScanner]
    [.startScanner, .startWorker .extractor, .connect .extractor, .accept 0, .scan oneFileScan]
    .builder rfl (fun _ hw => by cases hw; rfl) (by simp)).1

end Protocol

end Hpssix
