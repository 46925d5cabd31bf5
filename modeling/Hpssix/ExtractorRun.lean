import Mathlib.Data.List.TakeDrop
import Hpssix.Base.Fate
import Hpssix.DispatchErrors

/-!
# Hpssix.ExtractorRun

The extractor's `main` (`tools/extractor/src/hpssix-extractor.c`) with every
outcome of its workers.

A worker thread ends with a null result whatever happened to it, so the exit
status says only that the threads were created and joined.  What they extract
together is, window by window, a first part of the window or nothing
(`extractorWorkerFunc_cases`); when that is everything, is `extractor_exit_iff`.
-/

namespace Hpssix

open CText Cursor Fate Rel

/-! ## one worker -/

/-- What a worker meets: `hpssix_workdata_open`, the dispatch, and
`hpssix_db_connect`. -/
structure WorkerEnv where
  openRet : Int := 0
  dispatch : DispatchEnv
  connectRet : Int := 0

/-- `extractor_worker_func`: the objects that `do_extract` is called on.  The loop
goes on whatever `do_extract` returns. -/
def extractorWorkerFunc (env : WorkerEnv) (t : List WorkRow) (totalObjects nthreads id : Nat) :
    Fate (List WorkObject) :=
  let window := getWorkAllocation totalObjects nthreads id
  if env.openRet ≠ 0 then done []
  else do
    let (ret, list) ← await (hpssixWorkdataDispatch env.dispatch t
      { offset := window.1, count := window.2 })
    if ret ≠ 0 then pure []
    else if env.connectRet ≠ 0 then pure []
    else pure list.objectList

/-! ## the program -/

/-- What `main` meets: the errno of the steps that fail before the workers start,
the numbers of threads on the command line and in the configuration, and then
`calloc`, `pthread_create` and the workers.  Joining a thread that was created
returns 0. -/
structure ExtractorEnv where
  configErrno : Option Int := none
  builderOutput : Bool := true
  openErrno : Option Int := none
  countSteps : List Verdict := [.ok]
  countErrno : Int := 0
  nthreads : Nat := 0
  configNthreads : Nat := 0
  calloc : Bool := true
  create : Nat → Int := fun _ => 0
  worker : Nat → WorkerEnv

/-- `if (!nthreads) nthreads = config.extractor_nthreads;` -/
def ExtractorEnv.threads (env : ExtractorEnv) : Nat :=
  if env.nthreads = 0 then env.configNthreads else env.nthreads

/-- The threads: the return value, and the objects of the workers that were waited for. -/
def runWorkers (env : ExtractorEnv) (t : List WorkRow) (totalObjects : Nat) :
    Fate (Int × List WorkObject) :=
  if !env.calloc then done (12, [])
  else
    match (List.range env.threads).find? fun id => env.create id ≠ 0 with
    | some id => done (env.create id, [])
    | none => do
      let objects ← (List.range env.threads).mapM fun id =>
        extractorWorkerFunc (env.worker id) t totalObjects env.threads id
      pure (0, objects.flatten)

/-- `main` of the extractor. -/
def extractorMain (env : ExtractorEnv) (t : List WorkRow) : Fate (Int × List WorkObject) :=
  match env.configErrno with
  | some errno => done (errno, [])
  | none =>
    if !env.builderOutput then done (22, [])
    else
      match env.openErrno with
      | some errno => done (errno, [])
      | none => do
        match ← await (workdataGetTotalCount (deliver env.countSteps (sqlTotalcount t))) with
        | .error _ => pure (env.countErrno, [])
        | .ok totalObjects =>
          if totalObjects = 0 then pure (0, [])
          else runWorkers env t totalObjects

/-! ## what a worker extracts -/

/-- The rows of the store as work objects, in the order of their ids. -/
def workObjects (t : List WorkRow) : List WorkObject :=
  (orderAsc WorkRow.id t).map fun r => readObject (r.pid, r.path)

@[simp] theorem length_workObjects (t : List WorkRow) : (workObjects t).length = t.length := by
  simp [workObjects]

/-- The rows of a window are a part of the store. -/
theorem map_readObject_sqlFetch_eq (offset count : Nat) (t : List WorkRow) :
    (sqlFetch offset count t).map readObject = limit offset count (workObjects t) := by
  simp only [sqlFetch, workObjects, limit, List.map_take, List.map_drop, List.map_map]
  rfl

/-- The window of a worker. -/
def windowOf (t : List WorkRow) (totalObjects nthreads id : Nat) : List WorkObject :=
  limit (getWorkAllocation totalObjects nthreads id).1
    (getWorkAllocation totalObjects nthreads id).2 (workObjects t)

/-- A window has as many rows as were allocated. -/
theorem length_windowOf (t : List WorkRow) {nthreads id : Nat} (hid : id < nthreads) :
    (windowOf t t.length nthreads id).length = (getWorkAllocation t.length nthreads id).2 := by
  have hle := workBoundary_le_succ t.length nthreads id
  have hend := workBoundary_le t.length nthreads (id + 1)
  rw [windowOf, getWorkAllocation_eq hid]
  simp only [limit, List.length_take, List.length_drop, length_workObjects]
  omega

/-- A dispatch of that many rows gets all of them: it has its bindings and its memory,
and as many steps succeed. -/
structure DispatchEnv.Fetches (env : DispatchEnv) (count : Nat) : Prop where
  bind : env.bind = true
  calloc : env.callocFails count = false
  strdup : ∀ i < count, env.strdup i = true
  steps : count ≤ okSteps env.steps

/-- A worker with a window of that many rows extracts all of them: there is none, or
every call succeeds. -/
def WorkerEnv.Completes (env : WorkerEnv) (count : Nat) : Prop :=
  count = 0 ∨ env.openRet = 0 ∧ env.connectRet = 0 ∧ env.dispatch.Fetches count

/-- Where enough steps succeed, a dispatch is refused for want of a binding or of
memory only. -/
theorem DispatchEnv.fetches_iff {env : DispatchEnv} {rows : List (Int64 × Text)}
    (hrows : rows ≠ []) :
    env.Fetches rows.length ↔ ¬ env.Refused rows rows.length ∧ rows.length ≤ okSteps env.steps := by
  have hpos : 0 < rows.length := List.length_pos_iff.mpr hrows
  constructor
  · rintro ⟨hbind, hcalloc, hstrdup, hsteps⟩
    refine ⟨?_, hsteps⟩
    rintro (h | h | h | h | ⟨i, hi, hfail⟩)
    · simp [hbind] at h
    · exact hrows h
    · have hok : (waited env.steps)[0]? = some .ok :=
        getElem?_of_lt_okLength (Nat.lt_of_lt_of_le hpos hsteps)
      rw [firstVerdict_eq_head?, List.head?_eq_getElem?, hok] at h
      cases h
    · simp [hcalloc] at h
    · simp [hstrdup i (Nat.lt_of_lt_of_le hi (Nat.min_le_left ..))] at hfail
  · rintro ⟨hnot, hsteps⟩
    have hbind : ¬ env.bind = false := fun h => hnot (.inl h)
    have hcalloc : ¬ env.callocFails rows.length = true := fun h => hnot (.inr (.inr (.inr (.inl h))))
    refine ⟨by simpa using hbind, by simpa using hcalloc, fun i hi => ?_, hsteps⟩
    have hstrdup : ¬ env.strdup i = false := fun h =>
      hnot (.inr (.inr (.inr (.inr ⟨i, by rwa [Nat.min_eq_left hsteps], h⟩))))
    simpa using hstrdup

section Worker
variable {env : WorkerEnv} {t : List WorkRow} {nthreads id : Nat} {objects : List WorkObject}

/-- The rows that a dispatch of the window is about. -/
theorem map_readObject_sqlFetchBound (ht : t.length < 2 ^ 63) (hid : id < nthreads) :
    (sqlFetchBound (getWorkAllocation t.length nthreads id).1
      (getWorkAllocation t.length nthreads id).2 t).map readObject =
        windowOf t t.length nthreads id := by
  have hstart := workBoundary_le t.length nthreads id
  have hend := workBoundary_le t.length nthreads (id + 1)
  have hoffset : (getWorkAllocation t.length nthreads id).1 < 2 ^ 63 := by
    rw [getWorkAllocation_eq hid]
    omega
  have hcount : (getWorkAllocation t.length nthreads id).2 < 2 ^ 63 := by
    rw [getWorkAllocation_eq hid]
    omega
  rw [sqlFetchBound, if_pos hoffset, if_pos hcount, map_readObject_sqlFetch_eq]
  rfl

/-- What a worker extracts: of its window as many objects as steps succeed, or nothing
where a call is refused. -/
theorem extractorWorkerFunc_cases (ht : t.length < 2 ^ 63) (hid : id < nthreads)
    (h : extractorWorkerFunc env t t.length nthreads id = done objects) :
    let rows := sqlFetchBound (getWorkAllocation t.length nthreads id).1
      (getWorkAllocation t.length nthreads id).2 t
    let refused := env.dispatch.Refused rows (getWorkAllocation t.length nthreads id).2
    (env.openRet = 0 ∧ env.connectRet = 0 ∧ ¬ refused ∧
        objects = (windowOf t t.length nthreads id).take (okSteps env.dispatch.steps)) ∨
      (¬ (env.openRet = 0 ∧ env.connectRet = 0 ∧ ¬ refused) ∧ objects = []) := by
  intro rows refused
  unfold extractorWorkerFunc at h
  by_cases hopen : env.openRet = 0
  · simp only [hopen, ne_eq, not_true_eq_false, if_false] at h
    obtain ⟨⟨ret, list⟩, hdisp, h⟩ := bind_eq_done.mp h
    obtain ⟨hrefused, hret, -⟩ | ⟨hnot, hret, -, -, -, hlist, -⟩ :=
      dispatch_cases (await_eq_done.mp hdisp)
    · simp only [hret, not_false_eq_true, if_true, pure_eq, done.injEq] at h
      exact .inr ⟨fun hall => hall.2.2 hrefused, h.symm⟩
    · subst hret
      by_cases hconnect : env.connectRet = 0
      · have heq : objects = list.objectList := by simpa [hconnect] using h.symm
        refine .inl ⟨hopen, hconnect, hnot, ?_⟩
        rw [heq, hlist, List.map_take, map_readObject_sqlFetchBound ht hid]
      · exact .inr ⟨fun hall => hconnect hall.2.1, by simpa [hconnect] using h.symm⟩
  · refine .inr ⟨fun hall => hopen hall.1, ?_⟩
    simp only [hopen, ne_eq, not_false_eq_true, if_true, done.injEq] at h
    exact h.symm

/-- A worker extracts a first part of its window. -/
theorem prefix_windowOf (ht : t.length < 2 ^ 63) (hid : id < nthreads)
    (h : extractorWorkerFunc env t t.length nthreads id = done objects) :
    objects <+: windowOf t t.length nthreads id := by
  obtain ⟨-, -, -, rfl⟩ | ⟨-, rfl⟩ := extractorWorkerFunc_cases ht hid h
  · exact List.take_prefix ..
  · exact List.nil_prefix

/-- A worker extracts its whole window exactly if it completes it. -/
theorem eq_windowOf_iff (ht : t.length < 2 ^ 63) (hid : id < nthreads)
    (h : extractorWorkerFunc env t t.length nthreads id = done objects) :
    objects = windowOf t t.length nthreads id ↔
      env.Completes (getWorkAllocation t.length nthreads id).2 := by
  have hwindow := map_readObject_sqlFetchBound ht hid
  have hlen := length_windowOf t hid
  have hcases := extractorWorkerFunc_cases ht hid h
  revert hcases
  generalize sqlFetchBound (getWorkAllocation t.length nthreads id).1
    (getWorkAllocation t.length nthreads id).2 t = rows at hwindow
  rw [← hwindow] at hlen ⊢
  rw [← hlen, List.length_map]
  intro hcases
  obtain rfl | hrows := eq_or_ne rows []
  · refine iff_of_true ?_ (.inl rfl)
    obtain ⟨-, -, -, rfl⟩ | ⟨-, rfl⟩ := hcases
    · simp
    · rfl
  · have hne : rows.length ≠ 0 := by simpa using hrows
    rw [WorkerEnv.Completes, or_iff_right hne, DispatchEnv.fetches_iff hrows]
    obtain ⟨hopen, hconnect, hnot, rfl⟩ | ⟨hnot, rfl⟩ := hcases
    · rw [List.take_eq_self_iff, List.length_map]
      exact ⟨fun hle => ⟨hopen, hconnect, hnot, hle⟩, fun hall => hall.2.2.2⟩
    · refine iff_of_false (fun heq => hrows ?_) fun hall => hnot ⟨hall.1, hall.2.1, hall.2.2.1⟩
      exact List.map_eq_nil_iff.mp heq.symm

end Worker

/-! ## what all workers extract -/

theorem length_flatten_le {α : Type _} {xs ys : List (List α)}
    (h : List.Forall₂ (· <+: ·) xs ys) : xs.flatten.length ≤ ys.flatten.length := by
  induction h with
  | nil => exact Nat.le_refl _
  | cons hxy _ ih =>
      have := hxy.length_le
      simp only [List.flatten_cons, List.length_append]
      omega

/-- First parts of the pieces make up the whole only if each is the whole piece. -/
theorem perm_flatten_iff {α : Type _} {xs ys : List (List α)}
    (h : List.Forall₂ (· <+: ·) xs ys) : xs.flatten.Perm ys.flatten ↔ xs = ys := by
  refine ⟨fun hperm => ?_, fun heq => heq ▸ List.Perm.refl _⟩
  induction h with
  | nil => rfl
  | @cons x y xs ys hxy hrest ih =>
      rw [List.flatten_cons, List.flatten_cons] at hperm
      have hlen := hperm.length_eq
      have hle := hxy.length_le
      have hrestle := length_flatten_le hrest
      rw [List.length_append, List.length_append] at hlen
      have heq : x = y := hxy.eq_of_length (by omega)
      subst heq
      rw [ih ((List.perm_append_left_iff x).mp hperm)]

/-- The windows of the threads are the store. -/
theorem flatten_windowOf (t : List WorkRow) {nthreads : Nat} (hn : 1 ≤ nthreads) :
    ((List.range nthreads).map (windowOf t t.length nthreads)).flatten = workObjects t := by
  have hwin : ∀ id ∈ List.range nthreads, windowOf t t.length nthreads id =
      limit (workBoundary t.length nthreads id)
        (workBoundary t.length nthreads (id + 1) - workBoundary t.length nthreads id)
        (workObjects t) := fun id hid => by
    rw [windowOf, getWorkAllocation_eq (List.mem_range.mp hid)]
  rw [List.map_congr_left hwin, flatten_windows (workBoundary t.length nthreads)
    (workBoundary_zero t.length hn) (workBoundary_le_succ t.length nthreads), workBoundary_end,
    List.take_of_length_le (by simp)]

/-- `main` starts the workers: all steps before succeed. -/
def ExtractorEnv.Starts (env : ExtractorEnv) : Prop :=
  env.configErrno = none ∧ env.builderOutput = true ∧ env.openErrno = none ∧
    firstVerdict env.countSteps = some .ok

section Workers
variable {worker : Nat → WorkerEnv} {t : List WorkRow} {nthreads : Nat}
  {xs : List (List WorkObject)}

/-- Worker by worker: first parts of the windows, and all of a window if the worker
completes it. -/
theorem workers_windows {ids : List Nat} (ht : t.length < 2 ^ 63) (hids : ∀ id ∈ ids, id < nthreads)
    (h : List.Forall₂ (fun id objects =>
      extractorWorkerFunc (worker id) t t.length nthreads id = done objects) ids xs) :
    List.Forall₂ (· <+: ·) xs (ids.map (windowOf t t.length nthreads)) ∧
      (xs = ids.map (windowOf t t.length nthreads) ↔
        ∀ id ∈ ids, (worker id).Completes (getWorkAllocation t.length nthreads id).2) := by
  induction h with
  | nil => simp
  | @cons id objects ids xs hobjects _ ih =>
      rw [List.forall_mem_cons] at hids
      obtain ⟨hpre, hiff⟩ := ih hids.2
      refine ⟨.cons (prefix_windowOf ht hids.1 hobjects) hpre, ?_⟩
      rw [List.map_cons, List.cons.injEq, List.forall_mem_cons,
        eq_windowOf_iff ht hids.1 hobjects, hiff]

/-- What the workers extract is the store exactly if there is a worker and each one
completes its window. -/
theorem perm_workers_iff (ht : t ≠ []) (hlen : t.length < 2 ^ 63)
    (h : List.Forall₂ (fun id objects =>
      extractorWorkerFunc (worker id) t t.length nthreads id = done objects)
      (List.range nthreads) xs) :
    xs.flatten.Perm (workObjects t) ↔ nthreads ≠ 0 ∧
      ∀ id < nthreads, (worker id).Completes (getWorkAllocation t.length nthreads id).2 := by
  obtain rfl | hn := Nat.eq_zero_or_pos nthreads
  · have hne : workObjects t ≠ [] := fun hnil => ht (by
      rwa [← List.length_eq_zero_iff, length_workObjects, List.length_eq_zero_iff] at hnil)
    cases h
    simpa [List.nil_perm] using hne
  · obtain ⟨hpre, hiff⟩ := workers_windows hlen (fun id hid => List.mem_range.mp hid) h
    rw [← flatten_windowOf t hn, perm_flatten_iff hpre, hiff]
    simp only [List.mem_range, ne_eq, Nat.ne_of_gt hn, not_false_eq_true, true_and]

end Workers

section Main
variable {env : ExtractorEnv} {t : List WorkRow} {ret : Int} {objects : List WorkObject}

/-- With rows to extract, `main` starts the workers. -/
theorem extractorMain_of_starts (h : env.Starts) (ht : t ≠ []) :
    extractorMain env t = runWorkers env t t.length := by
  obtain ⟨hconfig, hbuilder, hopen, hcount⟩ := h
  obtain ⟨-, vs, hrow⟩ := stepBusy_deliver_of_ok (ρ := Nat) hcount
  have hlen : t.length ≠ 0 := by simpa using ht
  simp [extractorMain, hconfig, hbuilder, hopen, workdataGetTotalCount, sqlTotalcount, hrow, hlen]

/-- Where `main` does not start the workers, or there is no row, nothing is extracted. -/
theorem objects_eq_nil (h : ¬ (env.Starts ∧ t ≠ []))
    (hrun : extractorMain env t = done (ret, objects)) : objects = [] := by
  unfold extractorMain at hrun
  cases hconfig : env.configErrno with
  | some errno => simp_all
  | none =>
      cases hbuilder : env.builderOutput with
      | false => simp_all
      | true =>
          cases hopen : env.openErrno with
          | some errno => simp_all
          | none =>
              simp only [hconfig, hbuilder, hopen, Bool.not_true, Bool.false_eq_true,
                if_false] at hrun
              obtain ⟨count, hcount, hrun⟩ := bind_eq_done.mp hrun
              rw [await_eq_done, workdataGetTotalCount] at hcount
              cases hv : firstVerdict env.countSteps with
              | none => simp [stepBusy_deliver_of_none hv] at hcount
              | some v =>
                  cases v with
                  | ok =>
                      have ht : t = [] := by
                        by_contra hne
                        exact h ⟨⟨hconfig, hbuilder, hopen, hv⟩, hne⟩
                      obtain ⟨-, vs, hrow⟩ := stepBusy_deliver_of_ok (ρ := Nat) hv
                      simp only [ht, sqlTotalcount, List.length_nil, hrow, Option.some.injEq] at hcount
                      subst hcount
                      simpa using (Prod.mk.inj (done.inj hrun)).2.symm
                  | busy => exact absurd hv firstVerdict_ne_busy
                  | error =>
                      obtain ⟨rest, hrow⟩ := stepBusy_deliver_of_error hv (sqlTotalcount t)
                      simp only [hrow, Option.some.injEq] at hcount
                      subst hcount
                      simpa using (Prod.mk.inj (done.inj hrun)).2.symm

/-- Every row is handed to `do_extract`: there is none, or `main` starts a thread for each
window, and each thread completes its window. -/
def ExtractorEnv.AttemptsAll (env : ExtractorEnv) (t : List WorkRow) : Prop :=
  t = [] ∨ env.Starts ∧ env.calloc = true ∧ (∀ id < env.threads, env.create id = 0) ∧
    env.threads ≠ 0 ∧ ∀ id < env.threads,
      (env.worker id).Completes (getWorkAllocation t.length env.threads id).2

/-- What the threads come to: there is no memory for them, one of them cannot be created, or
they all run to their ends. -/
theorem runWorkers_cases (hrun : runWorkers env t t.length = done (ret, objects)) :
    (env.calloc = false ∧ ret ≠ 0 ∧ objects = []) ∨
      (env.calloc = true ∧ (∃ id < env.threads, env.create id ≠ 0) ∧ ret ≠ 0 ∧ objects = []) ∨
      (env.calloc = true ∧ (∀ id < env.threads, env.create id = 0) ∧ ret = 0 ∧
        ∃ xs, List.Forall₂ (fun id objects =>
          extractorWorkerFunc (env.worker id) t t.length env.threads id = done objects)
          (List.range env.threads) xs ∧ xs.flatten = objects) := by
  unfold runWorkers at hrun
  cases hcalloc : env.calloc with
  | false =>
      simp only [hcalloc, Bool.not_false, if_true, done.injEq, Prod.mk.injEq] at hrun
      exact .inl ⟨rfl, hrun.1 ▸ by decide, hrun.2.symm⟩
  | true =>
      simp only [hcalloc, Bool.not_true, Bool.false_eq_true, if_false] at hrun
      cases hfind : (List.range env.threads).find? fun id => env.create id ≠ 0 with
      | some id =>
          have hid : id < env.threads := List.mem_range.mp (List.mem_of_find?_eq_some hfind)
          have hcreate : env.create id ≠ 0 := by simpa using List.find?_some hfind
          simp only [hfind, done.injEq, Prod.mk.injEq] at hrun
          exact .inr (.inl ⟨rfl, ⟨id, hid, hcreate⟩, hrun.1 ▸ hcreate, hrun.2.symm⟩)
      | none =>
          have hcreate : ∀ id < env.threads, env.create id = 0 := fun id hid => by
            simpa using List.find?_eq_none.mp hfind id (List.mem_range.mpr hid)
          simp only [hfind] at hrun
          obtain ⟨xs, hxs, heq⟩ := bind_eq_done.mp hrun
          simp only [pure_eq, done.injEq, Prod.mk.injEq] at heq
          exact .inr (.inr ⟨rfl, hcreate, heq.1.symm, xs, mapM_eq_done.mp hxs, heq.2⟩)

/-- The threads that were started have extracted the store exactly if they completed their
windows. -/
theorem perm_runWorkers_iff (ht : t ≠ []) (hlen : t.length < 2 ^ 63)
    (hrun : runWorkers env t t.length = done (ret, objects)) :
    objects.Perm (workObjects t) ↔ env.calloc = true ∧ (∀ id < env.threads, env.create id = 0) ∧
      env.threads ≠ 0 ∧ ∀ id < env.threads,
        (env.worker id).Completes (getWorkAllocation t.length env.threads id).2 := by
  have hnone : ¬ [].Perm (workObjects t) := fun h => ht (by
    have hzero := h.length_eq
    rwa [length_workObjects, List.length_nil, eq_comm, List.length_eq_zero_iff] at hzero)
  obtain ⟨hcalloc, -, rfl⟩ | ⟨-, ⟨id, hid, hne⟩, -, rfl⟩ | ⟨hcalloc, hcreate, -, xs, hxs, rfl⟩ :=
    runWorkers_cases hrun
  · exact iff_of_false hnone fun h => by simp [hcalloc] at h
  · exact iff_of_false hnone fun h => hne (h.2.1 id hid)
  · rw [perm_workers_iff ht hlen hxs, and_iff_right hcalloc, and_iff_right hcreate]

/-- What a run has extracted is the store exactly if it attempts all rows. -/
theorem perm_extractorMain_iff (hlen : t.length < 2 ^ 63)
    (hrun : extractorMain env t = done (ret, objects)) :
    objects.Perm (workObjects t) ↔ env.AttemptsAll t := by
  by_cases h : env.Starts ∧ t ≠ []
  · rw [extractorMain_of_starts h.1 h.2] at hrun
    rw [perm_runWorkers_iff h.2 hlen hrun, ExtractorEnv.AttemptsAll, or_iff_right h.2,
      and_iff_right h.1]
  · obtain rfl := objects_eq_nil h hrun
    rw [List.nil_perm, ← List.length_eq_zero_iff, length_workObjects, List.length_eq_zero_iff]
    exact ⟨.inl, fun hall => hall.elim id fun hstarts => by_contra fun ht => h ⟨hstarts.1, ht⟩⟩

/-- **The exit status covers the work**: with 0 every row was extracted, if and only if
there is a thread and every thread with rows opens the store, fetches all of its
rows and connects — or the threads could not be created, and the status is not 0.
The rows of a store are fewer than `2^63`, for their ids are signed. -/
theorem extractor_exit_iff (hstart : env.Starts) (ht : t ≠ []) (hlen : t.length < 2 ^ 63)
    (hrun : extractorMain env t = done (ret, objects)) :
    (ret = 0 → objects.Perm (workObjects t)) ↔
      env.calloc = false ∨ (∃ id < env.threads, env.create id ≠ 0) ∨
        env.threads ≠ 0 ∧ ∀ id < env.threads,
          (env.worker id).Completes (getWorkAllocation t.length env.threads id).2 := by
  rw [extractorMain_of_starts hstart ht] at hrun
  obtain ⟨hcalloc, hret, -⟩ | ⟨-, hcreate, hret, -⟩ | ⟨hcalloc, hcreate, hret, xs, hxs, rfl⟩ :=
    runWorkers_cases hrun
  · exact iff_of_true (fun h => absurd h hret) (.inl hcalloc)
  · exact iff_of_true (fun h => absurd h hret) (.inr (.inl hcreate))
  · have hnone : ¬ ∃ id < env.threads, env.create id ≠ 0 := by
      rintro ⟨id, hid, hne⟩
      exact hne (hcreate id hid)
    simp only [hret, forall_true_left, hcalloc, Bool.true_eq_false, false_or, hnone]
    exact perm_workers_iff ht hlen hxs

/-- Two threads for one row: the first has none and cannot open the store. -/
theorem extractor_exit_iff_two :
    ((0 : Int) = 0 → [(⟨7, ['/', 'a']⟩ : WorkObject)].Perm (workObjects [⟨1, 7, ['/', 'a']⟩])) ↔
      true = false ∨ (∃ id < 2, (0 : Int) ≠ 0) ∨ 2 ≠ 0 ∧ ∀ id < 2,
        (if id = 0 then { openRet := 5, dispatch := { steps := [] } }
          else { dispatch := { steps := [.ok, .ok] } } :
          WorkerEnv).Completes (getWorkAllocation 1 2 id).2 :=
  @extractor_exit_iff
    { nthreads := 2
      worker := fun id =>
        if id = 0 then { openRet := 5, dispatch := { steps := [] } }
        else { dispatch := { steps := [.ok, .ok] } } }
    [⟨1, 7, ['/', 'a']⟩] _ _ ⟨rfl, rfl, rfl, rfl⟩ (by simp) (by decide) rfl

/-- One thread that cannot connect, or that has no memory for the path of its row:
nothing is extracted, and the status is 0. -/
theorem extractor_connect_failure_unreported :
    (extractorMain
        { nthreads := 1
          worker := fun _ => { dispatch := { steps := [.ok, .ok] }, connectRet := 5 } }
        [⟨1, 7, ['/', 'a']⟩] = done (0, []) ∧
      extractorMain
        { nthreads := 1
          worker := fun _ => { dispatch := { steps := [.ok, .ok], strdup := fun _ => false } } }
        [⟨1, 7, ['/', 'a']⟩] = done (0, [])) ∧
      ¬ [].Perm (workObjects [⟨1, 7, ['/', 'a']⟩]) :=
  ⟨⟨rfl, rfl⟩, fun h => absurd h.length_eq (by decide)⟩

/-- No thread at all. -/
example :
    extractorMain { worker := fun _ => { dispatch := { steps := [.ok, .ok] } } }
        [⟨1, 7, ['/', 'a']⟩] = done (0, []) := rfl

end Main

end Hpssix
