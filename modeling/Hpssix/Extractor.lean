import Hpssix.Workdata

/-!
# Hpssix.Extractor

The extractor (`tools/extractor/src/hpssix-extractor.c`): `nthreads` worker
threads share the rows of one workdata file.  Each thread computes its window
with `get_work_allocation` and fetches it with one dispatch.

* `workBoundary` — the windows are consecutive: window `id` runs from boundary
  `id` to boundary `id + 1`;
* `extractor_partition` — so the workers together fetch the appended sequence,
  and only a worker with an empty window fails.
-/

namespace Hpssix

open CText Cursor Rel

/-! ## the windows -/

/-- `get_work_allocation`: the offset and the count for thread `id`; the last
thread also gets the remainder. -/
def getWorkAllocation (totalObjects nthreads id : Nat) : Nat × Nat :=
  let perEach := totalObjects / nthreads
  (perEach * id, if id = nthreads - 1 then perEach + totalObjects % nthreads else perEach)

/-- Where the window of thread `i` starts; boundary `nthreads` is the end. -/
def workBoundary (totalObjects nthreads i : Nat) : Nat :=
  if i < nthreads then totalObjects / nthreads * i else totalObjects

theorem workBoundary_zero (totalObjects : Nat) {nthreads : Nat} (hn : 1 ≤ nthreads) :
    workBoundary totalObjects nthreads 0 = 0 := by
  simp [workBoundary, Nat.lt_of_lt_of_le Nat.zero_lt_one hn]

theorem workBoundary_end (totalObjects nthreads : Nat) :
    workBoundary totalObjects nthreads nthreads = totalObjects := by
  simp [workBoundary]

/-- The first `nthreads - 1` equal shares and the last one with the remainder. -/
theorem div_mul_pred_add (totalObjects : Nat) {nthreads : Nat} (hn : 1 ≤ nthreads) :
    totalObjects / nthreads * (nthreads - 1) +
      (totalObjects / nthreads + totalObjects % nthreads) = totalObjects := by
  obtain ⟨m, rfl⟩ : ∃ m, nthreads = m + 1 := ⟨nthreads - 1, by omega⟩
  have h := Nat.div_add_mod totalObjects (m + 1)
  rw [Nat.add_sub_cancel, ← Nat.add_assoc, ← Nat.mul_succ, Nat.mul_comm]
  exact h

/-- A thread's window lies between two boundaries. -/
theorem getWorkAllocation_eq {totalObjects nthreads id : Nat} (hid : id < nthreads) :
    getWorkAllocation totalObjects nthreads id =
      (workBoundary totalObjects nthreads id,
        workBoundary totalObjects nthreads (id + 1) - workBoundary totalObjects nthreads id) := by
  simp only [getWorkAllocation, workBoundary, if_pos hid]
  by_cases hlast : id = nthreads - 1
  · have hsum := div_mul_pred_add totalObjects (Nat.lt_of_le_of_lt (Nat.zero_le id) hid)
    have hend : ¬ id + 1 < nthreads := by omega
    rw [← hlast] at hsum
    rw [if_pos hlast, if_neg hend]
    exact Prod.ext rfl (Nat.eq_sub_of_add_eq' hsum)
  · have hnext : id + 1 < nthreads := by omega
    rw [if_neg hlast, if_pos hnext, Nat.mul_succ, Nat.add_sub_cancel_left]

theorem workBoundary_le_succ (totalObjects nthreads i : Nat) :
    workBoundary totalObjects nthreads i ≤ workBoundary totalObjects nthreads (i + 1) := by
  unfold workBoundary
  by_cases hnext : i + 1 < nthreads
  · rw [if_pos (by omega), if_pos hnext]
    exact Nat.mul_le_mul_left _ (Nat.le_succ i)
  · rw [if_neg hnext]
    split
    · next hi =>
        have hle : totalObjects / nthreads * i ≤ totalObjects / nthreads * nthreads :=
          Nat.mul_le_mul_left _ (Nat.le_of_lt hi)
        exact Nat.le_trans hle (Nat.div_mul_le_self totalObjects nthreads)
    · exact Nat.le_refl _

theorem workBoundary_le (totalObjects nthreads i : Nat) :
    workBoundary totalObjects nthreads i ≤ totalObjects := by
  unfold workBoundary
  split
  · next h =>
      exact Nat.le_trans (Nat.mul_le_mul_left _ (Nat.le_of_lt h)) (Nat.div_mul_le_self ..)
  · exact Nat.le_refl _

/-! ## the workers -/

/-- The builder's side: a new store, then one append for each file.  `none` if
an append does not return 0. -/
def workdataWrite (file : WorkFile) (work : List (UInt64 × Text)) : Option (List WorkRow) :=
  (workdataCreate file).bind fun t0 => work.foldlM (fun t w =>
    match workdataAppend (answer []) w.1 w.2 t with
    | some (0, t') => some t'
    | _ => none) t0

/-- What `extractor_worker_func` does with the store: compute the window, open
the store and dispatch. -/
def workerDispatch (t : List WorkRow) (totalObjects nthreads id : Nat) :
    Option (Nat × Worklist) :=
  let window := getWorkAllocation totalObjects nthreads id
  workdataDispatch (answer (sqlFetch window.1 window.2 t)) { offset := window.1, count := window.2 }

/-- The objects a thread goes on to extract: none after a failed dispatch. -/
def workerObjects : Option (Nat × Worklist) → List WorkObject
  | some (0, list) => list.objectList
  | _ => []

theorem workdataWrite_eq (file : WorkFile) (work : List (UInt64 × Text)) :
    workdataWrite file work = some (appendAll work []) := by
  suffices h : ∀ t : List WorkRow, work.foldlM (fun t w =>
      match workdataAppend (answer []) w.1 w.2 t with
      | some (0, t') => some t'
      | _ => none) t = some (appendAll work t) from h []
  induction work with
  | nil => exact fun t => rfl
  | cons w work ih =>
      intro t
      rw [List.foldlM_cons, workdataAppend_done]
      exact ih (sqlAppend w.1.toInt64 w.2 t)

/-- The rows in a thread's window, as work objects. -/
def windowObjects (work : List (UInt64 × Text)) (offset count : Nat) : List WorkObject :=
  (limit offset count work).map fun w => ⟨w.1, w.2⟩

theorem map_readObject_sqlFetch (work : List (UInt64 × Text)) (offset count : Nat) :
    (sqlFetch offset count (appendAll work [])).map readObject =
      windowObjects work offset count := by
  rw [sqlFetch_appendAll, windowObjects, List.map_map]
  refine List.map_congr_left fun w _ => ?_
  simp [readObject]

/-- A worker ends up with the rows of its window, also when the dispatch fails
for want of rows. -/
theorem workerObjects_workerDispatch (work : List (UInt64 × Text))
    (totalObjects nthreads id : Nat) :
    workerObjects (workerDispatch (appendAll work []) totalObjects nthreads id) =
      windowObjects work (getWorkAllocation totalObjects nthreads id).1
        (getWorkAllocation totalObjects nthreads id).2 := by
  simp only [workerDispatch, workdataDispatch_answer, ← map_readObject_sqlFetch]
  split
  · next h => rw [h]; rfl
  · rfl

/-- A dispatch returns an error only if its window has no row. -/
theorem workerDispatch_rc (work : List (UInt64 × Text)) (totalObjects nthreads id : Nat) :
    ∃ rc list, workerDispatch (appendAll work []) totalObjects nthreads id = some (rc, list) ∧
      (rc ≠ 0 → limit (getWorkAllocation totalObjects nthreads id).1
        (getWorkAllocation totalObjects nthreads id).2 work = []) := by
  simp only [workerDispatch, workdataDispatch_answer, sqlFetch_appendAll]
  split
  · next h => exact ⟨_, _, rfl, fun _ => List.map_eq_nil_iff.mp h⟩
  · exact ⟨_, _, rfl, fun h => absurd rfl h⟩

/-- A window inside the sequence without rows has count 0. -/
theorem count_eq_zero_of_limit {α : Type} {l : List α} {offset count : Nat}
    (hle : offset + count ≤ l.length) (h : limit offset count l = []) : count = 0 := by
  have hlen := congrArg List.length h
  simp only [limit, List.length_take, List.length_drop, List.length_nil] at hlen
  omega

/-- **Extraction work partition**: after any sequence of appends to a new
store, the workers' lists, concatenated in the order of the ids, are the
appended sequence, and a dispatch fails only where the allocation is empty. -/
theorem extractor_partition (file : WorkFile) (work : List (UInt64 × Text)) (nthreads : Nat)
    (hn : 1 ≤ nthreads) :
    ∃ t total, workdataWrite file work = some t ∧
      workdataGetTotalCount (answer (sqlTotalcount t)) = some (.ok total) ∧
      ((List.range nthreads).map fun id =>
        workerObjects (workerDispatch t total nthreads id)).flatten =
          work.map (fun w => ⟨w.1, w.2⟩) ∧
      ∀ id < nthreads, ∃ rc list, workerDispatch t total nthreads id = some (rc, list) ∧
        (rc ≠ 0 → (getWorkAllocation total nthreads id).2 = 0) := by
  have hlen : (appendAll work []).length = work.length := by
    simpa using congrArg List.length (map_appendAll work [])
  refine ⟨appendAll work [], work.length, workdataWrite_eq file work, ?_, ?_, ?_⟩
  · rw [workdataGetTotalCount_answer, hlen]
  · have hwin : ∀ id ∈ List.range nthreads,
        workerObjects (workerDispatch (appendAll work []) work.length nthreads id) =
          (limit (workBoundary work.length nthreads id)
            (workBoundary work.length nthreads (id + 1) -
              workBoundary work.length nthreads id) work).map fun w => ⟨w.1, w.2⟩ := by
      intro id hid
      rw [workerObjects_workerDispatch, getWorkAllocation_eq (List.mem_range.mp hid)]
      rfl
    have hall := flatten_windows (workBoundary work.length nthreads)
      (workBoundary_zero work.length hn) (workBoundary_le_succ work.length nthreads) work nthreads
    rw [workBoundary_end, List.take_length] at hall
    rw [List.map_congr_left hwin]
    conv_rhs => rw [← hall, List.map_flatten, List.map_map]
    rfl
  · intro id hid
    obtain ⟨rc, list, hdisp, hempty⟩ := workerDispatch_rc work work.length nthreads id
    refine ⟨rc, list, hdisp, fun hrc => count_eq_zero_of_limit ?_ (hempty hrc)⟩
    have hle := workBoundary_le_succ work.length nthreads id
    have hend := workBoundary_le work.length nthreads (id + 1)
    rw [getWorkAllocation_eq hid]
    omega

/-- Three files over two threads: the second thread gets the remainder. -/
theorem extractor_partition_two :
    1 ≤ 2 ∧ ∃ t total,
      workdataWrite none [(7, "/a".toList), (8, "/b".toList), (9, "/c".toList)] = some t ∧
      workdataGetTotalCount (answer (sqlTotalcount t)) = some (.ok total) ∧
      ((List.range 2).map fun id => workerObjects (workerDispatch t total 2 id)).flatten =
        [(7, "/a".toList), (8, "/b".toList), (9, "/c".toList)].map (fun w => ⟨w.1, w.2⟩) ∧
      ∀ id < 2, ∃ rc list, workerDispatch t total 2 id = some (rc, list) ∧
        (rc ≠ 0 → (getWorkAllocation total 2 id).2 = 0) :=
  ⟨by decide, extractor_partition none _ 2 (by decide)⟩

end Hpssix
