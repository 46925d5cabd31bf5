import Hpssix.Base.Keyed
import Hpssix.Base.Trace
import Hpssix.DoExtract
import Hpssix.ExtractorRun

/-!
# Hpssix.ExtractorThreads

The worker threads of the extractor at the same time (`extractor_worker_func` and
`do_extract` in `tools/extractor/src/hpssix-extractor.c`).  Each thread has a
database connection of its own and its own part of the objects, and they share
`n_extracted`, which is read and written without a lock: `n_extracted++` is a load
and a store, and other threads come in between.

* `doExtract_put` — one object writes its row and is counted, or nothing happens.
* `threads_agree` — whatever the number of threads and their interleaving, the
  documents are those of one thread that takes the objects in order; the count is
  never more than that thread's, and zero for the same work only.
* `threads_join` — every interleaving comes to its end.
-/

namespace Hpssix

open CText Fate Keyed Rel Trace

/-- An object to extract, with what `do_extract` meets at it. -/
abbrev ExtractStep := ExtractEnv × WorkObject

/-! ## the threads -/

/-- Where a thread is: before its next object, or in the increment of the counter. -/
inductive ThreadPc where
  | next
  | load
  | store (loaded : UInt64)
deriving DecidableEq

/-- A thread: the objects it still has. -/
structure ExtractThread where
  rest : List ExtractStep
  pc : ThreadPc := .next

/-- The threads of the process, the documents and the counter.  A call that does not
return ends the process. -/
structure ThreadPool where
  document : DocumentTable
  nExtracted : UInt64 := 0
  threads : List ExtractThread
  died : Bool := false

namespace ThreadPool

variable (verbose : Bool)

/-- One thread goes on.  `do_extract` counts an object as one increment. -/
def stepThread (σ : ThreadPool) (i : Nat) (t : ExtractThread) : ThreadPool :=
  match t.pc, t.rest with
  | .next, [] => σ
  | .next, (env, object) :: rest =>
    match doExtract env verbose object ⟨σ.document, 0⟩ with
    | (done _, s) =>
      { σ with
        document := s.document
        threads := σ.threads.set i ⟨rest, if s.nExtracted = 0 then .next else .load⟩ }
    | (_, s) => { σ with document := s.document, died := true }
  | .load, rest => { σ with threads := σ.threads.set i ⟨rest, .store σ.nExtracted⟩ }
  | .store loaded, rest =>
    { σ with nExtracted := loaded + 1, threads := σ.threads.set i ⟨rest, .next⟩ }

/-- A thread of the running process goes on. -/
def step (σ : ThreadPool) (i : Nat) : ThreadPool :=
  if σ.died then σ
  else
    match σ.threads[i]? with
    | some t => σ.stepThread verbose i t
    | none => σ

/-- `pthread_join` of all threads has returned. -/
def Joined (σ : ThreadPool) : Prop :=
  σ.died = false ∧ ∀ t ∈ σ.threads, t.rest = [] ∧ t.pc = .next

/-- `pthread_create` for each part of the objects. -/
def create (document : DocumentTable) (parts : List (List ExtractStep)) : ThreadPool where
  document := document
  threads := parts.map fun rest => { rest }

end ThreadPool

/-! ## what one object does -/

/-- The row that `hpssix_db_index_tsv` writes, if it does. -/
def IndexEnv.row (env : IndexEnv) (objectId : UInt64) (metadata : Text) (text : Option Text) :
    Option TextRow :=
  let row : TextRow := ⟨objectId, cString metadata, some ((text.map cString).getD [])⟩
  if env.escapes (cString metadata) ∧ ¬ (text.any fun text => !env.escapes (cString text)) ∧
    env.takes row then some row else none

/-- The row that `do_extract` writes for an object, if it does. -/
def indexedRow (verbose : Bool) (x : ExtractStep) : Option TextRow :=
  match x.1.stat <|> x.1.fopen <|> x.1.tmpfile, x.1.request verbose with
  | none, done (_, some metadata, text) => x.1.index.row x.2.objectId metadata text
  | _, _ => none

/-- The state with the row, and the object counted. -/
def ExtractState.put (s : ExtractState) : Option TextRow → ExtractState
  | some row => ⟨s.document.insert row, s.nExtracted + 1⟩
  | none => s

/-- A row is stored where the environment yields one, and otherwise the call fails. -/
theorem hpssixDbIndexTsv_row (env : IndexEnv) (objectId : UInt64) (metadata : Text)
    (text : Option Text) (t : DocumentTable) :
    (∃ row, env.row objectId metadata text = some row ∧
      hpssixDbIndexTsv env objectId (some metadata) text t = (0, t.insert row)) ∨
    env.row objectId metadata text = none ∧
      ∃ ret ≠ 0, hpssixDbIndexTsv env objectId (some metadata) text t = (ret, t) := by
  unfold hpssixDbIndexTsv IndexEnv.row
  dsimp only
  split_ifs <;> simp_all

/-- **One object**: a row is written and the object counted, or nothing happens; which
of it does not depend on the documents. -/
theorem doExtract_put (verbose : Bool) (x : ExtractStep) (s : ExtractState) :
    (doExtract x.1 verbose x.2 s).2 = s.put (indexedRow verbose x) := by
  unfold doExtract indexedRow
  cases x.1.stat <|> x.1.fopen <|> x.1.tmpfile with
  | some errno => rfl
  | none =>
      cases x.1.request verbose with
      | crash => rfl
      | hang => rfl
      | done data =>
          obtain ⟨ret, metadata, text⟩ := data
          cases metadata with
          | none => rfl
          | some metadata =>
              dsimp only [ExtractEnv.indexData]
              obtain ⟨row, hrow, hindex⟩ | ⟨hrow, ret', hret, hindex⟩ :=
                hpssixDbIndexTsv_row x.1.index x.2.objectId metadata text s.document
              · rw [hrow, hindex]
                rfl
              · rw [hrow, hindex]
                simp [ExtractState.put, hret]

/-- What `do_extract` returns does not depend on the documents. -/
theorem doExtract_fst (verbose : Bool) (x : ExtractStep) (s s' : ExtractState) :
    (doExtract x.1 verbose x.2 s).1 = (doExtract x.1 verbose x.2 s').1 := by
  unfold doExtract
  cases x.1.stat <|> x.1.fopen <|> x.1.tmpfile with
  | some errno => rfl
  | none =>
      cases x.1.request verbose with
      | crash => rfl
      | hang => rfl
      | done data =>
          obtain ⟨ret, metadata, text⟩ := data
          cases metadata with
          | none => rfl
          | some metadata =>
              dsimp only [ExtractEnv.indexData]
              unfold hpssixDbIndexTsv
              dsimp only
              split_ifs <;> rfl

theorem oid_of_indexedRow {verbose : Bool} {x : ExtractStep} {row : TextRow}
    (h : indexedRow verbose x = some row) : row.oid = x.2.objectId := by
  unfold indexedRow at h
  split at h
  · unfold IndexEnv.row at h
    dsimp only at h
    split at h
    · cases h
      rfl
    · exact nomatch h
  · exact nomatch h

/-- `do_extract` returns. -/
def Returns (verbose : Bool) (x : ExtractStep) : Prop :=
  ∃ ret, (doExtract x.1 verbose x.2 ⟨⟨[], List.nodup_nil⟩, 0⟩).1 = done ret

/-! ## one thread -/

/-- The objects in order, if each returns. -/
theorem extractObjects_eq {verbose : Bool} {xs : List ExtractStep}
    (h : ∀ x ∈ xs, Returns verbose x) (s : ExtractState) :
    (extractObjects verbose xs s).2 =
      xs.foldl (fun s x => s.put (indexedRow verbose x)) s := by
  induction xs generalizing s with
  | nil => rfl
  | cons x xs ih =>
      obtain ⟨env, object⟩ := x
      obtain ⟨ret, hret⟩ := h (env, object) List.mem_cons_self
      have hfst : (doExtract env verbose object s).1 = done ret :=
        (doExtract_fst verbose (env, object) s _).trans hret
      have hsnd := doExtract_put verbose (env, object) s
      rw [extractObjects, List.foldl_cons]
      cases hdo : doExtract env verbose object s with
      | mk ret' s' =>
          rw [hdo] at hfst hsnd
          obtain rfl : ret' = done ret := hfst
          rw [← hsnd]
          exact ih (fun x hx => h x (List.mem_cons_of_mem _ hx)) s'

/-- The documents after `do_extract` on an object. -/
def putDoc (verbose : Bool) (t : DocumentTable) (x : ExtractStep) : DocumentTable :=
  match indexedRow verbose x with
  | some row => t.insert row
  | none => t

/-- The table after a row is put, if there is one. -/
theorem document_put (verbose : Bool) (s : ExtractState) (x : ExtractStep) :
    (s.put (indexedRow verbose x)).document = putDoc verbose s.document x := by
  unfold putDoc
  cases indexedRow verbose x <;> rfl

/-- How many of the objects are counted. -/
def countIndexed (verbose : Bool) (xs : List ExtractStep) : Nat :=
  xs.countP fun x => (indexedRow verbose x).isSome

/-- The table after all rows are put. -/
theorem document_foldl_put (verbose : Bool) (xs : List ExtractStep) (s : ExtractState) :
    (xs.foldl (fun s x => s.put (indexedRow verbose x)) s).document =
      xs.foldl (putDoc verbose) s.document := by
  induction xs generalizing s with
  | nil => rfl
  | cons x xs ih => rw [List.foldl_cons, ih, document_put, List.foldl_cons]

/-- Each row that is put counts once. -/
theorem nExtracted_foldl_put (verbose : Bool) (xs : List ExtractStep) (s : ExtractState) :
    (xs.foldl (fun s x => s.put (indexedRow verbose x)) s).nExtracted =
      s.nExtracted + UInt64.ofNat (countIndexed verbose xs) := by
  induction xs generalizing s with
  | nil => simp [countIndexed]
  | cons x xs ih =>
      rw [List.foldl_cons, ih, countIndexed, countIndexed, List.countP_cons]
      cases hrow : indexedRow verbose x with
      | none => simp [ExtractState.put]
      | some row => simp [ExtractState.put, UInt64.add_assoc, UInt64.add_comm 1]

/-- An object changes the rows of its own id only. -/
theorem touches_putDoc (verbose : Bool) :
    Touches (fun (t : DocumentTable) k => rowsAt TextRow.oid k t.rows) (fun x => x.2.objectId)
      (putDoc verbose) fun x rows =>
        match indexedRow verbose x with
        | some row => if rows = [] then [row] else rows.map fun r => DocumentTable.setExcluded r row
        | none => rows where
  self t x := by
    unfold putDoc
    cases hrow : indexedRow verbose x with
    | none => rfl
    | some row =>
        have hat := rowsAt_upsert_of_mem DocumentTable.setExcluded_oid DocumentTable.id_oid
          (DocumentTable.nodup_singleton row) (List.mem_singleton_self row) t.rows
        rw [oid_of_indexedRow hrow] at hat
        exact hat
  other t x k hk := by
    unfold putDoc
    cases hrow : indexedRow verbose x with
    | none => rfl
    | some row =>
        refine rowsAt_upsert_of_notMem DocumentTable.setExcluded_oid DocumentTable.id_oid
          (DocumentTable.nodup_singleton row) ?_ t.rows
        simpa [oid_of_indexedRow hrow] using hk

/-- The order of the objects does not show in the documents. -/
theorem documents_perm {verbose : Bool} {xs ys : List ExtractStep} (hperm : xs.Perm ys)
    (hdistinct : (xs.map fun x => x.2.objectId).Nodup) (t : DocumentTable) :
    (xs.foldl (putDoc verbose) t).rows.Perm (ys.foldl (putDoc verbose) t).rows :=
  perm_of_rowsAt TextRow.oid fun k => (touches_putDoc verbose).view_foldl_perm hperm hdistinct t k

/-! ## what a thread can do -/

namespace ThreadPool

/-- A thread that is in the increment of the counter. -/
def InIncrement (t : ExtractThread) : Bool := t.pc ≠ .next

inductive Change (verbose : Bool) (σ : ThreadPool) : ThreadPool → Prop where
  | same : Change verbose σ σ
  | dies (σ' : ThreadPool) (h : σ'.died = true) : Change verbose σ σ'
  | extracts {i : Nat} {t : ExtractThread} {x : ExtractStep} {rest : List ExtractStep}
      (hi : σ.threads[i]? = some t) (hpc : t.pc = .next) (hrest : t.rest = x :: rest)
      (hreturns : Returns verbose x) :
      Change verbose σ { σ with
        document := putDoc verbose σ.document x
        threads := σ.threads.set i
          ⟨rest, if (indexedRow verbose x).isSome then .load else .next⟩ }
  | loads {i : Nat} {t : ExtractThread} (hi : σ.threads[i]? = some t) (hpc : t.pc = .load) :
      Change verbose σ { σ with threads := σ.threads.set i ⟨t.rest, .store σ.nExtracted⟩ }
  | stores {i : Nat} {t : ExtractThread} {loaded : UInt64} (hi : σ.threads[i]? = some t)
      (hpc : t.pc = .store loaded) :
      Change verbose σ { σ with
        nExtracted := loaded + 1
        threads := σ.threads.set i ⟨t.rest, .next⟩ }

/-- The turn of a thread is one of the changes. -/
theorem change_stepThread {verbose : Bool} {σ : ThreadPool} {i : Nat} {t : ExtractThread}
    (hi : σ.threads[i]? = some t) : Change verbose σ (σ.stepThread verbose i t) := by
  obtain ⟨rest, pc⟩ := t
  cases pc with
  | load => exact .loads hi rfl
  | store loaded => exact .stores hi rfl
  | next =>
      cases rest with
      | nil => exact .same
      | cons x rest =>
          obtain ⟨env, object⟩ := x
          have hput := doExtract_put verbose (env, object) ⟨σ.document, 0⟩
          have hfst := doExtract_fst verbose (env, object) ⟨σ.document, 0⟩ ⟨⟨[], List.nodup_nil⟩, 0⟩
          unfold stepThread
          dsimp only
          cases hdo : doExtract env verbose object ⟨σ.document, 0⟩ with
          | mk ret s =>
              rw [hdo] at hput hfst
              obtain rfl : s = _ := hput
              cases ret with
              | crash => exact .dies _ rfl
              | hang => exact .dies _ rfl
              | done ret =>
                  dsimp only
                  rw [document_put]
                  have hpc : (if (ExtractState.put ⟨σ.document, 0⟩
                      (indexedRow verbose (env, object))).nExtracted = 0 then ThreadPc.next
                      else .load) =
                      if (indexedRow verbose (env, object)).isSome then .load else .next := by
                    cases indexedRow verbose (env, object) with
                    | none => rfl
                    | some row => rfl
                  rw [hpc]
                  exact .extracts hi rfl rfl ⟨ret, hfst.symm⟩

/-- The turn of a thread that is not there changes nothing. -/
theorem change (verbose : Bool) (σ : ThreadPool) (i : Nat) :
    Change verbose σ (σ.step verbose i) := by
  unfold step
  split
  · exact .same
  · split
    · next t hi => exact change_stepThread hi
    · exact .same

/-! ## the invariant -/

/-- The objects that the threads still have. -/
def remaining (σ : ThreadPool) : List ExtractStep := σ.threads.flatMap ExtractThread.rest

/-- The increments that are not finished. -/
def increments (σ : ThreadPool) : Nat := σ.threads.countP InIncrement

/-- The running process has done `xs`: the documents show them, and of the counted ones
`stored` increments are finished, more than any thread has read. -/
structure Going (verbose : Bool) (document : DocumentTable) (all : List ExtractStep)
    (σ : ThreadPool) (xs : List ExtractStep) (stored : Nat) : Prop where
  split : (xs ++ σ.remaining).Perm all
  documents : σ.document = xs.foldl (putDoc verbose) document
  returns : ∀ x ∈ xs, Returns verbose x
  counted : stored + σ.increments = countIndexed verbose xs
  counter : σ.nExtracted.toNat ≤ stored
  loaded : ∀ t ∈ σ.threads, ∀ v, t.pc = .store v → v.toNat ≤ stored
  positive : 0 < stored → 0 < σ.nExtracted.toNat

/-- The running process has done some of its objects. -/
def Ok (verbose : Bool) (document : DocumentTable) (all : List ExtractStep) (σ : ThreadPool) :
    Prop :=
  σ.died = false → ∃ xs stored, Going verbose document all σ xs stored

section Set
variable {α β : Type _} {l : List α} {i : Nat} {a b : α}

/-- One element of a list is exchanged. -/
theorem perm_set (hi : l[i]? = some a) : (a :: l.set i b).Perm (b :: l) := by
  obtain ⟨hlt, rfl⟩ := List.getElem?_eq_some_iff.mp hi
  have hset := (List.set_perm_cons_eraseIdx hlt b).cons l[i]
  have hget := (List.getElem_cons_eraseIdx_perm hlt).cons b
  exact hset.trans ((List.Perm.swap ..).trans hget)

theorem mem_of_mem_set {c : α} (h : c ∈ l.set i b) : c = b ∨ c ∈ l := by
  obtain hc | hc := List.mem_or_eq_of_mem_set h
  · exact .inr hc
  · exact .inl hc

end Set

/-- The objects and the increments when one thread goes on. -/
theorem remaining_set {σ : ThreadPool} {i : Nat} {t : ExtractThread}
    (hi : σ.threads[i]? = some t) (t' : ExtractThread) :
    (t.rest ++ (σ.threads.set i t').flatMap ExtractThread.rest).Perm (t'.rest ++ σ.remaining) := by
  have hperm := (perm_set hi (b := t')).flatMap_right ExtractThread.rest
  rwa [List.flatMap_cons, List.flatMap_cons] at hperm

/-- What a thread adds to the increments. -/
def ownIncrement (t : ExtractThread) : Nat := if InIncrement t then 1 else 0

/-- How many threads are inside an increment once one of them has moved. -/
theorem increments_set {σ : ThreadPool} {i : Nat} {t : ExtractThread}
    (hi : σ.threads[i]? = some t) (t' : ExtractThread) :
    (σ.threads.set i t').countP InIncrement + ownIncrement t =
      σ.increments + ownIncrement t' := by
  have hcount := (perm_set hi (b := t')).countP_eq InIncrement
  rwa [List.countP_cons, List.countP_cons] at hcount

/-- A thread between two objects is inside no increment. -/
theorem ownIncrement_next {t : ExtractThread} (h : t.pc = .next) : ownIncrement t = 0 := by
  simp [ownIncrement, InIncrement, h]

/-- Anywhere else it is inside one. -/
theorem ownIncrement_of_ne {t : ExtractThread} (h : t.pc ≠ .next) : ownIncrement t = 1 := by
  simp [ownIncrement, InIncrement, h]

/-- An object that is counted starts an increment. -/
theorem countIndexed_append (verbose : Bool) (xs : List ExtractStep) (x : ExtractStep)
    (rest : List ExtractStep) :
    countIndexed verbose (xs ++ [x]) = countIndexed verbose xs +
      ownIncrement ⟨rest, if (indexedRow verbose x).isSome then .load else .next⟩ := by
  unfold countIndexed
  rw [List.countP_append, List.countP_singleton]
  cases (indexedRow verbose x).isSome <;> rfl

/-- No more rows are counted than there are objects. -/
theorem countIndexed_le {verbose : Bool} {document : DocumentTable} {all xs : List ExtractStep}
    {σ : ThreadPool} {stored : Nat} (h : Going verbose document all σ xs stored) :
    countIndexed verbose xs ≤ all.length := by
  have hlen := h.split.length_eq
  have hle : countIndexed verbose xs ≤ xs.length := List.countP_le_length
  rw [List.length_append] at hlen
  omega

/-- A thread that extracts its next object keeps the invariant. -/
theorem ok_extracts {verbose : Bool} {document : DocumentTable} {all : List ExtractStep}
    {σ : ThreadPool} {i : Nat} {t : ExtractThread} {x : ExtractStep} {rest xs : List ExtractStep}
    {stored : Nat} (hg : Going verbose document all σ xs stored)
    (hi : σ.threads[i]? = some t) (hpc : t.pc = .next) (hrest : t.rest = x :: rest)
    (hreturns : Returns verbose x) :
    Going verbose document all { σ with
      document := putDoc verbose σ.document x
      threads := σ.threads.set i
        ⟨rest, if (indexedRow verbose x).isSome then .load else .next⟩ } (xs ++ [x]) stored where
  split := by
    have hperm := remaining_set hi ⟨rest, if (indexedRow verbose x).isSome then .load else .next⟩
    rw [hrest] at hperm
    have hx := (List.perm_append_left_iff rest).mp (List.perm_middle.trans hperm)
    rw [List.append_assoc]
    exact (hx.append_left xs).trans hg.split
  documents := by
    rw [List.foldl_append, ← hg.documents]
    rfl
  returns y hy := by
    rcases List.mem_append.mp hy with hy | hy
    · exact hg.returns y hy
    · rw [List.mem_singleton.mp hy]
      exact hreturns
  counted := by
    have hinc := increments_set hi
      ⟨rest, if (indexedRow verbose x).isSome then .load else .next⟩
    rw [ownIncrement_next hpc] at hinc
    rw [countIndexed_append verbose xs x rest, ← hg.counted, Nat.add_assoc, ← hinc]
    rfl
  counter := hg.counter
  loaded t' ht' v hv := by
    obtain rfl | ht' := mem_of_mem_set ht'
    · cases hrow : (indexedRow verbose x).isSome <;> simp [hrow] at hv
    · exact hg.loaded t' ht' v hv
  positive := hg.positive

/-- A thread that reads the counter keeps it. -/
theorem ok_loads {verbose : Bool} {document : DocumentTable} {all : List ExtractStep}
    {σ : ThreadPool} {i : Nat} {t : ExtractThread} {xs : List ExtractStep} {stored : Nat}
    (hg : Going verbose document all σ xs stored) (hi : σ.threads[i]? = some t)
    (hpc : t.pc = .load) :
    Going verbose document all
      { σ with threads := σ.threads.set i ⟨t.rest, .store σ.nExtracted⟩ } xs stored where
  split := by
    have hperm := remaining_set hi ⟨t.rest, .store σ.nExtracted⟩
    exact (((List.perm_append_left_iff t.rest).mp hperm).append_left xs).trans hg.split
  documents := hg.documents
  returns := hg.returns
  counted := by
    have hinc := increments_set hi ⟨t.rest, .store σ.nExtracted⟩
    rw [ownIncrement_of_ne (by simp [hpc]), ownIncrement_of_ne (by simp)] at hinc
    rw [← hg.counted, ← Nat.add_right_cancel hinc]
    rfl
  counter := hg.counter
  loaded t' ht' v hv := by
    obtain rfl | ht' := mem_of_mem_set ht'
    · obtain rfl : σ.nExtracted = v := by simpa using hv
      exact hg.counter
    · exact hg.loaded t' ht' v hv
  positive := hg.positive

/-- An increment that ends writes a number no higher than the finished ones; that the
counter does not overflow is the only use of the bound. -/
theorem ok_stores {verbose : Bool} {document : DocumentTable} {all : List ExtractStep}
    (hlen : all.length < 2 ^ 64) {σ : ThreadPool} {i : Nat} {t : ExtractThread} {loaded : UInt64}
    {xs : List ExtractStep} {stored : Nat} (hg : Going verbose document all σ xs stored)
    (hi : σ.threads[i]? = some t) (hpc : t.pc = .store loaded) :
    Going verbose document all { σ with
      nExtracted := loaded + 1
      threads := σ.threads.set i ⟨t.rest, .next⟩ } xs (stored + 1) := by
  have hinc := increments_set hi ⟨t.rest, .next⟩
  rw [ownIncrement_of_ne (by simp [hpc]), ownIncrement_next rfl] at hinc
  have hloaded := hg.loaded t (List.mem_of_getElem? hi) loaded hpc
  have hcounted := hg.counted
  have hle := countIndexed_le hg
  have hnat : (loaded + 1).toNat = loaded.toNat + 1 := by
    rw [UInt64.toNat_add, UInt64.toNat_one, Nat.mod_eq_of_lt]
    omega
  refine ⟨?_, hg.documents, hg.returns, ?_, ?_, fun t' ht' v hv => ?_, fun _ => ?_⟩
  · have hperm := remaining_set hi ⟨t.rest, .next⟩
    exact (((List.perm_append_left_iff t.rest).mp hperm).append_left xs).trans hg.split
  · show stored + 1 + (σ.threads.set i _).countP InIncrement = _
    omega
  · show (loaded + 1).toNat ≤ _
    omega
  · obtain rfl | ht' := mem_of_mem_set ht'
    · simp at hv
    · exact Nat.le_succ_of_le (hg.loaded t' ht' v hv)
  · show 0 < (loaded + 1).toNat
    omega

/-- Every change keeps the invariant. -/
theorem ok_change {verbose : Bool} {document : DocumentTable} {all : List ExtractStep}
    (hlen : all.length < 2 ^ 64) {σ σ' : ThreadPool} (h : Ok verbose document all σ)
    (hc : Change verbose σ σ') : Ok verbose document all σ' := by
  intro halive
  cases hc with
  | same => exact h halive
  | dies σ' hdied => rw [hdied] at halive; exact nomatch halive
  | extracts hi hpc hrest hreturns =>
      obtain ⟨xs, stored, hg⟩ := h halive
      exact ⟨_, _, ok_extracts hg hi hpc hrest hreturns⟩
  | loads hi hpc =>
      obtain ⟨xs, stored, hg⟩ := h halive
      exact ⟨_, _, ok_loads hg hi hpc⟩
  | stores hi hpc =>
      obtain ⟨xs, stored, hg⟩ := h halive
      exact ⟨_, _, ok_stores hlen hg hi hpc⟩

/-- The threads start within the invariant. -/
theorem ok_create (verbose : Bool) (document : DocumentTable) (parts : List (List ExtractStep)) :
    Ok verbose document parts.flatten (create document parts) := by
  refine fun _ => ⟨[], 0, ⟨?_, rfl, fun x hx => absurd hx List.not_mem_nil, ?_, Nat.le_refl 0,
    fun t ht v hv => ?_, fun hpos => absurd hpos (Nat.lt_irrefl 0)⟩⟩
  · rw [List.nil_append, remaining, create, List.flatMap_map]
    exact List.Perm.of_eq List.flatMap_id'
  · simp [increments, create, countIndexed, InIncrement, List.countP_map]
  · obtain ⟨rest, _, rfl⟩ := List.mem_map.mp ht
    simp at hv

/-- The invariant holds after every schedule. -/
theorem ok_run (verbose : Bool) (document : DocumentTable) (parts : List (List ExtractStep))
    (hlen : parts.flatten.length < 2 ^ 64) (schedule : List Nat) :
    Ok verbose document parts.flatten (run (step verbose) (create document parts) schedule) :=
  invariant_run_all schedule (ok_create verbose document parts) fun σ i h =>
    ok_change hlen h (change verbose σ i)

/-- When the threads have come to their end, all objects are done and no increment is open. -/
theorem Going.of_joined {verbose : Bool} {document : DocumentTable} {all xs : List ExtractStep}
    {σ : ThreadPool} {stored : Nat} (h : Going verbose document all σ xs stored)
    (hjoined : σ.Joined) : xs.Perm all ∧ stored = countIndexed verbose xs := by
  have hremaining : σ.remaining = [] :=
    List.flatMap_eq_nil_iff.mpr fun t ht => (hjoined.2 t ht).1
  have hincrements : σ.increments = 0 :=
    List.countP_eq_zero.mpr fun t ht => by simp [InIncrement, (hjoined.2 t ht).2]
  have hsplit := h.split
  have hcounted := h.counted
  rw [hremaining, List.append_nil] at hsplit
  rw [hincrements, Nat.add_zero] at hcounted
  exact ⟨hsplit, hcounted⟩

/-! ## every thread comes to its end -/

/-- How many more times a thread goes on. -/
def turnsLeft (t : ExtractThread) : Nat :=
  3 * t.rest.length + match t.pc with
    | .next => 0
    | .load => 2
    | .store _ => 1

theorem turnsLeft_eq_zero {t : ExtractThread} (h : turnsLeft t = 0) :
    t.rest = [] ∧ t.pc = .next := by
  obtain ⟨rest, pc⟩ := t
  cases pc <;> simp_all [turnsLeft]

/-- The process goes on, and the objects that are left are such that it will. -/
structure Runs (verbose : Bool) (σ : ThreadPool) : Prop where
  alive : σ.died = false
  returns : ∀ t ∈ σ.threads, ∀ x ∈ t.rest, Returns verbose x

section Turns
variable {verbose : Bool} {σ : ThreadPool} {i : Nat} {t : ExtractThread}

/-- A turn of a thread is one turn less that it needs. -/
theorem turns_stepThread (hi : σ.threads[i]? = some t) (hreturns : ∀ x ∈ t.rest, Returns verbose x) :
    ∃ t', (σ.stepThread verbose i t).threads = σ.threads.set i t' ∧
      (σ.stepThread verbose i t).died = σ.died ∧ t'.rest ⊆ t.rest ∧
      turnsLeft t' ≤ turnsLeft t - 1 := by
  obtain ⟨rest, pc⟩ := t
  cases pc with
  | load => exact ⟨⟨rest, .store σ.nExtracted⟩, rfl, rfl, List.Subset.refl _, by simp [turnsLeft]⟩
  | store loaded => exact ⟨⟨rest, .next⟩, rfl, rfl, List.Subset.refl _, by simp [turnsLeft]⟩
  | next =>
      cases rest with
      | nil =>
          obtain ⟨hlt, hget⟩ := List.getElem?_eq_some_iff.mp hi
          have hset : σ.threads.set i ⟨[], .next⟩ = σ.threads := by
            rw [← hget, List.set_getElem_self]
          exact ⟨⟨[], .next⟩, hset.symm, rfl, List.Subset.refl _, Nat.le_refl 0⟩
      | cons x rest =>
          obtain ⟨env, object⟩ := x
          obtain ⟨ret, hret⟩ := hreturns (env, object) List.mem_cons_self
          have hfst := (doExtract_fst verbose (env, object) ⟨σ.document, 0⟩ _).trans hret
          unfold stepThread
          dsimp only
          cases hdo : doExtract env verbose object ⟨σ.document, 0⟩ with
          | mk ret' s =>
              rw [hdo] at hfst
              obtain rfl : ret' = done ret := hfst
              refine ⟨_, rfl, rfl, List.subset_cons_self _ _, ?_⟩
              split <;> simp [turnsLeft] <;> omega

/-- A turn of one thread: the others stay where they are. -/
theorem turns_step (h : Runs verbose σ) (i : Nat) :
    Runs verbose (σ.step verbose i) ∧ ∀ k t', (σ.step verbose i).threads[k]? = some t' →
      ∃ t, σ.threads[k]? = some t ∧ turnsLeft t' ≤ turnsLeft t - if i = k then 1 else 0 := by
  unfold step
  rw [h.alive]
  simp only [Bool.false_eq_true, if_false]
  cases hi : σ.threads[i]? with
  | none =>
      refine ⟨h, fun k t' ht' => ⟨t', ht', ?_⟩⟩
      rw [if_neg]
      · exact Nat.le_refl _
      · rintro rfl
        rw [ht'] at hi
        exact nomatch hi
  | some t =>
      obtain ⟨next, hthreads, hdied, hsub, hturns⟩ :=
        turns_stepThread hi (h.returns t (List.mem_of_getElem? hi))
      refine ⟨⟨hdied.trans h.alive, fun t' ht' x hx => ?_⟩, fun k t' ht' => ?_⟩
      · rw [hthreads] at ht'
        obtain rfl | ht' := mem_of_mem_set ht'
        · exact h.returns t (List.mem_of_getElem? hi) x (hsub hx)
        · exact h.returns t' ht' x hx
      · dsimp only at ht'
        rw [hthreads, List.getElem?_set] at ht'
        by_cases hik : i = k
        · subst hik
          rw [if_pos rfl] at ht' ⊢
          split at ht'
          · cases ht'
            exact ⟨t, hi, hturns⟩
          · exact nomatch ht'
        · rw [if_neg hik] at ht' ⊢
          exact ⟨t', ht', Nat.le_refl _⟩

/-- After a schedule every thread needs as many turns less as it was given. -/
theorem turns_run (h : Runs verbose σ) (schedule : List Nat) :
    (run (step verbose) σ schedule).died = false ∧
      ∀ k t', (run (step verbose) σ schedule).threads[k]? = some t' →
        ∃ t, σ.threads[k]? = some t ∧ turnsLeft t' ≤ turnsLeft t - schedule.count k := by
  induction schedule generalizing σ with
  | nil => exact ⟨h.alive, fun k t' ht' => ⟨t', ht', Nat.le_refl _⟩⟩
  | cons i schedule ih =>
      obtain ⟨hruns, hstep⟩ := turns_step h i
      obtain ⟨halive, hrun⟩ := ih hruns
      refine ⟨halive, fun k t' ht' => ?_⟩
      obtain ⟨t₁, ht₁, hle₁⟩ := hrun k t' ht'
      obtain ⟨t, ht, hle⟩ := hstep k t₁ ht₁
      refine ⟨t, ht, ?_⟩
      rw [List.count_cons]
      simp only [beq_iff_eq]
      omega

/-- A schedule in which each thread has its turns joins them all. -/
theorem joined_of_turns (h : Runs verbose σ) {schedule : List Nat}
    (hturns : ∀ k t, σ.threads[k]? = some t → turnsLeft t ≤ schedule.count k) :
    (run (step verbose) σ schedule).Joined := by
  obtain ⟨halive, hrun⟩ := turns_run h schedule
  refine ⟨halive, fun t' ht' => ?_⟩
  obtain ⟨k, hk⟩ := List.getElem?_of_mem ht'
  obtain ⟨t, ht, hle⟩ := hrun k t' hk
  have hzero := Nat.sub_eq_zero_of_le (hturns k t ht)
  exact turnsLeft_eq_zero (Nat.le_zero.mp (hzero ▸ hle))

end Turns

end ThreadPool

/-! ## the extractor's threads -/

section Extractor
variable (env : WorkObject → ExtractEnv) (verbose : Bool) (document : DocumentTable)
  (t : List WorkRow) (nthreads : Nat)

/-- The objects of the store, with what `do_extract` meets at each. -/
def extractSteps : List ExtractStep := (workObjects t).map fun object => (env object, object)

/-- The threads of the extractor, each with the window of its number: all of them have opened
the workdata, fetched their objects and connected. -/
def extractorPool : ThreadPool :=
  .create document ((List.range nthreads).map fun id =>
    (windowOf t t.length nthreads id).map fun object => (env object, object))

variable {verbose document nthreads}

/-- The windows of the threads have the objects of the store. -/
theorem flatten_parts (hn : 1 ≤ nthreads) :
    ((List.range nthreads).map fun id =>
      (windowOf t t.length nthreads id).map fun object => (env object, object)).flatten =
      extractSteps env t := by
  rw [extractSteps, ← flatten_windowOf t hn, List.map_flatten, List.map_map]
  rfl

variable {env t}

/-- **The threads agree with one thread.**  Where the object ids are distinct, every
interleaving that comes to its end leaves the documents that one thread leaves which
takes the objects in order.  Increments of `n_extracted` may be lost, but not all. -/
theorem threads_agree (hn : 1 ≤ nthreads) (hlen : t.length < 2 ^ 64)
    (hdistinct : ((workObjects t).map WorkObject.objectId).Nodup) (schedule : List Nat)
    (hjoined : (run (ThreadPool.step verbose) (extractorPool env document t nthreads)
      schedule).Joined) :
    let σ := run (ThreadPool.step verbose) (extractorPool env document t nthreads) schedule
    let one := (extractObjects verbose (extractSteps env t) ⟨document, 0⟩).2
    σ.document.rows.Perm one.document.rows ∧ σ.nExtracted ≤ one.nExtracted ∧
      (σ.nExtracted = 0 ↔ one.nExtracted = 0) := by
  intro σ one
  have hall := flatten_parts env t hn
  have hok := ThreadPool.ok_run verbose document ((List.range nthreads).map fun id =>
      (windowOf t t.length nthreads id).map fun object => (env object, object))
    (by rw [hall]; simpa [extractSteps] using hlen) schedule
  rw [hall] at hok
  obtain ⟨xs, stored, hg⟩ := hok hjoined.1
  obtain ⟨hperm, hstored⟩ := hg.of_joined hjoined
  have hreturns : ∀ x ∈ extractSteps env t, Returns verbose x := fun x hx =>
    hg.returns x (hperm.mem_iff.mpr hx)
  have hone := extractObjects_eq hreturns ⟨document, 0⟩
  have hdocs : one.document = (extractSteps env t).foldl (putDoc verbose) document := by
    rw [← document_foldl_put verbose _ ⟨document, 0⟩, ← hone]
  have hcount : one.nExtracted.toNat = stored := by
    have hle : countIndexed verbose (extractSteps env t) ≤ (extractSteps env t).length :=
      List.countP_le_length
    have hxs : countIndexed verbose xs = countIndexed verbose (extractSteps env t) :=
      hperm.countP_eq _
    have hlength : (extractSteps env t).length = t.length := by simp [extractSteps]
    rw [show one = _ from hone, nExtracted_foldl_put, UInt64.zero_add,
      UInt64.toNat_ofNat_of_lt' (by change _ < 2 ^ 64; omega), hstored, hxs]
  refine ⟨?_, ?_, ?_⟩
  · have hdoc : σ.document = xs.foldl (putDoc verbose) document := hg.documents
    rw [hdocs, hdoc]
    refine documents_perm hperm ?_ document
    rw [(hperm.map _).nodup_iff]
    simpa [extractSteps, Function.comp_def] using hdistinct
  · rw [UInt64.le_iff_toNat_le, hcount]
    exact hg.counter
  · have hle := hg.counter
    have hpos := hg.positive
    rw [← UInt64.toNat_inj, ← UInt64.toNat_inj, hcount, UInt64.toNat_zero]
    change σ.nExtracted.toNat = 0 ↔ _
    change σ.nExtracted.toNat ≤ stored at hle
    change 0 < stored → 0 < σ.nExtracted.toNat at hpos
    omega

/-- A thread needs three turns for each object of its window. -/
theorem turnsLeft_of_extractorPool {k : Nat} {thread : ExtractThread}
    (hthread : (extractorPool env document t nthreads).threads[k]? = some thread) :
    k < nthreads ∧ thread.rest = (windowOf t t.length nthreads k).map (fun o => (env o, o)) ∧
      ThreadPool.turnsLeft thread = 3 * (windowOf t t.length nthreads k).length := by
  simp only [extractorPool, ThreadPool.create, List.map_map, List.getElem?_map,
    Option.map_eq_some_iff] at hthread
  obtain ⟨id, hid, rfl⟩ := hthread
  obtain ⟨hlt, rfl⟩ := List.getElem?_eq_some_iff.mp hid
  rw [List.length_range] at hlt
  refine ⟨hlt, ?_, ?_⟩
  · rw [List.getElem_range]
    rfl
  · simp [ThreadPool.turnsLeft]

/-- **The threads come to their end**: whatever the interleaving, if every object returns, a
thread has joined after three turns for each of its objects. -/
theorem threads_join (hreturns : ∀ object ∈ workObjects t, Returns verbose (env object, object))
    {schedule : List Nat}
    (hturns : ∀ id < nthreads, 3 * (windowOf t t.length nthreads id).length ≤ schedule.count id) :
    (run (ThreadPool.step verbose) (extractorPool env document t nthreads) schedule).Joined := by
  refine ThreadPool.joined_of_turns ⟨rfl, fun thread hthread x hx => ?_⟩ fun k thread hthread => ?_
  · obtain ⟨k, hk⟩ := List.getElem?_of_mem hthread
    obtain ⟨-, hrest, -⟩ := turnsLeft_of_extractorPool hk
    rw [hrest] at hx
    obtain ⟨object, hobject, rfl⟩ := List.mem_map.mp hx
    exact hreturns object (List.mem_of_mem_drop (List.mem_of_mem_take hobject))
  · obtain ⟨hlt, -, hleft⟩ := turnsLeft_of_extractorPool hthread
    rw [hleft]
    exact hturns k hlt

end Extractor

/-- Two objects that Tika answers for. -/
def twoObjects : List WorkRow := [⟨1, 7, [ '/', 'a' ]⟩, ⟨2, 8, [ '/', 'b' ]⟩]

/-- A complete answer. -/
def answered (_ : WorkObject) : ExtractEnv :=
  { metadata := { body := [ 'm' ] }, content := { body := [ 'c' ] } }

/-- Both threads read the counter before either writes it: two rows, and the count is one. -/
theorem threads_agree_two :
    let σ := run (ThreadPool.step false) (extractorPool answered ⟨[], List.nodup_nil⟩ twoObjects 2)
      [0, 1, 0, 1, 0, 1]
    let one := (extractObjects false (extractSteps answered twoObjects) ⟨⟨[], List.nodup_nil⟩, 0⟩).2
    σ.nExtracted = 1 ∧ one.nExtracted = 2 ∧ (σ.document.rows.Perm one.document.rows ∧
      σ.nExtracted ≤ one.nExtracted ∧ (σ.nExtracted = 0 ↔ one.nExtracted = 0)) := by
  refine ⟨by decide, by decide, threads_agree (by decide) (by decide) (by decide)
    [0, 1, 0, 1, 0, 1] ⟨by decide, ?_⟩⟩
  decide

/-- Two threads that take their turns one after the other. -/
theorem threads_join_two :
    (run (ThreadPool.step false) (extractorPool answered ⟨[], List.nodup_nil⟩ twoObjects 2)
      [1, 0, 0, 1, 1, 0]).Joined :=
  threads_join (fun _ _ => ⟨0, rfl⟩) (by decide)

end Hpssix
