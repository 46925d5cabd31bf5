import Hpssix.Base.Fate
import Hpssix.Mdb

/-!
# Hpssix.History

`hpssix-admin history` (`utils/hpssix-admin/src/hpssix-admin-history.c`): the
recorded rounds, newest first, read from the master db a page at a time.

`hpssix_mdb_fetch_history` returns 0 whatever happened, and stores a length only
when it has seen a row or the end.  A page whose first step fails is therefore
printed from what the page before it left (`mdbFetchHistory_cases`), and a page
that fails later on is printed as far as it was read.

* `history_pages_newest` — without errors the newest rounds are printed, each
  once and unchanged;
* `history_complete_iff` — when a command that succeeds has printed what was
  asked for.
-/

namespace Hpssix

open Cursor Fate Lite Rel

/-! ## columns by position -/

/-- The columns of `hpssix_mdb`. -/
inductive MdbColumn where
  | id
  | oidStart
  | oidEnd
  | scannerStart
  | builderStart
  | extractorStart
  | extractorEnd
  | nScanned
  | nDeleted
  | nIndexed
  | nExtracted
  | status
deriving DecidableEq

def MdbRow.column (r : MdbRow) : MdbColumn → Int
  | .id => r.id
  | .oidStart => r.oidStart
  | .oidEnd => r.oidEnd
  | .scannerStart => r.scannerStart
  | .builderStart => r.builderStart
  | .extractorStart => r.extractorStart
  | .extractorEnd => r.extractorEnd
  | .nScanned => r.nScanned
  | .nDeleted => r.nDeleted
  | .nIndexed => r.nIndexed
  | .nExtracted => r.nExtracted
  | .status => r.status

/-- The columns that `HPSSIX_MDB_SQL_RECORD` lists. -/
def recordColumns : List MdbColumn :=
  [.oidStart, .oidEnd, .scannerStart, .builderStart, .extractorStart, .extractorEnd, .nScanned,
    .nDeleted, .nIndexed, .nExtracted, .status]

/-- What `hpssix_mdb_record` binds, parameter by parameter. -/
def recordBinds (status : WorkStatus) : List Int :=
  [bindInt64 status.oidStart, bindInt64 status.oidEnd, bindInt64 status.scannerStart,
    bindInt64 status.builderStart, bindInt64 status.extractorStart, bindInt64 status.extractorEnd,
    bindInt64 status.nScanned, bindInt64 status.nDeleted, bindInt64 status.nIndexed,
    bindInt64 status.nExtracted, status.status.toInt]

/-- The statement and its parameters list the columns alike. -/
theorem recordColumns_mdbRow (id : Nat) (status : WorkStatus) :
    recordColumns.map (mdbRow id status).column = recordBinds status := rfl

/-- The columns that `HPSSIX_MDB_SQL_FETCH_RECORD` lists. -/
def fetchColumns : List MdbColumn :=
  [.id, .oidStart, .oidEnd, .scannerStart, .builderStart, .extractorStart, .extractorEnd,
    .nScanned, .nDeleted, .nIndexed, .nExtracted, .status]

/-- `HPSSIX_MDB_SQL_FETCH_RECORD`. -/
def sqlFetchRecord (offset len : Nat) (t : List MdbRow) : List (List Int) :=
  (limit offset len (orderDesc MdbRow.id t)).map fun r => fetchColumns.map r.column

/-- The columns as `fill_history` reads them; a column that is not there reads as 0. -/
def fillRecord (cols : List Int) : WorkStatus where
  id := columnInt64 (cols.getD 0 0)
  oidStart := columnInt64 (cols.getD 1 0)
  oidEnd := columnInt64 (cols.getD 2 0)
  scannerStart := columnInt64 (cols.getD 3 0)
  builderStart := columnInt64 (cols.getD 4 0)
  extractorStart := columnInt64 (cols.getD 5 0)
  extractorEnd := columnInt64 (cols.getD 6 0)
  nScanned := columnInt64 (cols.getD 7 0)
  nDeleted := columnInt64 (cols.getD 8 0)
  nIndexed := columnInt64 (cols.getD 9 0)
  nExtracted := columnInt64 (cols.getD 10 0)
  status := columnInt (cols.getD 11 0)

/-- A row as the history shows it. -/
def historyRecord (r : MdbRow) : WorkStatus := fillRecord (fetchColumns.map r.column)

/-- A status without the id, which the db assigns. -/
def WorkStatus.unnumbered (status : WorkStatus) : WorkStatus := { status with id := 0 }

/-- Every field comes back as it was recorded. -/
@[simp] theorem unnumbered_historyRecord_mdbRow (id : Nat) (status : WorkStatus) :
    (historyRecord (mdbRow id status)).unnumbered = status.unnumbered := by
  simp [historyRecord, fillRecord, fetchColumns, MdbRow.column, mdbRow, WorkStatus.unnumbered]

/-- All records, newest first. -/
def newest (t : List MdbRow) : List WorkStatus := (orderDesc MdbRow.id t).map historyRecord

@[simp] theorem length_newest (t : List MdbRow) : (newest t).length = t.length := by
  simp [newest, orderDesc]

/-- A page is a part of the newest records. -/
theorem map_fillRecord_sqlFetchRecord (offset len : Nat) (t : List MdbRow) :
    (sqlFetchRecord offset len t).map fillRecord = ((newest t).drop offset).take len := by
  simp only [sqlFetchRecord, newest, limit, List.map_take, List.map_drop, List.map_map]
  rfl

@[simp] theorem length_sqlFetchRecord (offset len : Nat) (t : List MdbRow) :
    (sqlFetchRecord offset len t).length = min len (t.length - offset) := by
  simp [sqlFetchRecord, limit, orderDesc]

/-! ## one page -/

/-- `NRECPERFETCH`. -/
def nRecPerFetch : Nat := 10

/-- The array `records` and the length that goes with it. -/
structure RecordBuf where
  len : Nat := 0
  records : List WorkStatus := List.replicate nRecPerFetch {}
deriving DecidableEq

/-- `*current = tmp`. -/
def storeRecord (i : Nat) (record : WorkStatus) (records : List WorkStatus) :
    Fate (List WorkStatus) :=
  if i < records.length then done (records.set i record) else crash

/-- `fill_history` from the row that the statement stands on, with `count` records
stored. -/
def fillHistory (row : List Int) (count : Nat) :
    List (Rc (List Int)) → List WorkStatus → Fate (Nat × RecordBuf)
  | [], records => do
    let _ ← storeRecord count (fillRecord row) records
    hang
  | .row next :: steps, records => do
    let records ← storeRecord count (fillRecord row) records
    fillHistory next (count + 1) steps records
  | .done :: _, records => do
    let records ← storeRecord count (fillRecord row) records
    pure (0, { len := count + 1, records })
  | _ :: _, records => do
    let records ← storeRecord count (fillRecord row) records
    pure (errIo, { len := count + 1, records })

/-- `hpssix_mdb_fetch_history` up to its last statement: `ret`, and what it has
stored. -/
def fetchHistoryRet (bindOk : Bool) (steps : List (Rc (List Int))) (buf : RecordBuf) :
    Fate (Nat × RecordBuf) :=
  if !bindOk then done (errIo, buf)
  else
    match stepBusy steps with
    | none => hang
    | some (.row row, steps) => fillHistory row 0 steps buf.records
    | some (.done, _) => done (0, { buf with len := 0 })
    | some _ => done (errIo, buf)

/-- `hpssix_mdb_fetch_history`, which ends with `return 0`. -/
def mdbFetchHistory (bindOk : Bool) (steps : List (Rc (List Int))) (buf : RecordBuf) :
    Fate (Nat × RecordBuf) := do
  let (_, buf) ← fetchHistoryRet bindOk steps buf
  pure (0, buf)

/-- `print_history_record`: the records it reads. -/
def printHistoryRecord (buf : RecordBuf) : Fate (List WorkStatus) :=
  if buf.len ≤ buf.records.length then done (buf.records.take buf.len) else crash

/-! ## the command -/

/-- What sqlite answers during one call of `hpssix_mdb_fetch_history`. -/
structure Page where
  bindOk : Bool := true
  verdicts : List Verdict
deriving DecidableEq

/-- The variables of `do_history_fetch`, and the pages printed so far. -/
structure Fetch where
  offset : Nat := 0
  fetched : Nat := 0
  toFetch : Nat := nRecPerFetch
  buf : RecordBuf := {}
  printed : List (List WorkStatus) := []

/-- `if (to_fetch > left) to_fetch = left;` -/
def nextFetch (count : Nat) (s : Fetch) : Nat :=
  if s.toFetch > count - s.fetched then count - s.fetched else s.toFetch

/-- The rows that the next page selects. -/
def Fetch.rows (t : List MdbRow) (count : Nat) (s : Fetch) : List (List Int) :=
  sqlFetchRecord s.offset (nextFetch count s) t

/-- The variables after a page was printed. -/
def Fetch.advance (s : Fetch) (toFetch : Nat) (buf : RecordBuf) (page : List WorkStatus) :
    Fetch where
  offset := s.offset + buf.len
  fetched := s.fetched + buf.len
  toFetch := toFetch
  buf := buf
  printed := s.printed ++ [page]

/-- `do_history_fetch` from a state of its variables, with the pages it has not
needed. -/
def historyFetch (t : List MdbRow) (count : Nat) :
    List Page → Fetch → Fate (Nat × Fetch × List Page)
  | [], s => if count > s.fetched then hang else done (0, s, [])
  | p :: pages, s =>
    if count > s.fetched then do
      let toFetch := nextFetch count s
      let (ret, buf) ← mdbFetchHistory p.bindOk (deliver p.verdicts (s.rows t count)) s.buf
      if ret ≠ 0 then pure (ret, { s with toFetch, buf }, pages)
      else if buf.len = 0 then pure (0, { s with toFetch, buf }, pages)
      else do
        let page ← printHistoryRecord buf
        historyFetch t count pages (s.advance toFetch buf page)
    else done (0, s, p :: pages)

/-- `do_history_fetch`. -/
def doHistoryFetch (t : List MdbRow) (count : Nat) (pages : List Page) :
    Fate (Nat × Fetch × List Page) :=
  historyFetch t count pages {}

/-- `do_history`, after `hpssix_mdb_open` has returned `openRet`: what it returns, the
pages it printed, and the answers it has not needed. -/
def doHistory (openRet : Int) (t : List MdbRow) (count : Nat) (pages : List Page) :
    Fate (Int × List (List WorkStatus) × List Page) :=
  if openRet ≠ 0 then done (openRet, [], pages)
  else do
    let (ret, s, pages) ← doHistoryFetch t count pages
    pure (ret, s.printed, pages)

/-- The option of `hpssix-admin history` that says how many records are wanted. -/
inductive HistoryOption where
  | all
  | count (n : Nat)
  | default
deriving DecidableEq

/-- The variable `count` after the options. -/
def HistoryOption.value : HistoryOption → Nat
  | .all => 0
  | .count n => n
  | .default => 10

/-- `history_cmd_main`. -/
def historyCmdMain (option : HistoryOption) (openRet : Int) (t : List MdbRow) (pages : List Page) :
    Fate (Int × List (List WorkStatus) × List Page) :=
  let count := option.value
  doHistory openRet t (if count = 0 then nRecPerFetch else count) pages

/-! ## what a page comes to -/

theorem take_succ_set {α : Type _} {l : List α} {i : Nat} (h : i < l.length) (x : α) :
    (l.set i x).take (i + 1) = l.take i ++ [x] := by
  rw [List.take_add_one, List.take_set_of_le (Nat.le_refl i), List.getElem?_set_self h]
  rfl

/-- The buffer, of the given size, holds a first part of what was wanted. -/
structure Filled (wanted : List WorkStatus) (size : Nat) (buf : RecordBuf) : Prop where
  len_le : buf.len ≤ wanted.length
  length : buf.records.length = size
  take : buf.records.take buf.len = wanted.take buf.len

section Fill
variable {row : List Int} {rows : List (List Int)} {vs : List Verdict} {count : Nat}
  {records : List WorkStatus}

/-- The statement stops after this row. -/
theorem filled_of_stop (hcount : count < records.length) {ret ret' : Nat} {buf : RecordBuf}
    (h : (do
      let records ← storeRecord count (fillRecord row) records
      pure (ret', { len := count + 1, records }) : Fate (Nat × RecordBuf)) = done (ret, buf)) :
    Filled (records.take count ++ (row :: rows).map fillRecord) records.length buf ∧
      count < buf.len := by
  simp only [storeRecord, if_pos hcount, done_bind, pure_eq, done.injEq, Prod.mk.injEq] at h
  obtain ⟨-, rfl⟩ := h
  refine ⟨⟨?_, ?_, ?_⟩, Nat.lt_succ_self count⟩
  · simp only [List.length_append, List.length_take, List.map_cons, List.length_cons]
    omega
  · exact List.length_set
  · rw [take_succ_set hcount, List.take_append, List.length_take, Nat.min_eq_left (by omega)]
    simp [List.take_take]

/-- `fill_history` stores the rows that it sees, wherever it stops. -/
theorem fillHistory_eq_done (hlen : count + rows.length < records.length) {ret : Nat}
    {buf : RecordBuf}
    (h : fillHistory row count (deliver vs rows) records = done (ret, buf)) :
    Filled (records.take count ++ (row :: rows).map fillRecord) records.length buf ∧
      count < buf.len := by
  have hcount : count < records.length := by omega
  induction vs generalizing row rows count records with
  | nil => simp [deliver, fillHistory, storeRecord, hcount] at h
  | cons v vs ih =>
      cases v with
      | busy => exact filled_of_stop hcount h
      | error => exact filled_of_stop hcount h
      | ok =>
          cases rows with
          | nil => exact filled_of_stop hcount h
          | cons next rows =>
              simp only [deliver, fillHistory, storeRecord, if_pos hcount, done_bind] at h
              simp only [List.length_cons] at hlen
              have hset := @List.length_set _ records count (fillRecord row)
              obtain ⟨hfilled, hlt⟩ := ih (by omega) h (by omega)
              rw [take_succ_set hcount, hset, List.append_assoc] at hfilled
              exact ⟨hfilled, by omega⟩

/-- Without failures all rows are stored. -/
theorem fillHistory_quiet {n : Nat} (hn : rows.length < n)
    (hlen : count + rows.length < records.length) :
    ∃ buf, fillHistory row count (deliver (List.replicate n .ok) rows) records = done (0, buf) ∧
      buf.len = count + (row :: rows).length := by
  have hcount : count < records.length := by omega
  have hstore : storeRecord count (fillRecord row) records =
      done (records.set count (fillRecord row)) := if_pos hcount
  induction rows generalizing row count records n with
  | nil =>
      obtain ⟨n, rfl⟩ := Nat.exists_eq_succ_of_ne_zero (Nat.ne_of_gt hn)
      simp [List.replicate_succ, deliver, fillHistory, hstore]
  | cons next rows ih =>
      obtain ⟨n, rfl⟩ := Nat.exists_eq_succ_of_ne_zero (Nat.ne_zero_of_lt hn)
      simp only [List.length_cons] at hn hlen
      have hlen' : count + 1 + rows.length < (records.set count (fillRecord row)).length := by
        rw [List.length_set]
        omega
      have hcount' : count + 1 < (records.set count (fillRecord row)).length := by omega
      obtain ⟨buf, hbuf, hbuflen⟩ := @ih next (count + 1) _ n (by omega) hlen' hcount'
        (if_pos hcount')
      refine ⟨buf, ?_, ?_⟩
      · simpa [List.replicate_succ, deliver, fillHistory, hstore] using hbuf
      · rw [hbuflen, List.length_cons, List.length_cons, List.length_cons]
        omega

end Fill

/-- The first step of the page that is not busy succeeds. -/
def Page.FirstOk (p : Page) : Prop := p.bindOk = true ∧ firstVerdict p.verdicts = some .ok

/-- No call of the page fails. -/
def Page.Quiet (p : Page) : Prop :=
  p.bindOk = true ∧ ∃ n > nRecPerFetch, Cursor.Quiet n p.verdicts

/-- A quiet page starts well. -/
theorem Page.Quiet.firstOk {p : Page} (hp : p.Quiet) : p.FirstOk := by
  obtain ⟨hbind, n, hn, busy, hvs⟩ := hp
  refine ⟨hbind, ?_⟩
  have hpos : n ≠ 0 := Nat.ne_zero_of_lt hn
  simp [hvs, firstVerdict, hpos]

section PageCases
variable {p : Page} {rows : List (List Int)} {buf : RecordBuf}

/-- **A page**: what was in the buffer before, if the first step fails; otherwise
rows of the query, none only if there are none. -/
theorem mdbFetchHistory_cases (hlen : rows.length ≤ buf.records.length) {ret : Nat}
    {buf' : RecordBuf}
    (h : mdbFetchHistory p.bindOk (deliver p.verdicts rows) buf = done (ret, buf')) :
    ret = 0 ∧ (¬ p.FirstOk ∧ buf' = buf ∨
      p.FirstOk ∧ Filled (rows.map fillRecord) buf.records.length buf' ∧
        (buf'.len = 0 → rows = [])) := by
  obtain ⟨⟨ret', buf''⟩, hret, heq⟩ := bind_eq_done.mp h
  simp only [pure_eq, done.injEq, Prod.mk.injEq] at heq
  obtain ⟨rfl, rfl⟩ := heq
  refine ⟨rfl, ?_⟩
  unfold fetchHistoryRet at hret
  cases hbind : p.bindOk with
  | false =>
      rw [hbind] at hret
      simp only [Bool.not_false, if_true, done.injEq, Prod.mk.injEq] at hret
      exact .inl ⟨by simp [Page.FirstOk, hbind], hret.2.symm⟩
  | true =>
      rw [hbind] at hret
      simp only [Bool.not_true, Bool.false_eq_true, if_false] at hret
      cases hfirst : firstVerdict p.verdicts with
      | none =>
          rw [stepBusy_deliver_of_none hfirst] at hret
          contradiction
      | some v =>
          cases v with
          | busy => exact absurd hfirst firstVerdict_ne_busy
          | error =>
              obtain ⟨rest, hrest⟩ := stepBusy_deliver_of_error hfirst rows
              simp only [hrest, done.injEq, Prod.mk.injEq] at hret
              exact .inl ⟨by simp [Page.FirstOk, hfirst], hret.2.symm⟩
          | ok =>
              obtain ⟨⟨rest, hdone⟩, vs', hrow⟩ := stepBusy_deliver_of_ok (ρ := List Int) hfirst
              refine .inr ⟨⟨hbind, hfirst⟩, ?_⟩
              cases rows with
              | nil =>
                  simp only [hdone, done.injEq, Prod.mk.injEq] at hret
                  obtain ⟨-, rfl⟩ := hret
                  exact ⟨⟨Nat.zero_le _, rfl, rfl⟩, fun _ => rfl⟩
              | cons row rows =>
                  simp only [hrow] at hret
                  have hlt : 0 + rows.length < buf.records.length := by
                    rw [List.length_cons] at hlen
                    omega
                  obtain ⟨hfilled, hpos⟩ := fillHistory_eq_done hlt hret
                  exact ⟨hfilled, fun h0 => by omega⟩

/-- A page without failures ends, with all rows. -/
theorem mdbFetchHistory_quiet (hp : p.Quiet) (hrows : rows.length ≤ nRecPerFetch)
    (hlen : buf.records.length = nRecPerFetch) :
    ∃ buf', mdbFetchHistory p.bindOk (deliver p.verdicts rows) buf = done (0, buf') ∧
      buf'.len = rows.length := by
  obtain ⟨hbind, n, hn, busy, hvs⟩ := hp
  obtain ⟨n, rfl⟩ := Nat.exists_eq_succ_of_ne_zero (Nat.ne_zero_of_lt hn)
  simp only [mdbFetchHistory, fetchHistoryRet, hbind, hvs, stepBusy_deliver_busy,
    List.replicate_succ]
  cases rows with
  | nil => exact ⟨{ buf with len := 0 }, rfl, rfl⟩
  | cons row rows =>
      simp only [List.length_cons] at hrows
      obtain ⟨buf', hbuf', hbuflen⟩ :=
        @fillHistory_quiet row rows 0 buf.records n (by omega) (by omega)
      refine ⟨buf', ?_, ?_⟩
      · simp [deliver, stepBusy, hbuf']
      · rw [hbuflen, Nat.zero_add]

end PageCases

/-! ## the loop -/

section Loop
variable {t : List MdbRow} {count : Nat} {p : Page} {pages rest : List Page} {s s' : Fetch}
  {ret : Nat}

/-- A loop that has fetched enough ends. -/
theorem historyFetch_of_not_lt (hlt : ¬ s.fetched < count) :
    historyFetch t count pages s = done (0, s, pages) := by
  cases pages <;> exact if_neg hlt

/-- One turn of a loop that ends: the page is fetched, and it is empty, or it is
printed and the loop goes on. -/
theorem historyFetch_cons (hlt : s.fetched < count)
    (h : historyFetch t count (p :: pages) s = done (ret, s', rest)) :
    ∃ buf, mdbFetchHistory p.bindOk (deliver p.verdicts (s.rows t count)) s.buf = done (0, buf) ∧
      (buf.len = 0 ∧ ret = 0 ∧ s'.printed = s.printed ∧ rest = pages ∨
        buf.len ≠ 0 ∧ historyFetch t count pages
          (s.advance (nextFetch count s) buf (buf.records.take buf.len)) = done (ret, s', rest)) := by
  simp only [historyFetch, if_pos hlt] at h
  obtain ⟨⟨ret', buf⟩, hpage, h⟩ := bind_eq_done.mp h
  have hret : ret' = 0 := by
    obtain ⟨⟨_, _⟩, _, heq⟩ := bind_eq_done.mp hpage
    simp only [pure_eq, done.injEq, Prod.mk.injEq] at heq
    exact heq.1.symm
  subst hret
  refine ⟨buf, hpage, ?_⟩
  by_cases hlen : buf.len = 0
  · simp only [hlen, ne_eq, not_true_eq_false, if_false, if_true, pure_eq, done.injEq,
      Prod.mk.injEq] at h
    obtain ⟨rfl, rfl, rfl⟩ := h
    exact .inl ⟨hlen, rfl, rfl, rfl⟩
  · simp only [hlen, ne_eq, not_true_eq_false, if_false] at h
    obtain ⟨page, hprint, h⟩ := bind_eq_done.mp h
    have hpage' : page = buf.records.take buf.len := by
      unfold printHistoryRecord at hprint
      split at hprint
      · simpa using hprint.symm
      · contradiction
    exact .inr ⟨hlen, hpage' ▸ h⟩

/-- A loop that ends returns 0, and what was printed stays printed. -/
theorem historyFetch_eq_done (h : historyFetch t count pages s = done (ret, s', rest)) :
    ret = 0 ∧ s.printed <+: s'.printed := by
  induction pages generalizing s with
  | nil =>
      by_cases hlt : s.fetched < count
      · simp [historyFetch, hlt] at h
      · simp only [historyFetch_of_not_lt hlt, done.injEq, Prod.mk.injEq] at h
        obtain ⟨rfl, rfl, -⟩ := h
        exact ⟨rfl, List.prefix_refl _⟩
  | cons p pages ih =>
      by_cases hlt : s.fetched < count
      · obtain ⟨buf, _, ⟨_, hret, hprinted, _⟩ | ⟨_, hrest⟩⟩ := historyFetch_cons hlt h
        · simp [hret, hprinted]
        · obtain ⟨hret, hprinted⟩ := ih hrest
          exact ⟨hret, (List.prefix_append ..).trans hprinted⟩
      · simp only [historyFetch_of_not_lt hlt, done.injEq, Prod.mk.injEq] at h
        obtain ⟨rfl, rfl, -⟩ := h
        exact ⟨rfl, List.prefix_refl _⟩

/-- A loop over pages that were all fetched in order: the newest `fetched` records are
printed, and the buffer holds the last page. -/
structure Fresh (t : List MdbRow) (count : Nat) (s : Fetch) : Prop where
  offset : s.offset = s.fetched
  fetched_le : s.fetched ≤ count
  toFetch_pos : 0 < s.toFetch
  toFetch_le : s.toFetch ≤ nRecPerFetch
  size : s.buf.records.length = nRecPerFetch
  printed : s.printed.flatten = (newest t).take s.fetched
  page_le : ∀ page ∈ s.printed, page.length ≤ nRecPerFetch
  last : s.fetched = 0 ∧ s.buf.len = 0 ∨
    s.buf.len ≠ 0 ∧ s.buf.records.take s.buf.len ∈ s.printed

/-- Nothing was fetched at first. -/
theorem fresh_init (t : List MdbRow) (count : Nat) : Fresh t count {} where
  offset := rfl
  fetched_le := Nat.zero_le _
  toFetch_pos := by decide
  toFetch_le := Nat.le_refl _
  size := rfl
  printed := rfl
  page_le := by simp
  last := .inl ⟨rfl, rfl⟩

/-- The next page asks for one record at least, and for no more than are wanted. -/
theorem Fresh.nextFetch_bounds (hs : Fresh t count s) (hlt : s.fetched < count) :
    0 < nextFetch count s ∧ nextFetch count s ≤ nRecPerFetch ∧
      nextFetch count s ≤ count - s.fetched := by
  have h1 := hs.toFetch_pos
  have h2 := hs.toFetch_le
  unfold nextFetch
  split <;> omega

/-- No page has more records than the array. -/
theorem Fresh.length_rows_le (hs : Fresh t count s) (hlt : s.fetched < count) :
    (s.rows t count).length ≤ nRecPerFetch := by
  have := (hs.nextFetch_bounds hlt).2.1
  rw [Fetch.rows, length_sqlFetchRecord]
  omega

/-- No more rows: all that was asked for is printed. -/
theorem Fresh.finished (hs : Fresh t count s) (hlt : s.fetched < count)
    (hrows : s.rows t count = []) : s.printed.flatten = (newest t).take count := by
  have hpos := (hs.nextFetch_bounds hlt).1
  have hlen : t.length ≤ s.fetched := by
    have := congrArg List.length hrows
    rw [Fetch.rows, length_sqlFetchRecord, List.length_nil, hs.offset] at this
    omega
  rw [hs.printed, List.take_of_length_le (by simpa using hlen),
    List.take_of_length_le (by simp; omega)]

/-- Enough was fetched. -/
theorem Fresh.enough (hs : Fresh t count s) (hlt : ¬ s.fetched < count) :
    s.printed.flatten = (newest t).take count := by
  have hcount : s.fetched = count := by
    have := hs.fetched_le
    omega
  exact hcount ▸ hs.printed

/-- A page that was read is the next part of the history. -/
theorem Fresh.advance (hs : Fresh t count s) (hlt : s.fetched < count) {buf : RecordBuf}
    (hfilled : Filled ((s.rows t count).map fillRecord) s.buf.records.length buf)
    (hlen : buf.len ≠ 0) :
    Fresh t count (s.advance (nextFetch count s) buf (buf.records.take buf.len)) := by
  obtain ⟨hpos, hle, hleft⟩ := hs.nextFetch_bounds hlt
  have hwanted : buf.len ≤ nextFetch count s := by
    have := hfilled.len_le
    rw [List.length_map, Fetch.rows, length_sqlFetchRecord] at this
    omega
  have hpage : buf.records.take buf.len = ((newest t).drop s.fetched).take buf.len := by
    rw [hfilled.take, Fetch.rows, map_fillRecord_sqlFetchRecord, List.take_take, hs.offset,
      Nat.min_eq_left hwanted]
  exact {
    offset := by simp [Fetch.advance, hs.offset]
    fetched_le := by simp only [Fetch.advance]; omega
    toFetch_pos := hpos
    toFetch_le := hle
    size := hfilled.length.trans hs.size
    printed := by
      simp only [Fetch.advance, List.flatten_append, List.flatten_cons, List.flatten_nil,
        List.append_nil]
      rw [hs.printed, hpage, List.take_add]
    page_le := by
      intro page hmem
      obtain hmem | hmem := List.mem_append.mp hmem
      · exact hs.page_le page hmem
      · rw [List.mem_singleton.mp hmem, List.length_take]
        omega
    last := .inr ⟨hlen, List.mem_append_right _ (List.mem_singleton.mpr rfl)⟩ }

/-- **A run whose pages all begin well** prints the newest records, up to `count`. -/
theorem historyFetch_of_firstOk (hs : Fresh t count s) (hpages : ∀ p ∈ pages, p.FirstOk)
    (h : historyFetch t count pages s = done (ret, s', rest)) :
    s'.printed.flatten = (newest t).take count ∧ ∀ page ∈ s'.printed, page.length ≤ nRecPerFetch := by
  induction pages generalizing s with
  | nil =>
      by_cases hlt : s.fetched < count
      · simp [historyFetch, hlt] at h
      · simp only [historyFetch_of_not_lt hlt, done.injEq, Prod.mk.injEq] at h
        obtain ⟨-, rfl, -⟩ := h
        exact ⟨hs.enough hlt, hs.page_le⟩
  | cons p pages ih =>
      by_cases hlt : s.fetched < count
      · obtain ⟨buf, hpage, hturn⟩ := historyFetch_cons hlt h
        have hsize := hs.length_rows_le hlt
        obtain ⟨_, hbad | ⟨_, hfilled, hnone⟩⟩ :=
          mdbFetchHistory_cases (by rw [hs.size]; exact hsize) hpage
        · exact absurd (hpages p List.mem_cons_self) hbad.1
        · obtain ⟨hlen, _, hprinted, _⟩ | ⟨hlen, hrest⟩ := hturn
          · rw [hprinted]
            exact ⟨hs.finished hlt (hnone hlen), hs.page_le⟩
          · exact ih (hs.advance hlt hfilled hlen)
              (fun q hq => hpages q (List.mem_cons_of_mem p hq)) hrest
      · simp only [historyFetch_of_not_lt hlt, done.injEq, Prod.mk.injEq] at h
        obtain ⟨-, rfl, -⟩ := h
        exact ⟨hs.enough hlt, hs.page_le⟩

/-- A page printed twice. -/
theorem not_nodup_stale {pages : List (List WorkStatus)} {page : List WorkStatus}
    (hmem : page ∈ pages) (hne : page ≠ []) : ¬ (pages ++ [page]).flatten.Nodup := by
  obtain ⟨r, hr⟩ := List.exists_mem_of_ne_nil page hne
  rw [List.flatten_append, List.nodup_append]
  rintro ⟨_, _, hdisj⟩
  exact hdisj r (List.mem_flatten.mpr ⟨page, hmem, hr⟩) r (by simpa using hr) rfl

/-- **A run with a page that begins with a failure** prints nothing, or prints a
record twice. -/
theorem historyFetch_of_not_firstOk (hs : Fresh t count s) (hpages : ∃ p ∈ pages, ¬ p.FirstOk)
    (h : historyFetch t count pages s = done (ret, s', [])) :
    s.fetched = 0 ∧ s'.printed.flatten = [] ∨ t ≠ [] ∧ ¬ s'.printed.flatten.Nodup := by
  induction pages generalizing s with
  | nil =>
      obtain ⟨p, hp, _⟩ := hpages
      contradiction
  | cons p pages ih =>
      by_cases hlt : s.fetched < count
      · obtain ⟨buf, hpage, hturn⟩ := historyFetch_cons hlt h
        have hsize := hs.length_rows_le hlt
        obtain ⟨_, ⟨_, rfl⟩ | ⟨hfirst, hfilled, _⟩⟩ :=
          mdbFetchHistory_cases (by rw [hs.size]; exact hsize) hpage
        · -- the first step fails: what is in the buffer was printed before
          obtain ⟨h0, hlen0⟩ | ⟨hlen, hmem⟩ := hs.last
          · obtain ⟨_, _, hprinted, _⟩ | ⟨hlen, _⟩ := hturn
            · refine .inl ⟨h0, ?_⟩
              rw [hprinted, hs.printed, h0, List.take_zero]
            · exact absurd hlen0 hlen
          · obtain ⟨hlen', _⟩ | ⟨_, hrest⟩ := hturn
            · exact absurd hlen' hlen
            · have hne : s.buf.records.take s.buf.len ≠ [] := by
                have := hs.size
                rw [Ne, List.take_eq_nil_iff, not_or]
                refine ⟨hlen, fun hnil => ?_⟩
                rw [hnil] at this
                contradiction
              have ht : t ≠ [] := by
                rintro rfl
                have hnil := hs.printed
                rw [show newest [] = [] from rfl, List.take_nil, List.flatten_eq_nil_iff] at hnil
                exact hne (hnil _ hmem)
              obtain ⟨more, hmore⟩ := (historyFetch_eq_done hrest).2
              refine .inr ⟨ht, fun hnodup => not_nodup_stale hmem hne ?_⟩
              rw [← hmore, List.flatten_append, List.nodup_append] at hnodup
              exact hnodup.1
        · have hmore : ∃ q ∈ pages, ¬ q.FirstOk := by
            obtain ⟨q, hq, hbad⟩ := hpages
            obtain rfl | hq := List.mem_cons.mp hq
            · contradiction
            · exact ⟨q, hq, hbad⟩
          obtain ⟨_, _, _, hrest⟩ | ⟨hlen, hrest⟩ := hturn
          · obtain ⟨q, hq, _⟩ := hmore
            rw [← hrest] at hq
            contradiction
          · obtain ⟨h0, _⟩ | hdup := ih (hs.advance hlt hfilled hlen) hmore hrest
            · simp [Fetch.advance, hlen] at h0
            · exact .inr hdup
      · simp [historyFetch_of_not_lt hlt] at h

/-- **A run without failures ends**: no page is empty before the last. -/
theorem historyFetch_quiet (hs : Fresh t count s) (hpages : ∀ p ∈ pages, p.Quiet)
    (hlen : count - s.fetched ≤ pages.length) :
    ∃ s' rest, historyFetch t count pages s = done (0, s', rest) := by
  induction pages generalizing s with
  | nil =>
      have hlt : ¬ s.fetched < count := by
        simp only [List.length_nil] at hlen
        omega
      exact ⟨s, [], historyFetch_of_not_lt hlt⟩
  | cons p pages ih =>
      by_cases hlt : s.fetched < count
      · have hp := hpages p List.mem_cons_self
        obtain ⟨buf, hpage, _⟩ := mdbFetchHistory_quiet hp (hs.length_rows_le hlt) hs.size
        have hsize := hs.length_rows_le hlt
        obtain ⟨_, hbad | ⟨_, hfilled, _⟩⟩ :=
          mdbFetchHistory_cases (by rw [hs.size]; exact hsize) hpage
        · exact absurd hp.firstOk hbad.1
        · by_cases hempty : buf.len = 0
          · refine ⟨{ s with toFetch := nextFetch count s, buf }, pages, ?_⟩
            simp [historyFetch, hlt, hpage, hempty]
          · have hprint : printHistoryRecord buf = done (buf.records.take buf.len) := by
              have h1 := hfilled.len_le
              have h2 := hfilled.length
              rw [List.length_map] at h1
              exact if_pos (by rw [h2, hs.size]; omega)
            obtain ⟨s', rest, hrun⟩ := ih (hs.advance hlt hfilled hempty)
              (fun q hq => hpages q (List.mem_cons_of_mem p hq)) (by
                simp only [Fetch.advance, List.length_cons] at hlen ⊢
                omega)
            refine ⟨s', rest, ?_⟩
            rw [← hrun]
            simp [historyFetch, hlt, hpage, hempty, hprint]
      · exact ⟨s, p :: pages, historyFetch_of_not_lt hlt⟩

end Loop

/-! ## recorded rounds -/

/-- The master db after a sequence of statuses was recorded, with every sqlite call
carried out. -/
inductive Recorded : List WorkStatus → Conn (List MdbRow) → Prop where
  | empty : Recorded [] { stored := [] }
  | record {statuses : List WorkStatus} {db db' : Conn (List MdbRow)} {steps : List (Rc Unit)}
      {stepEnds : Bool} {rollbackRc : ExecRc} {status : WorkStatus} (h : Recorded statuses db)
      (hret : mdbRecord true .ok steps stepEnds .ok rollbackRc status db = some (0, db')) :
      Recorded (statuses ++ [status]) db'

/-- A call that succeeds has stored its row. -/
theorem mdbRecord_eq_zero {steps : List (Rc Unit)} {stepEnds : Bool} {rollbackRc : ExecRc}
    {status : WorkStatus} {t : List MdbRow} {db : Conn (List MdbRow)}
    (h : mdbRecord true .ok steps stepEnds .ok rollbackRc status { stored := t } = some (0, db)) :
    db = { stored := sqlRecord status t } := by
  simp only [mdbRecord, Bool.not_true, Bool.false_eq_true, if_false, Conn.begin_ok] at h
  split at h
  · contradiction
  · simpa using h.symm
  · simp [errIo] at h

/-- What a sequence of records leaves: its statuses under growing ids. -/
theorem Recorded.table {statuses : List WorkStatus} {db : Conn (List MdbRow)}
    (h : Recorded statuses db) : ∃ t, db = { stored := t } ∧ IdSorted MdbRow.id t ∧
      t.map (fun r => (historyRecord r).unnumbered) = statuses.map WorkStatus.unnumbered := by
  induction h with
  | empty => exact ⟨[], rfl, idSorted_nil MdbRow.id, rfl⟩
  | record _ hret ih =>
      obtain ⟨t, rfl, hsorted, hmap⟩ := ih
      refine ⟨_, mdbRecord_eq_zero hret, idSorted_sqlRecord hsorted _, ?_⟩
      simp [sqlRecord, hmap]

/-- The newest records are the rows from the end. -/
theorem newest_eq {t : List MdbRow} (h : IdSorted MdbRow.id t) :
    newest t = t.reverse.map historyRecord := by
  rw [newest, orderDesc_of_pairwise _ h]

/-- **Paging**: the newest `count` recorded statuses are printed, newest first, each
once and with every field as it was recorded; no fetch stores beyond the array. -/
theorem history_pages_newest {statuses : List WorkStatus} {db : Conn (List MdbRow)}
    (hdb : Recorded statuses db) {count : Nat} {pages : List Page}
    (hpages : ∀ p ∈ pages, p.Quiet) (hlen : count ≤ pages.length) :
    ∃ s rest, doHistoryFetch db.stored count pages = done (0, s, rest) ∧
      s.printed.flatten.map WorkStatus.unnumbered =
        (statuses.reverse.take count).map WorkStatus.unnumbered ∧
      ∀ page ∈ s.printed, page.length ≤ nRecPerFetch := by
  obtain ⟨t, rfl, hsorted, hmap⟩ := hdb.table
  have hfresh := fresh_init t count
  obtain ⟨s, rest, hrun⟩ := historyFetch_quiet hfresh hpages hlen
  obtain ⟨hprinted, hle⟩ :=
    historyFetch_of_firstOk hfresh (fun p hp => (hpages p hp).firstOk) hrun
  refine ⟨s, rest, hrun, ?_, hle⟩
  rw [hprinted, newest_eq hsorted, ← List.map_take, List.map_map, List.map_take, List.map_reverse]
  rw [List.map_take, List.map_reverse, ← hmap]
  rfl

/-- Two rounds, read back with one record wanted. -/
theorem history_pages_newest_two :
    ∃ s rest, doHistoryFetch (sqlRecord { oidEnd := 7 } (sqlRecord { oidEnd := 5 } [])) 1
        [{ verdicts := List.replicate 11 .ok }] = done (0, s, rest) ∧
      s.printed.flatten.map WorkStatus.unnumbered = [{ oidEnd := 7 }] ∧
      ∀ page ∈ s.printed, page.length ≤ nRecPerFetch := by
  have h1 : Recorded [{ oidEnd := 5 }] { stored := sqlRecord { oidEnd := 5 } [] } :=
    @Recorded.record _ _ _ (answer []) false .ok _ .empty rfl
  have h2 : Recorded [{ oidEnd := 5 }, { oidEnd := 7 }]
      { stored := sqlRecord { oidEnd := 7 } (sqlRecord { oidEnd := 5 } []) } :=
    @Recorded.record _ _ _ (answer []) false .ok _ h1 rfl
  refine history_pages_newest h2 (fun p hp => ?_) (by decide)
  rw [List.mem_singleton.mp hp]
  exact ⟨rfl, 11, by decide, 0, rfl⟩

/-! ## a command that succeeds -/

/-- A table as its row ids number it. -/
structure RowIds (t : List MdbRow) : Prop where
  sorted : IdSorted MdbRow.id t
  bounded : ∀ r ∈ t, r.id < 2 ^ 63

/-- An option that asks for something. -/
def HistoryOption.Valid : HistoryOption → Prop
  | .count n => 1 ≤ n
  | _ => True

/-- The records that an option asks for. -/
def HistoryOption.requested (t : List MdbRow) : HistoryOption → List WorkStatus
  | .all => newest t
  | .count n => (newest t).take n
  | .default => (newest t).take 10

/-- The id tells the records apart. -/
theorem bindInt64_id_historyRecord {r : MdbRow} (h : r.id < 2 ^ 63) :
    bindInt64 (historyRecord r).id = r.id :=
  bindInt64_columnInt64 (i := r.id) (by omega) (by omega)

/-- No record is among the newest twice. -/
theorem nodup_newest {t : List MdbRow} (h : RowIds t) : (newest t).Nodup := by
  rw [newest_eq h.sorted, List.map_reverse, List.nodup_reverse, List.Nodup, List.pairwise_map]
  refine h.sorted.imp_of_mem fun {r r'} hr hr' hlt heq => ?_
  have hid := bindInt64_id_historyRecord (h.bounded r hr)
  rw [heq, bindInt64_id_historyRecord (h.bounded r' hr')] at hid
  omega

/-- No record is asked for twice. -/
theorem HistoryOption.requested_nodup (option : HistoryOption) {t : List MdbRow} (h : RowIds t) :
    (option.requested t).Nodup := by
  cases option with
  | all => exact nodup_newest h
  | count n => exact (nodup_newest h).sublist (List.take_sublist ..)
  | default => exact (nodup_newest h).sublist (List.take_sublist ..)

/-- Every option asks for something unless the table is empty. -/
theorem HistoryOption.requested_eq_nil {option : HistoryOption} (hoption : option.Valid)
    {t : List MdbRow} : option.requested t = [] ↔ t = [] := by
  have hnil : newest t = [] ↔ t = [] := by
    rw [← List.length_eq_zero_iff, length_newest, List.length_eq_zero_iff]
  cases option with
  | all => exact hnil
  | count n =>
      have hn : n ≠ 0 := Nat.ne_of_gt hoption
      rw [requested, List.take_eq_nil_iff, or_iff_right hn, hnil]
  | default => rw [requested, List.take_eq_nil_iff, or_iff_right (by decide), hnil]

/-- The records that `do_history_fetch` is told to fetch, when every record is told
apart: those asked for, but at most a page of them for `--all`. -/
theorem requested_perm_take {option : HistoryOption} (hoption : option.Valid) (t : List MdbRow) :
    ((newest t).take (if option.value = 0 then nRecPerFetch else option.value)).Perm
        (option.requested t) ↔ (option = .all → t.length ≤ nRecPerFetch) := by
  cases option with
  | all =>
      simp only [HistoryOption.value, HistoryOption.requested, if_true, forall_true_left]
      constructor
      · intro hperm
        have := hperm.length_eq
        rw [List.length_take, length_newest] at this
        omega
      · intro hle
        rw [List.take_of_length_le (by simpa using hle)]
  | count n =>
      have hn : n ≠ 0 := Nat.ne_of_gt hoption
      simp [HistoryOption.value, HistoryOption.requested, hn]
  | default => simp [HistoryOption.value, HistoryOption.requested, nRecPerFetch]

/-- **A command that succeeds is complete**, over answers that it uses up: every record
that was asked for is printed once, if and only if it is not `--all` over more than a
page and the first step of every page succeeds. -/
theorem history_complete_iff {option : HistoryOption} (hoption : option.Valid) {t : List MdbRow}
    (ht : RowIds t) {openRet ret : Int} {pages : List Page} {printed : List (List WorkStatus)}
    (hrun : historyCmdMain option openRet t pages = done (ret, printed, [])) :
    (ret = 0 → printed.flatten.Perm (option.requested t)) ↔
      openRet ≠ 0 ∨ (option = .all → t.length ≤ nRecPerFetch) ∧
        (t = [] ∨ ∀ p ∈ pages, p.FirstOk) := by
  unfold historyCmdMain doHistory at hrun
  by_cases hopen : openRet = 0
  · simp only [hopen, ne_eq, not_true_eq_false, if_false] at hrun
    obtain ⟨⟨ret', s, rest⟩, hfetch, heq⟩ := bind_eq_done.mp hrun
    simp only [pure_eq, done.injEq, Prod.mk.injEq] at heq
    obtain ⟨rfl, rfl, rfl⟩ := heq
    have hfresh := fresh_init t (if option.value = 0 then nRecPerFetch else option.value)
    have hret : ((ret' : Int) = 0) := by exact_mod_cast (historyFetch_eq_done hfetch).1
    simp only [hret, forall_true_left, hopen, ne_eq, not_true_eq_false, false_or]
    by_cases hpages : ∀ p ∈ pages, p.FirstOk
    · rw [(historyFetch_of_firstOk hfresh hpages hfetch).1, requested_perm_take hoption]
      exact ⟨fun h => ⟨h, .inr hpages⟩, And.left⟩
    · have hbad : ∃ p ∈ pages, ¬ p.FirstOk := by simpa using hpages
      have hnil := HistoryOption.requested_eq_nil hoption (t := t)
      obtain ⟨_, hempty⟩ | ⟨hne, hdup⟩ := historyFetch_of_not_firstOk hfresh hbad hfetch
      · rw [hempty, List.nil_perm, hnil]
        refine ⟨fun h => ⟨fun _ => by simp [h], .inl h⟩, fun ⟨_, h⟩ => ?_⟩
        exact h.resolve_right hpages
      · refine ⟨fun hperm => absurd ?_ hdup, fun ⟨_, h⟩ => absurd h (not_or.mpr ⟨hne, hpages⟩)⟩
        exact hperm.nodup_iff.mpr (option.requested_nodup ht)
  · simp only [ne_eq, hopen, not_false_eq_true, if_true, done.injEq, Prod.mk.injEq] at hrun
    simp [← hrun.1, hopen]

/-- `--count=1` over one round, with a wait before the row. -/
theorem history_complete_iff_one :
    ((0 : Int) = 0 → [[historyRecord (mdbRow 1 {})]].flatten.Perm
        ((HistoryOption.count 1).requested [mdbRow 1 {}])) ↔
      (0 : Int) ≠ 0 ∨ (HistoryOption.count 1 = .all → [mdbRow 1 {}].length ≤ nRecPerFetch) ∧
        ([mdbRow 1 {}] = [] ∨
          ∀ p ∈ [({ verdicts := [.busy, .ok, .ok] } : Page)], p.FirstOk) :=
  @history_complete_iff (.count 1) (Nat.le_refl 1) _
    ⟨List.pairwise_singleton .., fun r hr => by rw [List.mem_singleton.mp hr]; decide⟩ _ _ _ _ rfl

/-- Eleven rounds and `--all`, without a failure: ten are printed. -/
theorem history_all_eleven_incomplete :
    ∃ printed,
      historyCmdMain .all 0 ((List.range 11).map fun i => mdbRow (i + 1) {})
        [{ verdicts := List.replicate 11 .ok }] = done (0, printed, []) ∧
      ¬ printed.flatten.Perm
        (HistoryOption.all.requested ((List.range 11).map fun i => mdbRow (i + 1) {})) := by
  refine ⟨_, rfl, fun hperm => ?_⟩
  exact absurd hperm.length_eq (by decide)

/-- One round, and a page after it that cannot be read: the round is printed twice. -/
example :
    historyCmdMain .default 0 [mdbRow 1 {}]
        [{ verdicts := [.ok, .ok] }, { verdicts := [.error] }, { verdicts := [.ok] }] =
      done (0, [[historyRecord (mdbRow 1 {})], [historyRecord (mdbRow 1 {})]], []) := rfl

end Hpssix
