import Hpssix.Base.Trace
import Hpssix.Daemon

/-!
# Hpssix.MdbFile

The file of the master db, and the processes that open it: `do_scanner` at each round
and `hpssix-admin history` at any time (`hpssix_mdb_open` in
`libhpssix/src/hpssix-mdb.c`, `hpssix_tmpdb_open` in `libhpssix/src/hpssix-tmpdb.c`).

Whether the tables have to be made is decided by a `stat` before the file is opened,
and opening a missing file makes it.  So another process can come in between the file
and its table, and between the `stat` and the schema, which drops the table.

* `rows_kept` — once nobody is left who found no file, rows are only added, one for
  each round that is recorded;
* `openable_iff` — and no process ever opens a file that was left without its table;
* `sole_creator_keeps_rows` — if nobody else looks for the file while it is made,
  the table has the recorded rounds in order, and every opened db is up to date.
-/

namespace Hpssix

open Cursor Fate Lite Trace

namespace MdbFile

/-! ## opening the file -/

/-- Where a process stands: behind its `stat`, behind `sqlite3_open` (and the schema, if
it does not need it), with its statements prepared under a version of the schema, or
out of `hpssix_mdb_open` with an error. -/
inductive Opener where
  | statted (needInit : Bool)
  | opened (needInit : Bool)
  | ready (version : Nat)
  | failed (ret : Int)
  | closed
deriving DecidableEq

/-- The process found no file, and is going to run the schema. -/
def Opener.Creates (p : Opener) : Prop := p = .statted true ∨ p = .opened true

instance (p : Opener) : Decidable p.Creates := inferInstanceAs (Decidable (_ ∨ _))

/-- The file, which has no table before its schema is run, and the openers in the order
in which they looked for it.  `recorded` is what was stored, in this order. -/
structure System where
  file : Option (Option (List MdbRow)) := none
  version : Nat := 0
  openers : List Opener := []
  recorded : List WorkStatus := []
deriving DecidableEq

/-- The next step of a process, and how its library calls turn out. -/
inductive Event where
  | stat (err : Bool)
  | sqliteOpen (i : Nat) (ok : Bool)
  | schema (i : Nat) (rc : ExecRc)
  | prepare (i : Nat) (ok : Bool)
  | record (i : Nat) (env : RecordEnv) (status : WorkStatus)
  | close (i : Nat)

/-- The code of a refused `sqlite3_exec`; of the errors that end a transaction by
themselves `SQLITE_FULL` is taken. -/
def execRet : ExecRc → Int
  | .ok => 0
  | .busy => 5
  | .error => 1
  | .rolledBack => 13

namespace System

def opener (σ : System) (i : Nat) : Option Opener := σ.openers[i]?

def setOpener (σ : System) (i : Nat) (p : Opener) : System :=
  { σ with openers := σ.openers.set i p }

/-- The table, with no rows where there is none. -/
def rows (σ : System) : List MdbRow := (σ.file.getD none).getD []

/-- `stat`: only a missing file is made. -/
def stat (σ : System) (err : Bool) : System :=
  { σ with openers := σ.openers ++ [if err then .failed (-1) else .statted σ.file.isNone] }

/-- `sqlite3_open`: a missing file is made, without a table. -/
def sqliteOpen (σ : System) (i : Nat) (ok needInit : Bool) : System :=
  if ok then { σ.setOpener i (.opened needInit) with file := some (σ.file.getD none) }
  else σ.setOpener i (.failed errIo)

/-- `hpssix_tmpdb_exec_simple_sql(self, self->schema)`: the table is dropped if there is
one, and made again. -/
def runSchema (σ : System) (i : Nat) (rc : ExecRc) : System :=
  if rc = .ok then
    { σ.setOpener i (.opened false) with file := some (some []), version := σ.version + 1 }
  else σ.setOpener i (.failed (execRet rc))

/-- `tmpdb_prepare_stmt`: there has to be a table. -/
def prepare (σ : System) (i : Nat) (ok : Bool) : System :=
  if ok ∧ (σ.file.getD none).isSome then σ.setOpener i (.ready σ.version)
  else σ.setOpener i (.failed errIo)

/-- A statement that was prepared under another version of the schema fails. -/
def recordEnv (σ : System) (version : Nat) (env : RecordEnv) : RecordEnv :=
  if version = σ.version then env else { env with steps := [.error] }

/-- `hpssix_mdb_record`. -/
def record (σ : System) (version : Nat) (env : RecordEnv) (status : WorkStatus) : System :=
  let t := (recordRound (σ.recordEnv version env) status σ.rows).1
  if t = σ.rows then σ
  else { σ with file := some (some t), recorded := σ.recorded ++ [status] }

/-- One step of one process. -/
def step (σ : System) : Event → System
  | .stat err => σ.stat err
  | .sqliteOpen i ok =>
    match σ.opener i with
    | some (.statted needInit) => σ.sqliteOpen i ok needInit
    | _ => σ
  | .schema i rc =>
    match σ.opener i with
    | some (.opened true) => σ.runSchema i rc
    | _ => σ
  | .prepare i ok =>
    match σ.opener i with
    | some (.opened false) => σ.prepare i ok
    | _ => σ
  | .record i env status =>
    match σ.opener i with
    | some (.ready version) => σ.record version env status
    | _ => σ
  | .close i => σ.setOpener i .closed

end System

/-! ## what a step can do -/

/-- A step out of a state. -/
inductive Change (σ : System) : Event → System → Prop
  | stays (e : Event) : Change σ e σ
  | looks (err : Bool) (p : Opener) (hp : p = .failed (-1) ∨ p = .statted σ.file.isNone) :
      Change σ (.stat err) { σ with openers := σ.openers ++ [p] }
  | ends (e : Event) (i : Nat) (p : Opener) (hp : p = .closed ∨ ∃ ret, ret ≠ 0 ∧ p = .failed ret) :
      Change σ e (σ.setOpener i p)
  | opens (e : Event) (i : Nat) (needInit : Bool)
      (hi : σ.opener i = some (.statted needInit)) :
      Change σ e { σ.setOpener i (.opened needInit) with file := some (σ.file.getD none) }
  | makes (e : Event) (i : Nat) (hi : σ.opener i = some (.opened true)) :
      Change σ e { σ.setOpener i (.opened false) with
        file := some (some []), version := σ.version + 1 }
  | prepares (e : Event) (i : Nat) (hi : σ.opener i = some (.opened false)) (t : List MdbRow)
      (ht : σ.file = some (some t)) : Change σ e (σ.setOpener i (.ready σ.version))
  | records (e : Event) (i : Nat) (hi : σ.opener i = some (.ready σ.version))
      (status : WorkStatus) :
      Change σ e { σ with
        file := some (some (sqlRecord status σ.rows)), recorded := σ.recorded ++ [status] }

theorem execRet_ne_zero {rc : ExecRc} (h : rc ≠ .ok) : execRet rc ≠ 0 := by
  cases rc with
  | ok => exact absurd rfl h
  | busy => decide
  | error => decide
  | rolledBack => decide

theorem sqlRecord_ne_self (status : WorkStatus) (t : List MdbRow) : sqlRecord status t ≠ t := by
  simp [sqlRecord]

/-- A call that is carried out with current statements stores one row. -/
theorem record_of_stores {σ : System} {env : RecordEnv} (h : env.Stores) (status : WorkStatus) :
    σ.record σ.version env status =
      { σ with
        file := some (some (sqlRecord status σ.rows)), recorded := σ.recorded ++ [status] } := by
  unfold System.record System.recordEnv
  rw [if_pos rfl, recordRound_of_stores h]
  exact if_neg (sqlRecord_ne_self status σ.rows)

/-- Every other call stores nothing. -/
theorem record_of_not_stores {σ : System} {version : Nat} {env : RecordEnv}
    (h : version = σ.version → ¬ env.Stores) (status : WorkStatus) :
    σ.record version env status = σ := by
  unfold System.record System.recordEnv
  have hs : ¬ (if version = σ.version then env else { env with steps := [.error] }).Stores := by
    split
    · next hv => exact h hv
    · rintro ⟨-, ⟨rest, hrest⟩, -⟩
      cases hrest
  rw [recordRound_of_not_stores hs]
  exact if_pos rfl

/-- An event of the run is one of the changes. -/
theorem change (σ : System) (e : Event) : Change σ e (σ.step e) := by
  cases e with
  | stat err =>
      cases err with
      | true => exact .looks _ _ (.inl rfl)
      | false => exact .looks _ _ (.inr rfl)
  | sqliteOpen i ok =>
      simp only [System.step]
      split
      · next needInit hi =>
          cases ok with
          | true => exact .opens _ i needInit hi
          | false => exact .ends _ i _ (.inr ⟨errIo, by decide, rfl⟩)
      · exact .stays _
  | schema i rc =>
      simp only [System.step]
      split
      · next hi =>
          unfold System.runSchema
          split
          · exact .makes _ i hi
          · next hrc => exact .ends _ i _ (.inr ⟨_, execRet_ne_zero hrc, rfl⟩)
      · exact .stays _
  | prepare i ok =>
      simp only [System.step]
      split
      · next hi =>
          unfold System.prepare
          split
          · next hok =>
              obtain ⟨t, ht⟩ := Option.isSome_iff_exists.mp hok.2
              refine .prepares _ i hi t ?_
              cases hfile : σ.file with
              | none => simp [hfile] at ht
              | some t' => simpa [hfile] using ht
          · exact .ends _ i _ (.inr ⟨errIo, by decide, rfl⟩)
      · exact .stays _
  | record i env status =>
      simp only [System.step]
      split
      · next version hi =>
          by_cases h : version = σ.version ∧ env.Stores
          · obtain ⟨rfl, hs⟩ := h
            rw [record_of_stores hs]
            exact .records _ i hi status
          · rw [record_of_not_stores fun hv hs => h ⟨hv, hs⟩]
            exact .stays _
      · exact .stays _
  | close i => exact .ends _ i _ (.inl rfl)

/-! ## what every run keeps -/

section Openers
variable {σ : System} {i j : Nat} {p q : Opener}

/-- A process after one has moved: that one, or another as it was. -/
theorem opener_setOpener (h : (σ.setOpener i p).opener j = some q) :
    j = i ∧ q = p ∨ j ≠ i ∧ σ.opener j = some q := by
  have h' : (σ.openers.set i p)[j]? = some q := h
  rw [List.getElem?_set] at h'
  by_cases hj : i = j
  · rw [if_pos hj] at h'
    split at h'
    · exact .inl ⟨hj.symm, (Option.some.inj h').symm⟩
    · cases h'
  · rw [if_neg hj] at h'
    exact .inr ⟨fun hji => hj hji.symm, h'⟩

/-- A process after one has arrived: that one, or another as it was. -/
theorem opener_looks (h : ({ σ with openers := σ.openers ++ [p] } : System).opener j = some q) :
    σ.opener j = some q ∨ j = σ.openers.length ∧ q = p := by
  have h' : (σ.openers ++ [p])[j]? = some q := h
  rw [List.getElem?_append] at h'
  split at h'
  · exact .inl h'
  · next hj =>
      obtain ⟨hlt, hq⟩ := List.getElem?_eq_some_iff.mp h'
      have hlen : j - σ.openers.length < 1 := hlt
      refine .inr ⟨by omega, ?_⟩
      simpa using hq.symm

end Openers

/-- What a process knows of the file: who has seen it has it, and who is ready has the
table. -/
def Fits (file : Option (Option (List MdbRow))) : Opener → Prop
  | .statted needInit => needInit = false → file ≠ none
  | .opened _ => file ≠ none
  | .ready _ => ∃ t, file = some (some t)
  | .failed _ | .closed => True

/-- What fits a file fits one that has what it had. -/
theorem Fits.mono {file file' : Option (Option (List MdbRow))} {p : Opener} (h : Fits file p)
    (hfile : file ≠ none → file' ≠ none)
    (htable : ∀ t, file = some (some t) → ∃ t', file' = some (some t')) : Fits file' p := by
  cases p with
  | statted needInit => exact fun hn => hfile (h hn)
  | opened needInit => exact hfile h
  | ready v => exact h.elim htable
  | failed ret => trivial
  | closed => trivial

/-- A process that has ended fits any file. -/
theorem fits_ended {file : Option (Option (List MdbRow))} {p : Opener}
    (hp : p = .closed ∨ ∃ ret, ret ≠ 0 ∧ p = .failed ret) : Fits file p := by
  rcases hp with rfl | ⟨ret, -, rfl⟩ <;> trivial

def Ok (σ : System) : Prop := ∀ i p, σ.opener i = some p → Fits σ.file p

/-- Nothing is open at first. -/
theorem ok_init : Ok {} := fun i p hi => by cases hi

/-- Every change keeps the invariant. -/
theorem ok_change {σ σ' : System} {e : Event} (h : Ok σ) (hc : Change σ e σ') : Ok σ' := by
  intro j q hq
  cases hc with
  | stays => exact h j q hq
  | looks err p hp =>
      obtain hq | ⟨-, rfl⟩ := opener_looks hq
      · exact h j q hq
      · rcases hp with rfl | rfl
        · trivial
        · intro hsome hnone
          rw [hnone] at hsome
          cases hsome
  | ends _ i p hp =>
      obtain ⟨-, rfl⟩ | ⟨-, hq⟩ := opener_setOpener hq
      · exact fits_ended hp
      · exact h j q hq
  | opens _ i needInit hi =>
      obtain ⟨-, rfl⟩ | ⟨-, hq⟩ := opener_setOpener hq
      · exact Option.some_ne_none _
      · exact (h j q hq).mono (fun _ => Option.some_ne_none _) fun t ht => ⟨t, by rw [ht]; rfl⟩
  | makes _ i hi =>
      obtain ⟨-, rfl⟩ | ⟨-, hq⟩ := opener_setOpener hq
      · exact Option.some_ne_none _
      · exact (h j q hq).mono (fun _ => Option.some_ne_none _) fun _ _ => ⟨[], rfl⟩
  | prepares _ i hi t ht =>
      obtain ⟨-, rfl⟩ | ⟨-, hq⟩ := opener_setOpener hq
      · exact ⟨t, ht⟩
      · exact h j q hq
  | records _ i hi status =>
      exact (h j q hq).mono (fun _ => Option.some_ne_none _) fun _ _ => ⟨_, rfl⟩

/-- In every run each process fits the file. -/
theorem ok_run (es : List Event) : Ok (run System.step {} es) :=
  invariant_run_all es ok_init fun σ e h => ok_change h (change σ e)

/-- Nobody is ready where there is no table. -/
theorem Ok.not_ready {σ : System} (h : Ok σ) (htable : ∀ t, σ.file ≠ some (some t)) (i v : Nat) :
    σ.opener i ≠ some (.ready v) := fun hi => by
  obtain ⟨t, ht⟩ := h i _ hi
  exact htable t ht

/-! ## once the file is there -/

/-- The rounds that are recorded, one row after the other. -/
def recordAll (statuses : List WorkStatus) (t : List MdbRow) : List MdbRow :=
  statuses.foldl (fun t status => sqlRecord status t) t

/-- Nobody is left who found no file. -/
def Idle (σ : System) : Prop := ∀ p ∈ σ.openers, ¬ p.Creates

instance (σ : System) : Decidable (Idle σ) := inferInstanceAs (Decidable (∀ p ∈ σ.openers, ¬ p.Creates))

/-- No process is making the file. -/
theorem idle_iff {σ : System} : Idle σ ↔ ∀ i p, σ.opener i = some p → ¬ p.Creates := by
  constructor
  · exact fun h i p hi => h p (List.mem_of_getElem? hi)
  · intro h p hp
    obtain ⟨i, hi⟩ := List.getElem?_of_mem hp
    exact h i p hi

theorem Idle.opener {σ : System} {i : Nat} {p : Opener} (h : Idle σ) (hi : σ.opener i = some p) :
    ¬ p.Creates := idle_iff.mp h i p hi

/-- A process that has ended does not make the file. -/
theorem not_creates_of_ended {p : Opener} (hp : p = .closed ∨ ∃ ret, ret ≠ 0 ∧ p = .failed ret) :
    ¬ p.Creates := by
  rcases hp with rfl | ⟨ret, -, rfl⟩ <;> simp [Opener.Creates]

/-- It stays so when a process moves on and does not make the file. -/
theorem Idle.setOpener {σ : System} {i : Nat} {p : Opener} (h : Idle σ) (hp : ¬ p.Creates) :
    Idle (σ.setOpener i p) := by
  refine idle_iff.mpr fun j q hq => ?_
  obtain ⟨-, rfl⟩ | ⟨-, hq⟩ := opener_setOpener hq
  · exact hp
  · exact h.opener hq

/-- What a state with the file comes to: nobody makes the table again, and the rows that it
has are followed by those that are recorded. -/
structure Settled (σ₀ σ : System) : Prop where
  ok : Ok σ
  idle : Idle σ
  there : σ.file ≠ none
  version : σ.version = σ₀.version
  grown : ∃ more, σ.recorded = σ₀.recorded ++ more ∧ σ.file = σ₀.file.map (Option.map (recordAll more))

/-- Every change keeps a settled file, and its rows in front. -/
theorem settled_change {σ₀ σ σ' : System} {e : Event} (h : Settled σ₀ σ) (hc : Change σ e σ') :
    Settled σ₀ σ' := by
  have hok := ok_change h.ok hc
  cases hc with
  | stays => exact h
  | looks err p hp =>
      refine ⟨hok, idle_iff.mpr fun j q hq => ?_, h.there, h.version, h.grown⟩
      obtain hq | ⟨-, rfl⟩ := opener_looks hq
      · exact h.idle.opener hq
      · have hsome : σ.file.isNone = false :=
          Option.isNone_eq_false_iff.mpr (Option.isSome_iff_ne_none.mpr h.there)
        rcases hp with rfl | rfl <;> simp [Opener.Creates, hsome]
  | ends _ i p hp =>
      exact ⟨hok, h.idle.setOpener (not_creates_of_ended hp), h.there, h.version, h.grown⟩
  | opens _ i needInit hi =>
      have hfile : some (σ.file.getD none) = σ.file := by
        obtain ⟨f, hf⟩ := Option.ne_none_iff_exists'.mp h.there
        rw [hf]
        rfl
      have hseen : needInit = false := by
        cases needInit with
        | false => rfl
        | true => exact absurd (.inl rfl) (h.idle.opener hi)
      subst hseen
      have hidle : Idle (σ.setOpener i (.opened false)) := h.idle.setOpener (by simp [Opener.Creates])
      exact ⟨hok, hidle, Option.some_ne_none _, h.version,
        h.grown.imp fun more hmore => ⟨hmore.1, hfile.trans hmore.2⟩⟩
  | makes _ i hi => exact absurd (.inr rfl) (h.idle.opener hi)
  | prepares _ i hi t ht =>
      exact ⟨hok, h.idle.setOpener (by simp [Opener.Creates]), h.there, h.version, h.grown⟩
  | records _ i hi status =>
      obtain ⟨more, hmore, hfile⟩ := h.grown
      obtain ⟨t, ht⟩ := h.ok i _ hi
      refine ⟨hok, h.idle, Option.some_ne_none _, h.version, more ++ [status], ?_, ?_⟩
      · rw [hmore, List.append_assoc]
      · rw [ht] at hfile
        have hrows : σ.rows = t := by simp [System.rows, ht]
        obtain ⟨t₀, ht₀, hmap⟩ : ∃ t₀, σ₀.file = some (some t₀) ∧ recordAll more t₀ = t := by
          cases hf : σ₀.file with
          | none => simp [hf] at hfile
          | some f =>
              cases f with
              | none => simp [hf] at hfile
              | some t₀ => exact ⟨t₀, rfl, by simpa [hf] using hfile.symm⟩
        rw [ht₀, hrows, ← hmap]
        simp [recordAll]

/-- **Rows are kept** once the file is there and nobody is left who found none: whatever the
processes do then, and wherever they end, the rows are followed by the rounds that are recorded,
and the statements of who is ready stay valid. -/
theorem rows_kept (pre es : List Event) (hidle : Idle (run System.step {} pre))
    (hfile : (run System.step {} pre).file ≠ none) :
    (run System.step {} (pre ++ es)).version = (run System.step {} pre).version ∧
      ∃ more, (run System.step {} (pre ++ es)).recorded =
          (run System.step {} pre).recorded ++ more ∧
        (run System.step {} (pre ++ es)).file =
          (run System.step {} pre).file.map (Option.map (recordAll more)) := by
  rw [run_append]
  have hnil : (run System.step {} pre).file =
      (run System.step {} pre).file.map (Option.map (recordAll [])) := by
    have hid : recordAll [] = id := rfl
    rw [hid, Option.map_id, Option.map_id]
    rfl
  have h0 : Settled (run System.step {} pre) (run System.step {} pre) :=
    ⟨ok_run pre, hidle, hfile, rfl, [], (List.append_nil _).symm, hnil⟩
  have h := invariant_run_all es h0 fun σ e h => settled_change h (change σ e)
  exact ⟨h.version, h.grown⟩

/-- The first round, up to its open db. -/
def firstOpen : List Event := [.stat false, .sqliteOpen 0 true, .schema 0 .ok, .prepare 0 true]

/-- One more record and one more look at the file. -/
theorem rows_kept_firstOpen :
    let next := firstOpen ++ [.record 0 {} {}, .close 0, .stat false]
    (run System.step {} next).version = 1 ∧
      ∃ more, (run System.step {} next).recorded = [] ++ more ∧
        (run System.step {} next).file = some (some (recordAll more [])) :=
  rows_kept firstOpen [.record 0 {} {}, .close 0, .stat false] (by decide) (by decide)

/-! ## a file without a table -/

/-- The file was made, and whoever made it is gone. -/
structure Bare (σ : System) : Prop where
  ok : Ok σ
  idle : Idle σ
  file : σ.file = some none

/-- A file without a table stays so. -/
theorem bare_change {σ σ' : System} {e : Event} (h : Bare σ) (hc : Change σ e σ') : Bare σ' := by
  have hs : Settled σ σ := ⟨h.ok, h.idle, by rw [h.file]; exact Option.some_ne_none _, rfl, [],
    (List.append_nil _).symm, by rw [h.file]; rfl⟩
  have hs' := settled_change hs hc
  obtain ⟨more, -, hfile⟩ := hs'.grown
  exact ⟨hs'.ok, hs'.idle, by rw [hfile, h.file]; rfl⟩

/-- A process that goes through `hpssix_mdb_open` with nothing in between. -/
def openEvents (i : Nat) (needInit : Bool) : List Event :=
  [.stat false, .sqliteOpen i true] ++ (if needInit then [.schema i .ok] else []) ++ [.prepare i true]

/-- Where there is no file, or the table, the process gets ready. -/
theorem ready_openEvents {σ : System} (h : σ.file ≠ some none) :
    ∃ version, (run System.step σ (openEvents σ.openers.length σ.file.isNone)).opener
      σ.openers.length = some (.ready version) := by
  cases hfile : σ.file with
  | none =>
      refine ⟨σ.version + 1, ?_⟩
      simp [openEvents, System.step, System.stat, System.sqliteOpen, System.runSchema,
        System.prepare, System.opener, System.setOpener, hfile]
  | some f =>
      cases f with
      | none => exact absurd hfile h
      | some t =>
          refine ⟨σ.version, ?_⟩
          simp [openEvents, System.step, System.stat, System.sqliteOpen,
            System.prepare, System.opener, System.setOpener, hfile]

/-- **A file without its table is never opened**: where nobody is left who found no file, some
process gets its db opened afterwards if and only if the file is missing or has its table. -/
theorem openable_iff (pre : List Event) (hidle : Idle (run System.step {} pre)) :
    (∃ es i version, (run System.step {} (pre ++ es)).opener i = some (.ready version)) ↔
      (run System.step {} pre).file ≠ some none := by
  simp only [run_append]
  constructor
  · rintro ⟨es, i, version, hi⟩ hfile
    have hbare : Bare (run System.step (run System.step {} pre) es) :=
      invariant_run_all es ⟨ok_run pre, hidle, hfile⟩ fun σ e h => bare_change h (change σ e)
    exact hbare.ok.not_ready (fun t ht => by rw [hbare.file] at ht; cases ht) i version hi
  · intro hfile
    obtain ⟨version, hi⟩ := ready_openEvents hfile
    exact ⟨_, _, version, hi⟩

/-- A process that ends between the file and its table. -/
def interrupted : List Event := [.stat false, .sqliteOpen 0 true, .close 0]

/-- After an interrupted creation no process comes to have the file. -/
theorem openable_iff_interrupted :
    ¬ ∃ es i version,
      (run System.step {} (interrupted ++ es)).opener i = some (.ready version) := fun h =>
  absurd rfl ((openable_iff interrupted (by decide)).mp h)

/-! ## a single maker -/

/-- Who looks for a missing file does so while nobody else is making it. -/
def SoleCreator (σ : System) : Event → Prop
  | .stat _ => σ.file = none → Idle σ
  | _ => True

/-- One process makes the file, which has no table before it is through; and then the table has
the recorded rounds, under the version of the schema that everybody who is ready knows. -/
structure Sole (σ : System) : Prop where
  ok : Ok σ
  one : ∀ i j p q, σ.opener i = some p → σ.opener j = some q → p.Creates → q.Creates → i = j
  statted : ∀ i, σ.opener i = some (.statted true) → σ.file = none
  opened : ∀ i, σ.opener i = some (.opened true) → σ.file = some none
  rows : σ.rows = recordAll σ.recorded []
  current : ∀ i v, σ.opener i = some (.ready v) → v = σ.version

/-- Nobody makes the file at first. -/
theorem sole_init : Sole {} where
  ok := ok_init
  one i j p q hi := by cases hi
  statted i hi := by cases hi
  opened i hi := by cases hi
  rows := rfl
  current i v hi := by cases hi

/-- A process that goes on in one place, and does not make the file. -/
theorem Sole.setOpener {σ : System} {i : Nat} {p : Opener} (h : Sole σ) (hp : ¬ p.Creates)
    (hok : Ok (σ.setOpener i p)) (hv : ∀ v, p = .ready v → v = σ.version) :
    Sole (σ.setOpener i p) where
  ok := hok
  one j k q r hq hr hcq hcr := by
    obtain ⟨-, rfl⟩ | ⟨-, hq⟩ := opener_setOpener hq
    · exact absurd hcq hp
    · obtain ⟨-, rfl⟩ | ⟨-, hr⟩ := opener_setOpener hr
      · exact absurd hcr hp
      · exact h.one j k q r hq hr hcq hcr
  statted j hj := by
    obtain ⟨-, rfl⟩ | ⟨-, hj⟩ := opener_setOpener hj
    · exact absurd (.inl rfl) hp
    · exact h.statted j hj
  opened j hj := by
    obtain ⟨-, rfl⟩ | ⟨-, hj⟩ := opener_setOpener hj
    · exact absurd (.inr rfl) hp
    · exact h.opened j hj
  rows := h.rows
  current j v hj := by
    obtain ⟨-, hpv⟩ | ⟨-, hj⟩ := opener_setOpener hj
    · exact hv v hpv.symm
    · exact h.current j v hj

/-- Nobody else makes the file. -/
theorem Sole.alone {σ : System} {i : Nat} {p : Opener} (h : Sole σ) (hi : σ.opener i = some p)
    (hp : p.Creates) {j : Nat} {q : Opener} (hj : j ≠ i) (hq : σ.opener j = some q) :
    ¬ q.Creates := fun hcq => hj (h.one j i q p hq hi hcq hp)

/-- Every change with one creator keeps the rows. -/
theorem sole_change {σ σ' : System} {e : Event} (h : Sole σ) (ho : SoleCreator σ e)
    (hc : Change σ e σ') : Sole σ' := by
  have hok := ok_change h.ok hc
  have hcreates : ¬ (Opener.opened false).Creates := by decide
  cases hc with
  | stays => exact h
  | looks err p hp =>
      have hfirst : p.Creates → σ.file = none := by
        rcases hp with rfl | rfl
        · simp [Opener.Creates]
        · simp [Opener.Creates]
      refine ⟨hok, fun j k q r hq hr hcq hcr => ?_, fun j hj => ?_, fun j hj => ?_, h.rows,
        fun j v hj => ?_⟩
      · obtain hold | ⟨rfl, rfl⟩ := opener_looks hq
        · obtain hold' | ⟨rfl, rfl⟩ := opener_looks hr
          · exact h.one j k q r hold hold' hcq hcr
          · exact absurd hcq ((ho (hfirst hcr)).opener hold)
        · obtain hold | ⟨rfl, -⟩ := opener_looks hr
          · exact absurd hcr ((ho (hfirst hcq)).opener hold)
          · rfl
      · obtain hj | ⟨-, rfl⟩ := opener_looks hj
        · exact h.statted j hj
        · exact hfirst (.inl rfl)
      · obtain hj | ⟨-, rfl⟩ := opener_looks hj
        · exact h.opened j hj
        · rcases hp with hp | hp <;> cases hp
      · obtain hj | ⟨-, rfl⟩ := opener_looks hj
        · exact h.current j v hj
        · rcases hp with hp | hp <;> cases hp
  | ends _ i p hp =>
      refine h.setOpener (not_creates_of_ended hp) hok fun v hv => ?_
      rcases hp with hp | ⟨ret, -, hp⟩ <;> rw [hp] at hv <;> cases hv
  | opens _ i needInit hi =>
      cases needInit with
      | false =>
          obtain ⟨f, hf⟩ := Option.ne_none_iff_exists'.mp (h.ok i _ hi rfl)
          have hsame : { σ.setOpener i (.opened false) with file := some (σ.file.getD none) } =
              σ.setOpener i (.opened false) := by
            rw [hf, Option.getD_some, ← hf]
            rfl
          rw [hsame] at hok ⊢
          exact h.setOpener hcreates hok fun v hv => by cases hv
      | true =>
          have hnone := h.statted i hi
          have htable : ∀ t, σ.file ≠ some (some t) := fun t ht => by
            rw [hnone] at ht
            cases ht
          refine ⟨hok, fun j k q r hq hr hcq hcr => ?_, fun j hj => ?_, fun j hj => ?_, ?_,
            fun j v hj => ?_⟩
          · obtain ⟨rfl, -⟩ | ⟨hj, hq⟩ := opener_setOpener hq
            · obtain ⟨rfl, -⟩ | ⟨hk, hr⟩ := opener_setOpener hr
              · rfl
              · exact absurd hcr (h.alone hi (.inl rfl) hk hr)
            · exact absurd hcq (h.alone hi (.inl rfl) hj hq)
          · obtain ⟨-, hp⟩ | ⟨hne, hj⟩ := opener_setOpener hj
            · cases hp
            · exact absurd (.inl rfl) (h.alone hi (.inl rfl) hne hj)
          · show some (σ.file.getD none) = some none
            rw [hnone]
            rfl
          · have hrows := h.rows
            simpa [System.rows, System.setOpener, hnone] using hrows
          · obtain ⟨-, hp⟩ | ⟨-, hj⟩ := opener_setOpener hj
            · cases hp
            · exact absurd hj (h.ok.not_ready htable j v)
  | makes _ i hi =>
      have hbare := h.opened i hi
      have htable : ∀ t, σ.file ≠ some (some t) := fun t ht => by
        rw [hbare] at ht
        cases ht
      have hidle : Idle (σ.setOpener i (.opened false)) := idle_iff.mpr fun j q hq => by
        obtain ⟨-, rfl⟩ | ⟨hj, hq⟩ := opener_setOpener hq
        · exact hcreates
        · exact h.alone hi (.inr rfl) hj hq
      refine ⟨hok, fun j k q r hq hr hcq hcr => absurd hcq (hidle.opener hq),
        fun j hj => absurd (.inl rfl) (hidle.opener hj),
        fun j hj => absurd (.inr rfl) (hidle.opener hj), ?_, fun j v hj => ?_⟩
      · have hrows := h.rows
        simpa [System.rows, System.setOpener, hbare] using hrows
      · obtain ⟨-, hp⟩ | ⟨-, hj⟩ := opener_setOpener hj
        · cases hp
        · exact absurd hj (h.ok.not_ready htable j v)
  | prepares _ i hi t ht =>
      exact h.setOpener (by simp [Opener.Creates]) hok fun v hv => (Opener.ready.inj hv).symm
  | records _ i hi status =>
      obtain ⟨t, ht⟩ := h.ok i _ hi
      refine ⟨hok, h.one, fun j hj => ?_, fun j hj => ?_, ?_, h.current⟩
      · rw [h.statted j hj] at ht
        cases ht
      · rw [h.opened j hj] at ht
        cases ht
      · show sqlRecord status σ.rows = recordAll (σ.recorded ++ [status]) []
        rw [h.rows]
        simp [recordAll]

/-- **A single maker**: in every run in which nobody looks for the missing file while another
process makes it, the table has the rounds that were recorded, in order; and a call of
`hpssix_mdb_record` that is carried out stores its row. -/
theorem sole_creator_keeps_rows {es : List Event} (h : AllSteps System.step SoleCreator {} es) :
    let σ := run System.step {} es
    σ.rows = recordAll σ.recorded [] ∧
      ∀ i version env status, σ.opener i = some (.ready version) → env.Stores →
        (σ.step (.record i env status)).rows = sqlRecord status σ.rows := by
  intro σ
  have hs : Sole σ := invariant_run sole_init h fun σ e h ho => sole_change h ho (change σ e)
  refine ⟨hs.rows, fun i version env status hi hstores => ?_⟩
  obtain rfl := hs.current i version hi
  simp only [System.step, hi, record_of_stores hstores, System.rows, Option.getD_some]

/-- The first open, and a record. -/
theorem sole_creator_keeps_rows_firstOpen :
    let σ := run System.step {} (firstOpen ++ [.record 0 {} {}])
    σ.rows = recordAll σ.recorded [] ∧ (σ.step (.record 0 {} {})).rows = sqlRecord {} σ.rows := by
  have h : AllSteps System.step SoleCreator {} (firstOpen ++ [.record 0 {} {}]) := by
    refine ⟨fun _ => by decide, ?_⟩
    trivial
  obtain ⟨hrows, hstored⟩ := sole_creator_keeps_rows h
  exact ⟨hrows, hstored 0 1 {} {} rfl ⟨rfl, ⟨_, rfl⟩, fun _ => rfl⟩⟩

/-- Two processes that both find no file: the later schema drops what was recorded. -/
example : (run System.step {} ([.stat false] ++ [.stat false, .sqliteOpen 0 true, .schema 0 .ok,
    .prepare 0 true, .record 0 {} {}, .sqliteOpen 1 true, .schema 1 .ok])).rows = [] := by
  decide

end MdbFile

end Hpssix
