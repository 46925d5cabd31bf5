import Mathlib.Algebra.GroupWithZero.Nat
import Mathlib.Logic.Function.Iterate
import Hpssix.Base.Cursor

/-!
# Base.Lite

An embedded SQL database as one connection sees it: the content that is
stored, and the content that an open transaction has made of it.  A
statement outside a transaction is stored at once; `end transaction` may be
refused as busy, and then leaves the transaction open.  A full disk, an I/O
error and a lack of memory may end the transaction by themselves, at whatever
statement they meet.

Whether a call succeeds is given from outside, as a result code; what the
call does is decided here from that code and the connection's own state.
Values are integers of 64 bits, bound and read back through a signed column
(`columnInt64_bindInt64`).
-/

namespace Lite

variable {T : Type _}

/-! ## integer columns -/

/-- `sqlite3_bind_int64` on an unsigned value: the signed integer of its bits. -/
def bindInt64 (x : UInt64) : Int := x.toInt64.toInt

/-- `sqlite3_column_int64`, assigned to an unsigned variable. -/
def columnInt64 (i : Int) : UInt64 := (Int64.ofInt i).toUInt64

@[simp] theorem columnInt64_bindInt64 (x : UInt64) : columnInt64 (bindInt64 x) = x := by
  simp [columnInt64, bindInt64]

/-- A column within 64 bits is read as the bits of its value. -/
theorem bindInt64_columnInt64 {i : Int} (hlo : -9223372036854775808 ≤ i)
    (hhi : i < 9223372036854775808) : bindInt64 (columnInt64 i) = i := by
  simpa [bindInt64, columnInt64] using Int64.toInt_ofInt_of_le hlo hhi

/-- `sqlite3_column_int`. -/
def columnInt (i : Int) : Int32 := Int32.ofInt i

@[simp] theorem columnInt_toInt (x : Int32) : columnInt x.toInt = x := Int32.ofInt_toInt x

/-- Below `2^63` the column holds the number itself. -/
theorem bindInt64_of_lt {x : UInt64} (h : x.toNat < 2 ^ 63) : bindInt64 x = x.toNat := by
  rw [bindInt64, Int64.toInt, UInt64.toBitVec_toInt64, BitVec.toInt_eq_toNat_of_lt]
  · rfl
  · show 2 * x.toNat < 2 ^ 64
    omega

/-- A difference of two unsigned values, read as a signed one, is exact. -/
theorem bindInt64_sub {x y : UInt64} (hx : x.toNat < 2 ^ 63) (hy : y.toNat < 2 ^ 63) :
    bindInt64 (x - y) = (x.toNat : Int) - y.toNat := by
  have hsub : bindInt64 (x - y) = (x.toBitVec - y.toBitVec).toInt := rfl
  have hcol : ∀ z : UInt64, z.toNat < 2 ^ 63 → z.toBitVec.toInt = z.toNat :=
    fun z hz => bindInt64_of_lt hz
  rw [hsub, BitVec.toInt_sub, hcol x hx, hcol y hy]
  exact Int.bmod_eq_of_le_mul_two (by omega) (by omega)

/-! ## the connection -/

/-- The result of `sqlite3_exec`.  After `rolledBack` the statement has failed and the
open transaction, if there was one, has been rolled back with it. -/
inductive ExecRc where
  | ok
  | busy
  | error
  | rolledBack
deriving DecidableEq, Repr

/-- A connection: the stored content and the open transaction's content. -/
structure Conn (T : Type _) where
  stored : T
  txn : Option T := none
deriving DecidableEq

namespace Conn

/-- The content that the connection's own statements see. -/
def view (c : Conn T) : T := c.txn.getD c.stored

/-- `begin transaction`; refused inside a transaction. -/
def begin (rc : ExecRc) (c : Conn T) : ExecRc × Conn T :=
  match c.txn, rc with
  | none, .ok => (.ok, { c with txn := some c.stored })
  | none, rc => (rc, c)
  | some _, _ => (.error, c)

/-- A statement that changes the content. -/
def write (f : T → T) (c : Conn T) : Conn T :=
  match c.txn with
  | none => { c with stored := f c.stored }
  | some t => { c with txn := some (f t) }

/-- A statement that fails; `ends` if the transaction is rolled back with it. -/
def fail (ends : Bool) (c : Conn T) : Conn T := if ends then { c with txn := none } else c

/-- `end transaction`; refused outside a transaction, and without effect where it
fails and leaves the transaction open. -/
def commit (rc : ExecRc) (c : Conn T) : ExecRc × Conn T :=
  match c.txn, rc with
  | some t, .ok => (.ok, { stored := t, txn := none })
  | some _, .rolledBack => (.rolledBack, { c with txn := none })
  | some _, rc => (rc, c)
  | none, _ => (.error, c)

/-- `rollback transaction`. -/
def rollback (rc : ExecRc) (c : Conn T) : ExecRc × Conn T :=
  match c.txn, rc with
  | some _, .ok => (.ok, { c with txn := none })
  | some _, .rolledBack => (.rolledBack, { c with txn := none })
  | some _, rc => (rc, c)
  | none, _ => (.error, c)

@[simp] theorem begin_ok (t : T) : begin .ok { stored := t } = (.ok, ⟨t, some t⟩) := rfl

@[simp] theorem write_txn (f : T → T) (s t : T) : write f ⟨s, some t⟩ = ⟨s, some (f t)⟩ := rfl

@[simp] theorem commit_ok (s t : T) : commit .ok ⟨s, some t⟩ = (.ok, { stored := t }) := rfl

/-- No transaction is open after a rollback that ends it, or without one before. -/
theorem txn_rollback_eq_none {rc : ExecRc} {c : Conn T} :
    (c.rollback rc).2.txn = none ↔ c.txn = none ∨ rc = .ok ∨ rc = .rolledBack := by
  obtain ⟨stored, _ | txn⟩ := c <;> cases rc <;> simp [rollback]

/-- No transaction is left if there was none or SQLite has ended it. -/
theorem txn_fail_eq_none {ends : Bool} {c : Conn T} :
    (c.fail ends).txn = none ↔ c.txn = none ∨ ends = true := by
  cases ends <;> simp [fail]

@[simp] theorem stored_fail (ends : Bool) (c : Conn T) : (c.fail ends).stored = c.stored := by
  cases ends <;> rfl

@[simp] theorem stored_rollback (rc : ExecRc) (c : Conn T) : (rollback rc c).2.stored = c.stored := by
  obtain ⟨stored, _ | txn⟩ := c <;> cases rc <;> rfl

@[simp] theorem stored_begin (rc : ExecRc) (c : Conn T) : (c.begin rc).2.stored = c.stored := by
  obtain ⟨stored, _ | txn⟩ := c <;> cases rc <;> rfl

/-- Beginning changes nothing that a statement sees. -/
@[simp] theorem view_begin (rc : ExecRc) (c : Conn T) : (c.begin rc).2.view = c.view := by
  obtain ⟨stored, _ | txn⟩ := c <;> cases rc <;> rfl

/-- Outside a transaction are the statements whose begin was refused. -/
theorem txn_begin_eq_none {rc : ExecRc} {c : Conn T} :
    (c.begin rc).2.txn = none ↔ rc ≠ .ok ∧ c.txn = none := by
  obtain ⟨stored, _ | txn⟩ := c <;> cases rc <;> simp [begin]

@[simp] theorem view_write (f : T → T) (c : Conn T) : (c.write f).view = f c.view := by
  obtain ⟨stored, _ | txn⟩ := c <;> rfl

/-- What is seen after `end transaction`: what was seen before, or what is stored. -/
theorem view_commit (rc : ExecRc) (c : Conn T) :
    (c.commit rc).2.view = if rc = .rolledBack then c.stored else c.view := by
  obtain ⟨stored, _ | txn⟩ := c <;> cases rc <;> rfl

end Conn

/-! ## closing -/

/-- A connection as a resource: how many of its prepared statements are not
finalized. -/
structure Handle where
  stmts : Nat := 0
deriving DecidableEq, Repr

namespace Handle

/-- `sqlite3_prepare`, where it succeeds. -/
def prepare (h : Handle) : Handle := { h with stmts := h.stmts + 1 }

/-- `sqlite3_close`: busy, and the connection stays open, while a statement is not
finalized. -/
def close (h : Handle) : ExecRc × Option Handle :=
  if h.stmts = 0 then (.ok, none) else (.busy, some h)

/-- After any number of statements. -/
theorem stmts_iterate_prepare (n : Nat) (h : Handle) : (prepare^[n] h).stmts = h.stmts + n := by
  induction n generalizing h with
  | zero => rfl
  | succ n ih =>
      rw [Function.iterate_succ_apply, ih]
      simp only [prepare]
      omega

end Handle

/-! ## other connections -/

/-- What another connection does between two calls: it takes a shared lock, to read,
or gives its lock back. -/
inductive Reader where
  | takes
  | drops
deriving DecidableEq, Repr

/-- The shared locks that the other connections hold afterwards. -/
def sharedAfter (shared : Nat) : List Reader → Nat
  | [] => shared
  | .takes :: readers => sharedAfter (shared + 1) readers
  | .drops :: readers => sharedAfter (shared - 1) readers

/-- `end transaction` with a rollback journal: it is busy while another connection
reads. -/
def lockedRc (shared : Nat) (rc : ExecRc) : ExecRc := if shared = 0 then rc else .busy

/-- A commit is carried out if nobody reads, and nothing else is wrong. -/
theorem lockedRc_eq_ok {shared : Nat} {rc : ExecRc} :
    lockedRc shared rc = .ok ↔ shared = 0 ∧ rc = .ok := by
  unfold lockedRc
  split <;> simp_all

end Lite
