import Mathlib.Logic.Function.Basic

/-!
# Base.FileTree

Files and directories below a base directory, with the two calls that a program makes to
have a directory there: `stat` and `mkdir`.

A path is the list of its names, innermost first, so that the directory it is in is its tail.

* `stat_eq_ok_iff` — what `stat` finds is what is there;
* `mkdir_eq_ok_iff` — `mkdir` succeeds exactly if nothing is there and the directory it is
  made in is one.
-/

namespace FileTree

inductive Kind where
  | dir
  | file
deriving DecidableEq

/-- Why a call fails; the names are those of `errno`. -/
inductive Errno where
  | enoent
  | eexist
  | enotdir
  | other (code : Nat)
deriving DecidableEq

/-- What is at the paths, and why the base directory cannot be looked up or made, if it
cannot. -/
structure DirTree (α : Type _) where
  node : List α → Option Kind
  base : Option Errno := none

variable {α : Type _}

namespace DirTree

/-- `stat`. -/
def stat (t : DirTree α) : List α → Except Errno Kind
  | [] =>
    match t.node [] with
    | some k => .ok k
    | none => .error (t.base.getD .enoent)
  | c :: p =>
    match t.node (c :: p) with
    | some k => .ok k
    | none =>
      match t.stat p with
      | .ok .dir => .error .enoent
      | .ok .file => .error .enotdir
      | .error e => .error e

/-- The directory that a path is in is there. -/
def Room (t : DirTree α) : List α → Prop
  | [] => t.base = none
  | _ :: p => t.node p = some .dir

/-- Nothing goes away or is replaced. -/
structure Grows (t t' : DirTree α) : Prop where
  base : t'.base = t.base
  node : ∀ p k, t.node p = some k → t'.node p = some k

theorem Grows.refl (t : DirTree α) : Grows t t := ⟨rfl, fun _ _ h => h⟩

theorem Grows.room {t t' : DirTree α} (h : Grows t t') {p : List α} (hp : t.Room p) : t'.Room p := by
  cases p with
  | nil => exact h.base.trans hp
  | cons c p => exact h.node p .dir hp

section Stat
variable {t : DirTree α} {p : List α} {k : Kind}

theorem stat_eq_ok_iff : t.stat p = .ok k ↔ t.node p = some k := by
  cases p with
  | nil =>
      unfold stat
      cases t.node [] with
      | none => simp
      | some k' => simp
  | cons c p =>
      unfold stat
      cases t.node (c :: p) with
      | none =>
          cases t.stat p with
          | error e => simp
          | ok k' => cases k' <;> simp
      | some k' => simp

theorem node_eq_none_of_stat {e : Errno} (h : t.stat p = .error e) : t.node p = none := by
  cases hn : t.node p with
  | none => rfl
  | some k => exact absurd (h.symm.trans (stat_eq_ok_iff.mpr hn)) (by simp)

/-- Where a path could be made, a `stat` that finds nothing says so. -/
theorem stat_of_room (hroom : t.Room p) (hnone : t.node p = none) : t.stat p = .error .enoent := by
  cases p with
  | nil =>
      have hbase : t.base = none := hroom
      simp [stat, hnone, hbase]
  | cons c p =>
      have hdir : t.stat p = .ok .dir := stat_eq_ok_iff.mpr hroom
      simp [stat, hnone, hdir]

/-- Where no file is in the way, a `stat` fails only because something is missing. -/
theorem eq_enoent_of_stat {e : Errno} (hbase : t.base = none)
    (hfile : ∀ q, q <:+ p → t.node q ≠ some .file) (h : t.stat p = .error e) : e = .enoent := by
  induction p generalizing e with
  | nil =>
      have hnone := node_eq_none_of_stat h
      simp only [stat, hnone, hbase, Option.getD_none, Except.error.injEq] at h
      exact h.symm
  | cons c p ih =>
      have hnone := node_eq_none_of_stat h
      have hin : ∀ q, q <:+ p → t.node q ≠ some .file := fun q hq =>
        hfile q (hq.trans (List.suffix_cons c p))
      cases hs : t.stat p with
      | error e' =>
          simp only [stat, hnone, hs, Except.error.injEq] at h
          exact h ▸ ih hin hs
      | ok k =>
          cases k with
          | dir =>
              simp only [stat, hnone, hs, Except.error.injEq] at h
              exact h.symm
          | file => exact absurd (stat_eq_ok_iff.mp hs) (hin p List.suffix_rfl)

end Stat

/-! ## making directories -/

variable [DecidableEq α]

/-- The tree with a directory more. -/
def add (t : DirTree α) (p : List α) : DirTree α :=
  { t with node := Function.update t.node p (some .dir) }

/-- `mkdir`. -/
def mkdir (t : DirTree α) (p : List α) : Except Errno (DirTree α) :=
  match t.node p with
  | some _ => .error .eexist
  | none =>
    match p with
    | [] => t.base.elim (.ok (t.add p)) .error
    | _ :: q =>
      match t.stat q with
      | .ok .dir => .ok (t.add p)
      | .ok .file => .error .enotdir
      | .error e => .error e

section Mkdir
variable {t t' : DirTree α} {p q : List α}

theorem node_add : (t.add p).node = Function.update t.node p (some .dir) := rfl

theorem node_add_self : (t.add p).node p = some .dir := Function.update_self ..

theorem grows_add (hnone : t.node p = none) : Grows t (t.add p) where
  base := rfl
  node q k hq := by
    rw [node_add, Function.update_of_ne]
    · exact hq
    · rintro rfl
      simp [hnone] at hq

/-- Only directories are added. -/
theorem node_add_ne_file (h : t.node q ≠ some .file) : (t.add p).node q ≠ some .file := by
  by_cases hqp : q = p
  · subst hqp
    rw [node_add_self]
    simp
  · rwa [node_add, Function.update_of_ne hqp]

theorem mkdir_eq_ok_iff : t.mkdir p = .ok t' ↔ t.node p = none ∧ t.Room p ∧ t.add p = t' := by
  unfold mkdir
  cases hn : t.node p with
  | some k => simp
  | none =>
      cases p with
      | nil =>
          cases hb : t.base with
          | none => simp [Room, hb]
          | some e => simp [Room, hb]
      | cons c q =>
          have hroom : t.Room (c :: q) ↔ t.stat q = .ok .dir := stat_eq_ok_iff.symm
          rw [hroom]
          match hs : t.stat q with
          | .error e => simp [hs]
          | .ok .dir => simp [hs]
          | .ok .file => simp [hs]

/-- Where a path could be made, `mkdir` fails only on what is there. -/
theorem mkdir_of_room (hroom : t.Room p) :
    t.mkdir p = if t.node p = none then .ok (t.add p) else .error .eexist := by
  split
  · next hnone => exact mkdir_eq_ok_iff.mpr ⟨hnone, hroom, rfl⟩
  · next hsome =>
      obtain ⟨k, hk⟩ := Option.ne_none_iff_exists'.mp hsome
      simp [mkdir, hk]

end Mkdir

end DirTree

end FileTree
