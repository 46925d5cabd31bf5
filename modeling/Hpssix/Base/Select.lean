import Hpssix.Base.CText
import Mathlib.Data.Rat.Defs

/-!
# Base.Select

`SELECT` statements of SQL over rows that are joined and filtered: columns of every
row, or one `COUNT` of all rows, with `ORDER BY` and `LIMIT`.

An aggregate without `GROUP BY` makes one row of all; no column of the rows is left
that the result could be ordered by.  The order of rows with equal keys is not
determined, so that a statement has many results (`Select.Returns`).

* `Select.count_returns_iff` — when the number of rows can be counted.
-/

namespace Sql

open CText

/-- `NATURAL JOIN` of tables that have one column in common. -/
def naturalJoin {α β κ : Type _} [DecidableEq κ] (key : α → κ) (key' : β → κ) (l : List α)
    (l' : List β) : List (α × β) :=
  l.flatMap fun a => (l'.filter fun b => key a = key' b).map fun b => (a, b)

theorem mem_naturalJoin {α β κ : Type _} [DecidableEq κ] {key : α → κ} {key' : β → κ} {l : List α}
    {l' : List β} {p : α × β} :
    p ∈ naturalJoin key key' l l' ↔ p.1 ∈ l ∧ p.2 ∈ l' ∧ key p.1 = key' p.2 := by
  obtain ⟨a, b⟩ := p
  simp only [naturalJoin, List.mem_flatMap, List.mem_map, List.mem_filter, decide_eq_true_eq,
    Prod.mk.injEq]
  constructor
  · rintro ⟨_, ha, _, ⟨hb, hkey⟩, rfl, rfl⟩
    exact ⟨ha, hb, hkey⟩
  · rintro ⟨ha, hb, hkey⟩
    exact ⟨a, ha, b, ⟨hb, hkey⟩, rfl, rfl⟩

/-- A key matches at most one row of a table in which keys are unique. -/
theorem length_filter_key_le_one {β κ : Type _} [DecidableEq κ] {key' : β → κ} {l' : List β}
    (hn : (l'.map key').Nodup) (k : κ) : (l'.filter fun b => k = key' b).length ≤ 1 := by
  induction l' with
  | nil => exact Nat.zero_le 1
  | cons b l' ih =>
      rw [List.map_cons, List.nodup_cons] at hn
      by_cases hk : k = key' b
      · have hnil : (l'.filter fun b => k = key' b) = [] := by
          refine List.filter_eq_nil_iff.mpr fun c hc => ?_
          have hne : k ≠ key' c := fun hc' => hn.1 (hk ▸ hc' ▸ List.mem_map_of_mem hc)
          simpa using hne
        rw [List.filter_cons_of_pos (by simpa using hk), hnil]
        exact Nat.le_refl 1
      · rw [List.filter_cons_of_neg (by simpa using hk)]
        exact ih hn.2

/-- Joined with such a table, the rows on the left stay as many or become fewer. -/
theorem naturalJoin_keys_sublist {α β κ : Type _} [DecidableEq κ] {key : α → κ} {key' : β → κ}
    {l' : List β} (hn : (l'.map key').Nodup) (l : List α) :
    ((naturalJoin key key' l l').map Prod.fst).Sublist l := by
  induction l with
  | nil => exact List.Sublist.refl []
  | cons a l ih =>
      have hle := length_filter_key_le_one hn (key a)
      have hone : ((l'.filter fun b => key a = key' b).map fun _ => a).Sublist [a] := by
        cases hmatch : l'.filter fun b => key a = key' b with
        | nil => exact List.nil_sublist [a]
        | cons b rest =>
            rw [hmatch, List.length_cons] at hle
            obtain rfl : rest = [] := List.eq_nil_of_length_eq_zero (by omega)
            exact List.Sublist.refl [a]
      rw [naturalJoin, List.flatMap_cons, List.map_append, List.map_map]
      exact hone.append ih

/-- What is selected: cells of every row, or the number of rows with a value. -/
inductive Target (ρ : Type _) where
  | cells (f : ρ → List Text)
  | count (f : ρ → Option Text)

/-- `ORDER BY` an expression, in descending order, with the columns that the
expression mentions. -/
structure OrderBy (ρ : Type _) where
  columns : List Text
  key : ρ → Rat

/-- A statement over rows. -/
structure Select (ρ : Type _) where
  rows : List ρ
  target : Target ρ
  order : Option (OrderBy ρ) := none
  limit : Option Nat := none

namespace Select
variable {ρ : Type _}

/-- The first rows of a result. -/
def limited (s : Select ρ) (l : List (List Text)) : List (List Text) := s.limit.elim l l.take

/-- A result of the statement.  With an aggregate it is refused if its order mentions
a column. -/
def Returns (s : Select ρ) (out : List (List Text)) : Prop :=
  match s.target with
  | .cells f => ∃ rows : List ρ, rows.Perm s.rows ∧
      (∀ o ∈ s.order, rows.Pairwise fun a b => o.key b ≤ o.key a) ∧ out = s.limited (rows.map f)
  | .count f => (∀ o ∈ s.order, o.columns = []) ∧
      out = s.limited [[decimal (s.rows.filterMap f).length]]

/-- **Counting**: where a statement without limit returns rows, the same statement with
an aggregate over a column without NULL returns their number, exactly if its order
mentions no column. -/
theorem count_returns_iff {s : Select ρ} {f : ρ → List Text} {g : ρ → Option Text}
    {out : List (List Text)} (hcells : s.target = .cells f) (hlimit : s.limit = none)
    (hg : ∀ r ∈ s.rows, (g r).isSome) (h : s.Returns out) :
    (∀ res, { s with target := .count g }.Returns res ↔ res = [[decimal out.length]]) ↔
      ∀ o ∈ s.order, o.columns = [] := by
  have hout : out.length = s.rows.length := by
    unfold Returns at h
    rw [hcells] at h
    obtain ⟨rows, hperm, -, rfl⟩ := h
    rw [limited, hlimit, Option.elim_none, List.length_map, hperm.length_eq]
  have hcount : (s.rows.filterMap g).length = s.rows.length := by
    rw [List.length_filterMap_eq_countP]
    exact List.countP_eq_length.mpr hg
  have hreturns : ∀ res, { s with target := .count g }.Returns res ↔
      (∀ o ∈ s.order, o.columns = []) ∧ res = [[decimal out.length]] := by
    intro res
    show _ ∧ res = s.limit.elim _ _ ↔ _
    rw [hlimit, Option.elim_none, hcount, hout]
  simp only [hreturns]
  constructor
  · intro hall
    exact ((hall _).mpr rfl).1
  · intro horder res
    exact and_iff_right horder

end Select

end Sql
