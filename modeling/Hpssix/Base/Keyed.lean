import Mathlib.Data.List.Nodup
import Mathlib.Data.List.Perm.Basic

/-!
# Base.Keyed

Steps that touch one key each.  Where a state is looked at through a view per key
and a step changes the view of its own key only, the view of a key depends on the
steps of that key and on their order, and on nothing else.

* `Touches.view_foldl` — the view of a key after any steps;
* `Touches.view_foldl_perm` — with one step per key, the order of the steps does not
  show.
-/

namespace Keyed

variable {σ ε κ ν : Type _} [DecidableEq κ]

/-- Every step changes the view of its key, as `upd` says, and no other. -/
structure Touches (view : σ → κ → ν) (key : ε → κ) (step : σ → ε → σ) (upd : ε → ν → ν) : Prop where
  self : ∀ s e, view (step s e) (key e) = upd e (view s (key e))
  other : ∀ s e k, k ≠ key e → view (step s e) k = view s k

variable {view : σ → κ → ν} {key : ε → κ} {step : σ → ε → σ} {upd : ε → ν → ν}

/-- What a key looks like after some steps is what its own steps make of it. -/
theorem Touches.view_foldl (h : Touches view key step upd) (s : σ) (es : List ε) (k : κ) :
    view (es.foldl step s) k =
      (es.filter fun e => key e = k).foldl (fun v e => upd e v) (view s k) := by
  induction es generalizing s with
  | nil => rfl
  | cons e es ih =>
      rw [List.foldl_cons, ih]
      by_cases hk : key e = k
      · subst hk
        rw [List.filter_cons_of_pos (by simp), List.foldl_cons, h.self]
      · rw [List.filter_cons_of_neg (by simpa using hk), h.other s e k (Ne.symm hk)]

/-- With distinct keys a key has one step at most. -/
theorem length_filter_le {es : List ε} (hnodup : (es.map key).Nodup) (k : κ) :
    (es.filter fun e => key e = k).length ≤ 1 := by
  rw [← List.countP_eq_length_filter]
  have hcount := List.nodup_iff_count_le_one.mp hnodup k
  rw [List.count, List.countP_map] at hcount
  rwa [List.countP_congr (q := fun e => key e = k) fun e _ => by simp] at hcount

/-- **Order does not show**: two orders of the same steps, one for each key, lead to the
same views. -/
theorem Touches.view_foldl_perm (h : Touches view key step upd) {es es' : List ε}
    (hperm : es.Perm es') (hnodup : (es.map key).Nodup) (s : σ) (k : κ) :
    view (es.foldl step s) k = view (es'.foldl step s) k := by
  have hfilter := hperm.filter fun e => key e = k
  have heq : (es.filter fun e => key e = k) = es'.filter fun e => key e = k := by
    have hlen := length_filter_le hnodup k
    cases hes : es.filter fun e => key e = k with
    | nil =>
        rw [hes] at hfilter
        exact (List.nil_perm.mp hfilter).symm
    | cons e rest =>
        rw [hes] at hfilter hlen
        obtain rfl : rest = [] := List.eq_nil_of_length_eq_zero (by simpa using hlen)
        exact (List.perm_singleton.mp hfilter.symm).symm
  rw [h.view_foldl, h.view_foldl, heq]

end Keyed
