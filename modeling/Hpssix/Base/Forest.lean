import Mathlib.Data.List.Basic
import Mathlib.Data.List.Nodup
import Mathlib.Data.List.Perm.Subperm
import Hpssix.Base.Rel

/-!
# Base.Forest

Trees kept as a table of rows that name their parent row, and the queries that
follow the parent links up to the root.

`IsChain t k c` says that `c` are the rows from key `k` up to a row whose
parent is the root; `chain` computes them.  In a well-formed table (`IsForest`)
every row has exactly one chain, whose length is at most the size of the table
(`IsChain.length_le`), so a recursive query that joins one parent a round is
finished after that many rounds (`perm_cteRows`).

The edits of such a table are adding a leaf, removing a leaf, and replacing a
row; each keeps the table a forest and keeps the chains that avoid the edited
key (`forest_append`, `forest_remove`, `forest_replace`).
-/

namespace Forest

open Rel

variable {ρ κ β : Type _} [DecidableEq κ] (id parent : ρ → κ) (root : κ)

/-! ## chains -/

/-- The rows from key `k` up to a child of the root. -/
inductive IsChain (t : List ρ) : κ → List ρ → Prop
  | top {r : ρ} (hr : r ∈ t) (hp : parent r = root) : IsChain t (id r) [r]
  | up {r : ρ} {c : List ρ} (hr : r ∈ t) (h : IsChain t (parent r) c) : IsChain t (id r) (r :: c)

/-- Follow the parent links for at most `fuel` rows. -/
def chain (t : List ρ) : Nat → κ → List ρ
  | 0, _ => []
  | fuel + 1, k =>
    match t.find? fun r => id r = k with
    | none => []
    | some r => r :: chain t fuel (parent r)

/-- A table whose rows form trees under the root. -/
structure IsForest (t : List ρ) : Prop where
  nodup : (t.map id).Nodup
  noRoot : root ∉ t.map id
  rooted : ∀ r ∈ t, ∃ c, IsChain id parent root t (id r) c

variable {id parent root} {t : List ρ} {k : κ} {c : List ρ}

omit [DecidableEq κ] in
/-- A chain, taken apart at its first row. -/
theorem isChain_iff : IsChain id parent root t k c ↔ ∃ r c', c = r :: c' ∧ r ∈ t ∧ id r = k ∧
    (parent r = root ∧ c' = [] ∨ IsChain id parent root t (parent r) c') := by
  constructor
  · intro h
    cases h with
    | top hr hp => exact ⟨_, _, rfl, hr, rfl, .inl ⟨hp, rfl⟩⟩
    | up hr hc => exact ⟨_, _, rfl, hr, rfl, .inr hc⟩
  · rintro ⟨r, c', rfl, hr, rfl, ⟨hp, rfl⟩ | hc⟩
    · exact .top hr hp
    · exact .up hr hc

omit [DecidableEq κ] in
/-- A chain has rows of the table. -/
theorem IsChain.mem (h : IsChain id parent root t k c) {r : ρ} (hr : r ∈ c) : r ∈ t := by
  induction h with
  | top ht _ => rw [List.mem_singleton.mp hr]; exact ht
  | up ht _ ih =>
      obtain rfl | hr := List.mem_cons.mp hr
      · exact ht
      · exact ih hr

omit [DecidableEq κ] in
/-- A chain starts with a row of its key. -/
theorem IsChain.head (h : IsChain id parent root t k c) : ∃ r ∈ t, id r = k ∧ r ∈ c := by
  cases h with
  | top ht _ => exact ⟨_, ht, rfl, List.mem_cons_self⟩
  | up ht _ => exact ⟨_, ht, rfl, List.mem_cons_self⟩

omit [DecidableEq κ] in
/-- A chain is not empty. -/
theorem IsChain.ne_nil (h : IsChain id parent root t k c) : c ≠ [] := by
  obtain ⟨r, _, _, hr⟩ := h.head
  exact List.ne_nil_of_mem hr

omit [DecidableEq κ] in
/-- The key at its bottom is in the table. -/
theorem IsChain.key_mem (h : IsChain id parent root t k c) : k ∈ t.map id := by
  obtain ⟨r, hr, rfl, _⟩ := h.head
  exact List.mem_map_of_mem hr

omit [DecidableEq κ] in
/-- A chain needs only its own rows. -/
theorem IsChain.congr {t' : List ρ} (h : IsChain id parent root t k c)
    (ht : ∀ r ∈ c, r ∈ t') : IsChain id parent root t' k c := by
  induction h with
  | top _ hp => exact .top (ht _ List.mem_cons_self) hp
  | up _ _ ih => exact .up (ht _ List.mem_cons_self) (ih fun r hr => ht r (List.mem_cons_of_mem _ hr))

omit [DecidableEq κ] in
/-- The rest of a chain from one of its rows on is that row's chain. -/
theorem IsChain.suffix (h : IsChain id parent root t k c) {r : ρ} (hr : r ∈ c) :
    ∃ c', IsChain id parent root t (id r) c' ∧ c' <:+ c := by
  induction h with
  | top ht hp =>
      rw [List.mem_singleton.mp hr]
      exact ⟨_, .top ht hp, List.suffix_refl _⟩
  | up ht hc ih =>
      obtain rfl | hr := List.mem_cons.mp hr
      · exact ⟨_, .up ht hc, List.suffix_refl _⟩
      · obtain ⟨c', hc', hs⟩ := ih hr
        exact ⟨c', hc', hs.trans (List.suffix_cons _ _)⟩

omit [DecidableEq κ] in
/-- A key above the start of a chain is the parent of one of its rows. -/
theorem IsChain.child_of_mem (h : IsChain id parent root t k c) {r : ρ} (hr : r ∈ c)
    (hne : id r ≠ k) : ∃ x ∈ t, parent x = id r := by
  induction h with
  | top _ _ => rw [List.mem_singleton.mp hr] at hne; exact absurd rfl hne
  | @up x c ht hc ih =>
      obtain rfl | hr := List.mem_cons.mp hr
      · exact absurd rfl hne
      · by_cases hp : id r = parent x
        · exact ⟨x, ht, hp.symm⟩
        · exact ih hr hp

section Unique
variable (hn : (t.map id).Nodup) (h0 : root ∉ t.map id)
include hn

omit [DecidableEq κ] in
/-- A key has one row. -/
theorem eq_of_id_eq {r s : ρ} (hr : r ∈ t) (hs : s ∈ t) (h : id r = id s) : r = s :=
  List.inj_on_of_nodup_map hn hr hs h

include h0

omit [DecidableEq κ] in
/-- A key has one chain. -/
theorem IsChain.unique {c' : List ρ} (h : IsChain id parent root t k c)
    (h' : IsChain id parent root t k c') : c = c' := by
  induction h generalizing c' with
  | @top r hr hp =>
      generalize hk : id r = k at h'
      cases h' with
      | top hs _ => rw [eq_of_id_eq hn hr hs hk]
      | up hs hc =>
          rw [← eq_of_id_eq hn hr hs hk, hp] at hc
          exact absurd hc.key_mem h0
  | @up r c hr hc ih =>
      generalize hk : id r = k at h'
      cases h' with
      | top hs hp =>
          rw [← eq_of_id_eq hn hr hs hk] at hp
          rw [hp] at hc
          exact absurd hc.key_mem h0
      | up hs hc' =>
          have hrs := eq_of_id_eq hn hr hs hk
          subst hrs
          rw [ih hc']

omit [DecidableEq κ] in
/-- No row is in a chain twice. -/
theorem IsChain.nodup (h : IsChain id parent root t k c) : (c.map id).Nodup := by
  induction h with
  | top _ _ => simp
  | @up r c hr hc ih =>
      refine List.nodup_cons.mpr ⟨fun hmem => ?_, ih⟩
      obtain ⟨s, hs, hsr⟩ := List.mem_map.mp hmem
      obtain ⟨c', hc', hsuf⟩ := hc.suffix hs
      rw [hsr] at hc'
      have heq := IsChain.unique hn h0 hc' (.up hr hc)
      have hlen := hsuf.length_le
      rw [heq, List.length_cons] at hlen
      omega

omit [DecidableEq κ] in
/-- A chain is at most as long as the table. -/
theorem IsChain.length_le (h : IsChain id parent root t k c) : c.length ≤ t.length := by
  have hsub : c.map id ⊆ t.map id := List.map_subset id fun r hr => h.mem hr
  simpa using ((IsChain.nodup hn h0 h).subperm hsub).length_le

/-- The search finds the chain if its fuel is enough. -/
theorem chain_eq (h : IsChain id parent root t k c) {fuel : Nat} (hf : c.length ≤ fuel) :
    chain id parent t fuel k = c := by
  induction h generalizing fuel with
  | @top r hr hp =>
      obtain ⟨n, rfl⟩ : ∃ n, fuel = n + 1 := ⟨fuel - 1, by simp at hf; omega⟩
      have hend : chain id parent t n root = [] := by
        cases n with
        | zero => rfl
        | succ n =>
            have : t.find? (fun x => id x = root) = none := by
              rw [List.find?_eq_none]
              intro x hx
              simpa using fun he : id x = root => h0 (he ▸ List.mem_map_of_mem hx)
            simp [chain, this]
      simp [chain, find?_eq_some_of_nodup hn hr, hp, hend]
  | @up r c hr hc ih =>
      obtain ⟨n, rfl⟩ : ∃ n, fuel = n + 1 := ⟨fuel - 1, by simp at hf; omega⟩
      have hrest : chain id parent t n (parent r) = c := ih (by simpa using hf)
      simp [chain, find?_eq_some_of_nodup hn hr, hrest]

end Unique

variable (hf : IsForest id parent root t)
include hf

/-- The chain of a key, computed with the table's size as fuel. -/
theorem IsForest.isChain (hk : k ∈ t.map id) :
    IsChain id parent root t k (chain id parent t t.length k) := by
  obtain ⟨r, hr, rfl⟩ := List.mem_map.mp hk
  obtain ⟨c, hc⟩ := hf.rooted r hr
  rw [chain_eq hf.nodup hf.noRoot hc (hc.length_le hf.nodup hf.noRoot)]
  exact hc

/-- The length of the table is enough. -/
theorem IsForest.chain_eq (h : IsChain id parent root t k c) :
    chain id parent t t.length k = c :=
  h.unique hf.nodup hf.noRoot (hf.isChain h.key_mem) |>.symm

omit hf

/-! ## edits -/

/-- A new leaf. -/
theorem forest_append (hf : IsForest id parent root t) {r : ρ} (hnew : id r ∉ t.map id)
    (hne : id r ≠ root) (hp : parent r = root ∨ parent r ∈ t.map id) :
    IsForest id parent root (t ++ [r]) where
  nodup := by
    rw [List.map_append, List.nodup_append]
    refine ⟨hf.nodup, List.nodup_singleton _, fun a ha b hb => ?_⟩
    rw [List.map_singleton, List.mem_singleton] at hb
    exact fun hab => hnew (hb ▸ hab ▸ ha)
  noRoot := by simpa using ⟨by simpa using hf.noRoot, hne.symm⟩
  rooted := by
    have hold : ∀ k c, IsChain id parent root t k c → IsChain id parent root (t ++ [r]) k c :=
      fun k c h => h.congr fun x hx => List.mem_append_left _ (h.mem hx)
    intro x hx
    obtain hx | hx := List.mem_append.mp hx
    · obtain ⟨c, hc⟩ := hf.rooted x hx
      exact ⟨c, hold _ c hc⟩
    · rw [List.mem_singleton.mp hx]
      have hr : r ∈ t ++ [r] := List.mem_append_right _ (List.mem_singleton.mpr rfl)
      obtain hroot | hmem := hp
      · exact ⟨[r], .top hr hroot⟩
      · exact ⟨_, .up hr (hold _ _ (hf.isChain hmem))⟩

/-- A chain that does not start at a removed leaf does not pass through it. -/
theorem IsChain.remove (h : IsChain id parent root t k c) {l : κ}
    (hleaf : ∀ r ∈ t, parent r ≠ l) (hne : k ≠ l) :
    IsChain id parent root (t.filter fun r => id r ≠ l) k c := by
  refine h.congr fun r hr => List.mem_filter.mpr ⟨h.mem hr, ?_⟩
  by_cases hk : id r = k
  · simpa [hk] using hne
  · obtain ⟨x, hx, hxp⟩ := h.child_of_mem hr hk
    simpa using fun hl : id r = l => hleaf x hx (hxp.trans hl)

/-- A leaf removed. -/
theorem forest_remove (hf : IsForest id parent root t) {l : κ}
    (hleaf : ∀ r ∈ t, parent r ≠ l) : IsForest id parent root (t.filter fun r => id r ≠ l) where
  nodup := hf.nodup.sublist (List.filter_sublist.map id)
  noRoot := fun h => hf.noRoot ((List.filter_sublist.map id).subset h)
  rooted := by
    intro r hr
    obtain ⟨hrt, hrl⟩ := List.mem_filter.mp hr
    obtain ⟨c, hc⟩ := hf.rooted r hrt
    exact ⟨c, hc.remove hleaf (by simpa using hrl)⟩

/-- The row of key `k` changed by `g`. -/
def updateRow (id : ρ → κ) (k : κ) (g : ρ → ρ) (t : List ρ) : List ρ :=
  t.map fun r => if id r = k then g r else r

section Update
variable {g : ρ → ρ} (hg : ∀ x, id (g x) = id x)
include hg

/-- An update of a row keeps the keys. -/
theorem map_id_updateRow : (updateRow id k g t).map id = t.map id := by
  refine map_key_map id (fun r => ?_) t
  split <;> simp [hg]

omit hg in
/-- The other rows stay. -/
theorem mem_updateRow_of_ne {r : ρ} (hr : r ∈ t) (hne : id r ≠ k) : r ∈ updateRow id k g t :=
  List.mem_map.mpr ⟨r, hr, if_neg hne⟩

omit hg in
/-- A chain without the changed key stays. -/
theorem IsChain.update {l : κ} (h : IsChain id parent root t k c) (hl : l ∉ c.map id) :
    IsChain id parent root (updateRow id l g t) k c :=
  h.congr fun _ hr =>
    mem_updateRow_of_ne (h.mem hr) fun he => hl (he ▸ List.mem_map_of_mem hr)

/-- A change that keeps the parent links acts on each row of a chain. -/
theorem IsChain.map_update (hpar : ∀ r, parent (g r) = parent r) {l : κ}
    (h : IsChain id parent root t k c) :
    IsChain id parent root (updateRow id l g t) k (updateRow id l g c) := by
  have hid : ∀ r : ρ, id (if id r = l then g r else r) = id r := fun r => by split <;> simp [hg]
  have hpr : ∀ r : ρ, parent (if id r = l then g r else r) = parent r := fun r => by
    split <;> simp [hpar]
  induction h with
  | @top r hr hp =>
      rw [← hid r]
      exact .top (List.mem_map_of_mem hr) ((hpr r).trans hp)
  | @up r c hr hc ih =>
      rw [← hid r]
      rw [← hpr r] at ih
      exact .up (List.mem_map_of_mem hr) ih

/-- A row moved to a place that is not below itself. -/
theorem forest_update (hf : IsForest id parent root t)
    (hp : ∀ r ∈ t, id r = k → parent (g r) = root ∨
      ∃ c, IsChain id parent root t (parent (g r)) c ∧ k ∉ c.map id) :
    IsForest id parent root (updateRow id k g t) where
  nodup := by rw [map_id_updateRow hg]; exact hf.nodup
  noRoot := by rw [map_id_updateRow hg]; exact hf.noRoot
  rooted := by
    have hself : ∀ r ∈ t, id r = k → ∃ c, IsChain id parent root (updateRow id k g t) k c := by
      intro r hr hk
      have hgr : g r ∈ updateRow id k g t := List.mem_map.mpr ⟨r, hr, if_pos hk⟩
      have hid : id (g r) = k := (hg r).trans hk
      obtain hroot | ⟨c, hc, hkc⟩ := hp r hr hk
      · exact ⟨[g r], isChain_iff.mpr ⟨_, _, rfl, hgr, hid, .inl ⟨hroot, rfl⟩⟩⟩
      · exact ⟨g r :: c, isChain_iff.mpr ⟨_, _, rfl, hgr, hid, .inr (hc.update hkc)⟩⟩
    have hall : ∀ k' c, IsChain id parent root t k' c →
        ∃ c', IsChain id parent root (updateRow id k g t) k' c' := by
      intro k' c h
      induction h with
      | @top r hr hpr =>
          by_cases hk : id r = k
          · rw [hk]; exact hself r hr hk
          · exact ⟨_, .top (mem_updateRow_of_ne hr hk) hpr⟩
      | @up r c hr hc ih =>
          by_cases hk : id r = k
          · rw [hk]; exact hself r hr hk
          · obtain ⟨c', hc'⟩ := ih
            exact ⟨_, .up (mem_updateRow_of_ne hr hk) hc'⟩
    intro r hr
    obtain ⟨x, hx, rfl⟩ := List.mem_map.mp hr
    obtain ⟨c, hc⟩ := hf.rooted x hx
    have hid : id (if id x = k then g x else x) = id x := by split <;> simp [hg]
    rw [hid]
    exact hall _ c hc

end Update

/-! ## the recursive query -/

/-- A row of the recursive query: where it started, where it is now, and what
it has collected. -/
structure CteRow (ρ β : Type _) where
  leaf : ρ
  row : ρ
  acc : β

/-- One round: join every row with its parent. -/
def cteStep (id parent : ρ → κ) (f : ρ → β → β) (t : List ρ) (s : List (CteRow ρ β)) :
    List (CteRow ρ β) :=
  s.flatMap fun p => (rowsAt id (parent p.row) t).map fun n =>
    { p with row := n, acc := f n p.acc }

/-- `base UNION ALL recursive step`, for `fuel` rounds. -/
def cteRows (id parent : ρ → κ) (f : ρ → β → β) (t : List ρ) :
    Nat → List (CteRow ρ β) → List (CteRow ρ β)
  | 0, s => s
  | fuel + 1, s => s ++ cteRows id parent f t fuel (cteStep id parent f t s)

variable {f : ρ → β → β}

@[simp] theorem cteRows_nil (fuel : Nat) : cteRows id parent f t fuel [] = [] := by
  induction fuel with
  | zero => rfl
  | succ n ih => simpa [cteRows, cteStep] using ih

/-- The rows that come from two sets of starting rows. -/
theorem perm_cteRows_append (fuel : Nat) (a b : List (CteRow ρ β)) :
    (cteRows id parent f t fuel (a ++ b)).Perm
      (cteRows id parent f t fuel a ++ cteRows id parent f t fuel b) := by
  induction fuel generalizing a b with
  | zero => exact List.Perm.refl _
  | succ n ih =>
      have hstep : cteStep id parent f t (a ++ b) =
          cteStep id parent f t a ++ cteStep id parent f t b := List.flatMap_append
      simp only [cteRows, hstep]
      refine ((ih _ _).append_left _).trans ?_
      simp only [List.append_assoc]
      refine List.Perm.append_left a ?_
      rw [← List.append_assoc, ← List.append_assoc]
      exact List.Perm.append_right _ List.perm_append_comm

/-- What a finished row of the query says of its starting row. -/
def collected (q : CteRow ρ β) : ρ × β := (q.leaf, q.acc)

variable (hf : IsForest id parent root t)
include hf

/-- From one row the query ends in exactly one row at the root, with the whole
chain collected. -/
theorem filter_cteRows_singleton {p : CteRow ρ β}
    (h : (parent p.row = root ∧ c = []) ∨ IsChain id parent root t (parent p.row) c) {n : Nat}
    (hlen : c.length ≤ n) :
    ((cteRows id parent f t n [p]).filter fun q => parent q.row = root).map collected =
      [(p.leaf, c.foldl (fun x n => f n x) p.acc)] := by
  induction c generalizing p n with
  | nil =>
      have hp : parent p.row = root := by
        obtain h | h := h
        · exact h.1
        · exact absurd rfl h.ne_nil
      have hstep : cteStep id parent f t [p] = [] := by
        simp [cteStep, hp, (rowsAt_eq_nil id).mpr hf.noRoot]
      cases n with
      | zero => simp [cteRows, hp, collected]
      | succ n => simp [cteRows, hstep, hp, collected]
  | cons r c ih =>
      have hchain : IsChain id parent root t (parent p.row) (r :: c) := by
        obtain h | h := h
        · exact absurd h.2 (List.cons_ne_nil r c)
        · exact h
      have hne : parent p.row ≠ root := fun he => hf.noRoot (he ▸ hchain.key_mem)
      obtain ⟨m, rfl⟩ : ∃ m, n = m + 1 := ⟨n - 1, by simp at hlen; omega⟩
      obtain ⟨r', c', heq, hr, hid, hrest⟩ := isChain_iff.mp hchain
      obtain ⟨rfl, rfl⟩ := List.cons.inj heq
      have hstep : cteStep id parent f t [p] = [{ p with row := r, acc := f r p.acc }] := by
        simp [cteStep, ← hid, rowsAt_of_nodup id hf.nodup hr]
      rw [cteRows, hstep, List.filter_append, List.map_append]
      rw [ih (p := { p with row := r, acc := f r p.acc }) hrest (n := m) (by simpa using hlen)]
      simp [hne]

/-- **The recursive query**: started from rows of the table and run for as many
rounds as the table has rows, it ends with one row at the root for each starting
row, with that row's chain collected. -/
theorem perm_cteRows {b : β} {s : List ρ} (hs : ∀ r ∈ s, r ∈ t) :
    (((cteRows id parent f t t.length (s.map fun r => ⟨r, r, f r b⟩)).filter
      fun q => parent q.row = root).map collected).Perm
      (s.map fun r => (r, (chain id parent t t.length (id r)).foldl (fun x n => f n x) b)) := by
  induction s with
  | nil => simp
  | cons r s ih =>
      have hr := hs r List.mem_cons_self
      obtain ⟨r', c, heq, hr', hid, hrest⟩ := isChain_iff.mp (hf.isChain (List.mem_map_of_mem hr))
      have hrr := eq_of_id_eq hf.nodup hr' hr hid
      subst hrr
      have hlen : c.length ≤ t.length := by
        have := (hf.isChain (List.mem_map_of_mem hr)).length_le hf.nodup hf.noRoot
        rw [heq, List.length_cons] at this
        omega
      have hone := filter_cteRows_singleton hf (f := f) (p := ⟨r', r', f r' b⟩) hrest hlen
      rw [List.map_cons, ← List.singleton_append]
      refine (((perm_cteRows_append t.length _ _).filter _).map _).trans ?_
      rw [List.filter_append, List.map_append, hone, List.map_cons, heq, List.foldl_cons]
      exact List.Perm.cons _ (ih fun x hx => hs x (List.mem_cons_of_mem _ hx))

end Forest
