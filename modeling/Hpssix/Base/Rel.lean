import Mathlib.Data.List.Sort
import Mathlib.Order.Basic

/-!
# Base.Rel

SQL tables as lists of rows, and the few table operations that incremental
loaders are made of: `ORDER BY`, `LIMIT offset, count`, and the
"`UPDATE … FROM` inside a CTE, then `INSERT` what did not match" upsert.

Everything a statement does to a table is described key by key:
`rowsAt key k t` are the rows of `t` with key `k`, and each operation has
one lemma that says what it does to them.  Uniqueness of keys is the
statement that `rowsAt` never holds two rows.
-/

namespace Rel

variable {ρ τ κ : Type _}

/-! ## rows by key -/

section Keyed
variable [DecidableEq κ] (key : ρ → κ)

/-- The rows of a table that have the key `k`. -/
def rowsAt (k : κ) (t : List ρ) : List ρ := t.filter fun r => key r = k

@[simp] theorem rowsAt_nil (k : κ) : rowsAt key k [] = [] := rfl

theorem rowsAt_cons (k : κ) (r : ρ) (t : List ρ) :
    rowsAt key k (r :: t) = if key r = k then r :: rowsAt key k t else rowsAt key k t := by
  simp [rowsAt, List.filter_cons]

@[simp] theorem rowsAt_append (k : κ) (s t : List ρ) :
    rowsAt key k (s ++ t) = rowsAt key k s ++ rowsAt key k t :=
  List.filter_append ..

@[simp] theorem mem_rowsAt {k : κ} {r : ρ} {t : List ρ} :
    r ∈ rowsAt key k t ↔ r ∈ t ∧ key r = k := by
  simp [rowsAt]

/-- There are no rows with a key that no row has. -/
theorem rowsAt_eq_nil {k : κ} {t : List ρ} : rowsAt key k t = [] ↔ k ∉ t.map key := by
  simp [rowsAt, List.filter_eq_nil_iff, List.mem_map]

/-- A change of rows that leaves the keys alone acts on each key's rows. -/
theorem rowsAt_map {f : ρ → ρ} (hf : ∀ r, key (f r) = key r) (k : κ) (t : List ρ) :
    rowsAt key k (t.map f) = (rowsAt key k t).map f := by
  induction t with
  | nil => rfl
  | cons r t ih => simp only [List.map_cons, rowsAt_cons, hf, ih]; split <;> rfl

/-- `DELETE … WHERE key IN ks`. -/
theorem rowsAt_delete (ks : List κ) (k : κ) (t : List ρ) :
    rowsAt key k (t.filter fun r => key r ∉ ks) = if k ∈ ks then [] else rowsAt key k t := by
  split
  · next h =>
      rw [rowsAt_eq_nil]
      intro hk
      obtain ⟨r, hr, rfl⟩ := List.mem_map.mp hk
      simpa [h] using (List.mem_filter.mp hr).2
  · next h =>
      rw [rowsAt, rowsAt, List.filter_filter]
      refine List.filter_congr fun r _ => ?_
      by_cases hr : key r = k
      · simp [hr, h]
      · simp [hr]

/-- A deleted key is not looked up any more. -/
theorem find?_delete_self (k : κ) (t : List ρ) :
    (t.filter fun r => key r ≠ k).find? (fun r => key r = k) = none := by
  refine List.find?_eq_none.mpr fun r hr => ?_
  simpa using (List.mem_filter.mp hr).2

/-- The other keys are looked up as before. -/
theorem find?_delete_of_ne {k k' : κ} (h : k' ≠ k) (t : List ρ) :
    (t.filter fun r => key r ≠ k).find? (fun r => key r = k') = t.find? fun r => key r = k' := by
  have hiff : ∀ r, (key r ≠ k ∧ key r = k') ↔ key r = k' := fun r =>
    and_iff_right_of_imp fun hr => hr ▸ h
  rw [List.find?_filter]
  simp [hiff]

omit [DecidableEq κ] in
/-- A change that keeps the key of each row keeps the keys. -/
theorem map_key_map {f : ρ → ρ} (hf : ∀ r, key (f r) = key r) (t : List ρ) :
    (t.map f).map key = t.map key := by
  simp [List.map_map, Function.comp_def, hf]

/-- With unique keys there is at most one row for a key. -/
theorem rowsAt_of_nodup {t : List ρ} (h : (t.map key).Nodup) {r : ρ} (hr : r ∈ t) :
    rowsAt key (key r) t = [r] := by
  induction t with
  | nil => contradiction
  | cons x t ih =>
      rw [List.map_cons, List.nodup_cons] at h
      rw [rowsAt_cons]
      rcases List.mem_cons.mp hr with rfl | hr
      · rw [if_pos rfl, (rowsAt_eq_nil key).mpr h.1]
      · have hne : key x ≠ key r := fun he => h.1 (he ▸ List.mem_map_of_mem hr)
        rw [if_neg hne, ih h.2 hr]

/-- Where keys are distinct, there is one row with a key or none. -/
theorem rowsAt_eq_nil_or_singleton {t : List ρ} (h : (t.map key).Nodup) (k : κ) :
    rowsAt key k t = [] ∨ ∃ r ∈ t, key r = k ∧ rowsAt key k t = [r] := by
  by_cases hk : k ∈ t.map key
  · obtain ⟨r, hr, rfl⟩ := List.mem_map.mp hk
    exact .inr ⟨r, hr, rfl, rowsAt_of_nodup key h hr⟩
  · exact .inl ((rowsAt_eq_nil key).mpr hk)

/-- A table is determined by its rows at each key, up to their order. -/
theorem perm_of_rowsAt [DecidableEq ρ] {t t' : List ρ} (h : ∀ k, rowsAt key k t = rowsAt key k t') :
    t.Perm t' := by
  rw [List.perm_iff_count]
  intro r
  have hcount : ∀ u : List ρ, (rowsAt key (key r) u).count r = u.count r := fun u =>
    List.count_filter (by simp)
  rw [← hcount t, ← hcount t', h]

/-- A table in which no key has two rows has unique keys. -/
theorem nodup_of_rowsAt {t : List ρ} (h : ∀ k, (rowsAt key k t).length ≤ 1) :
    (t.map key).Nodup := by
  induction t with
  | nil => exact List.nodup_nil
  | cons x t ih =>
      rw [List.map_cons, List.nodup_cons]
      constructor
      · intro hx
        have hk := h (key x)
        rw [rowsAt_cons, if_pos rfl, List.length_cons] at hk
        exact (rowsAt_eq_nil key).mp (List.length_eq_zero_iff.mp (by omega)) hx
      · refine ih fun k => le_trans ?_ (h k)
        rw [rowsAt_cons]
        split <;> simp

end Keyed

/-! ## converted rows -/

/-- A conversion that succeeds on every row. -/
theorem mapM_eq_some {f : ρ → Option τ} {l : List ρ} {l' : List τ} :
    l.mapM f = some l' ↔ l.map f = l'.map some := by
  induction l generalizing l' with
  | nil =>
      cases l' with
      | nil => simp
      | cons b l' => simp
  | cons a l ih =>
      cases l' with
      | nil => cases h : f a <;> simp [h, Option.bind_eq_some_iff]
      | cons b l' => simp [Option.bind_eq_some_iff, ih]

/-- What every converted row keeps, the converted table keeps. -/
theorem map_of_mapM {f : ρ → Option τ} {g : ρ → κ} {g' : τ → κ} {l : List ρ} {l' : List τ}
    (h : l.mapM f = some l') (hf : ∀ a b, f a = some b → g' b = g a) : l'.map g' = l.map g := by
  rw [mapM_eq_some] at h
  induction l generalizing l' with
  | nil =>
      cases l' with
      | nil => rfl
      | cons b l' => simp at h
  | cons a l ih =>
      cases l' with
      | nil => simp at h
      | cons b l' =>
          simp only [List.map_cons, List.cons.injEq] at h
          rw [List.map_cons, List.map_cons, hf a b h.1, ih h.2]

/-- Every converted row comes from a row, and every row is converted. -/
theorem mem_of_mapM {f : ρ → Option τ} {l : List ρ} {l' : List τ} (h : l.mapM f = some l') :
    (∀ b, b ∈ l' ↔ ∃ a ∈ l, f a = some b) ∧ ∀ a ∈ l, ∃ b, f a = some b := by
  rw [mapM_eq_some] at h
  refine ⟨fun b => ?_, fun a ha => ?_⟩
  · rw [← List.mem_map, h, List.mem_map_of_injective (Option.some_injective τ)]
  · have hmem : f a ∈ l'.map some := h ▸ List.mem_map_of_mem ha
    obtain ⟨b, _, hb⟩ := List.mem_map.mp hmem
    exact ⟨b, hb.symm⟩

/-- The first converted row with a key is that of the first row. -/
theorem find?_mapM [DecidableEq κ] {f : ρ → Option τ} {g : ρ → κ} {g' : τ → κ} {l : List ρ}
    {l' : List τ} (h : l.mapM f = some l') (hf : ∀ a b, f a = some b → g' b = g a) (k : κ) :
    l'.find? (fun b => g' b = k) = (l.find? fun a => g a = k).bind f := by
  rw [mapM_eq_some] at h
  induction l generalizing l' with
  | nil =>
      cases l' with
      | nil => rfl
      | cons b l' => simp at h
  | cons a l ih =>
      cases l' with
      | nil => simp at h
      | cons b l' =>
          simp only [List.map_cons, List.cons.injEq] at h
          have hkey := hf a b h.1
          by_cases hk : g a = k
          · simp [hkey, hk, h.1]
          · rw [List.find?_cons_of_neg (by simpa [hkey] using hk),
              List.find?_cons_of_neg (by simpa using hk), ih h.2]

/-- A table is converted exactly if every row is. -/
theorem isSome_mapM_iff {f : ρ → Option τ} {l : List ρ} :
    (l.mapM f).isSome ↔ ∀ a ∈ l, (f a).isSome := by
  induction l with
  | nil => simp
  | cons a l ih =>
      rw [List.mapM_cons, List.forall_mem_cons, ← ih]
      cases f a <;> cases l.mapM f <;> simp

/-- A conversion that succeeds on the rows with a property. -/
theorem mapM_eq_ite {f : ρ → Option τ} {p : ρ → Prop} [DecidablePred p] {g : ρ → τ} {l : List ρ}
    (h : ∀ a ∈ l, f a = if p a then some (g a) else none) :
    l.mapM f = if ∀ a ∈ l, p a then some (l.map g) else none := by
  induction l with
  | nil => simp
  | cons a l ih =>
      rw [List.mapM_cons, h a List.mem_cons_self, ih fun b hb => h b (List.mem_cons_of_mem a hb)]
      simp only [List.forall_mem_cons]
      by_cases ha : p a
      · by_cases hl : ∀ b ∈ l, p b
        · rw [if_pos hl, if_pos ha, if_pos ⟨ha, hl⟩]
          rfl
        · rw [if_neg hl, if_pos ha, if_neg (c := p a ∧ ∀ b ∈ l, p b) fun h => hl h.2]
          rfl
      · simp [ha]

/-- The conversion of a table that is made group by group. -/
theorem mapM_flatMap {υ : Type _} {f : ρ → List υ} {g : υ → Option τ} {l : List ρ} :
    (l.flatMap f).mapM g = (l.mapM fun a => (f a).mapM g).map List.flatten := by
  induction l with
  | nil => rfl
  | cons a l ih =>
      rw [List.flatMap_cons, List.mapM_append, List.mapM_cons, ih]
      cases (f a).mapM g <;> cases l.mapM (fun a => (f a).mapM g) <;> simp

/-- The conversion relates the tables row by row. -/
theorem forall₂_of_mapM {f : ρ → Option τ} {l : List ρ} {l' : List τ} (h : l.mapM f = some l') :
    List.Forall₂ (fun a b => f a = some b) l l' := by
  rw [mapM_eq_some, ← List.forall₂_eq_eq_eq, List.forall₂_map_left_iff,
    List.forall₂_map_right_iff] at h
  exact h

/-- Relations of lists compose. -/
theorem forall₂_comp {υ : Type _} {R : ρ → τ → Prop} {S : τ → υ → Prop} {xs : List ρ} {ys : List τ}
    {zs : List υ} (hr : List.Forall₂ R xs ys) (hs : List.Forall₂ S ys zs) :
    List.Forall₂ (fun x z => ∃ y, R x y ∧ S y z) xs zs := by
  induction hr generalizing zs with
  | nil =>
      cases hs
      exact .nil
  | cons hxy _ ih =>
      cases hs with
      | cons hyz hrest => exact .cons ⟨_, hxy, hyz⟩ (ih hrest)

/-- An element of the first list has a partner. -/
theorem exists_of_forall₂_left {R : ρ → τ → Prop} {xs : List ρ} {ys : List τ}
    (h : List.Forall₂ R xs ys) {x : ρ} (hx : x ∈ xs) : ∃ y ∈ ys, R x y := by
  induction h with
  | nil => contradiction
  | @cons a b xs ys hab _ ih =>
      obtain rfl | hx := List.mem_cons.mp hx
      · exact ⟨b, List.mem_cons_self, hab⟩
      · obtain ⟨y, hy, hxy⟩ := ih hx
        exact ⟨y, List.mem_cons_of_mem b hy, hxy⟩

/-- An element of the second list has a partner. -/
theorem exists_of_forall₂_right {R : ρ → τ → Prop} {xs : List ρ} {ys : List τ}
    (h : List.Forall₂ R xs ys) {y : τ} (hy : y ∈ ys) : ∃ x ∈ xs, R x y :=
  exists_of_forall₂_left h.flip hy

/-- Partners for all elements are partners one by one. -/
theorem exists_forall₂_iff {R : ρ → τ → Prop} {xs : List ρ} :
    (∃ ys, List.Forall₂ R xs ys) ↔ ∀ x ∈ xs, ∃ y, R x y := by
  induction xs with
  | nil => simp
  | cons x xs ih =>
      simp only [List.forall₂_cons_left_iff, List.forall_mem_cons, ← ih]
      constructor
      · rintro ⟨_, y, ys, hy, hys, rfl⟩
        exact ⟨⟨y, hy⟩, ys, hys⟩
      · rintro ⟨⟨y, hy⟩, ys, hys⟩
        exact ⟨y :: ys, y, ys, hy, hys, rfl⟩

/-- Related tables with equal keys: the rows of one key are related. -/
theorem forall₂_rowsAt [DecidableEq κ] (key : ρ → κ) (skey : τ → κ) {R : ρ → τ → Prop}
    {xs : List ρ} {ys : List τ} (h : List.Forall₂ R xs ys) (hkey : ∀ x y, R x y → skey y = key x)
    (k : κ) : List.Forall₂ R (rowsAt key k xs) (rowsAt skey k ys) := by
  induction h with
  | nil => exact .nil
  | cons hxy _ ih =>
      rw [rowsAt_cons, rowsAt_cons, hkey _ _ hxy]
      split
      · exact .cons hxy ih
      · exact ih

/-- A table of groups, written out row by row: the rows of one key are those of
its groups. -/
theorem rowsAt_flatMap [DecidableEq κ] (key : ρ → κ) (skey : τ → κ) {f : τ → List ρ}
    (hf : ∀ x, ∀ r ∈ f x, key r = skey x) (k : κ) (xs : List τ) :
    rowsAt key k (xs.flatMap f) = (rowsAt skey k xs).flatMap f := by
  induction xs with
  | nil => rfl
  | cons x xs ih =>
      rw [List.flatMap_cons, rowsAt_append, ih, rowsAt_cons]
      split
      · next hx =>
          have hself : rowsAt key k (f x) = f x := by
            rw [rowsAt, List.filter_eq_self]
            intro r hr
            simp [hf x r hr, hx]
          rw [hself, List.flatMap_cons]
      · next hx =>
          have hnil : rowsAt key k (f x) = [] := by
            rw [rowsAt, List.filter_eq_nil_iff]
            intro r hr
            simp [hf x r hr, hx]
          rw [hnil, List.nil_append]

/-! ## statements run row by row -/

section Collect
variable {σ : Type _} {f : ρ → σ → τ × σ}

/-- One statement per element, each on the tables that the one before left; the
answers are collected. -/
def collect (f : ρ → σ → τ × σ) (l : List ρ) (s : σ) : List τ × σ :=
  l.foldl (fun p a => (p.1 ++ [(f a p.2).1], (f a p.2).2)) ([], s)

/-- A loop that collects results is the collection, behind what it had. -/
theorem foldl_collect (l : List ρ) (bs : List τ) (s : σ) :
    l.foldl (fun p a => (p.1 ++ [(f a p.2).1], (f a p.2).2)) (bs, s) =
      (bs ++ (collect f l s).1, (collect f l s).2) := by
  induction l generalizing bs s with
  | nil => simp [collect]
  | cons a l ih =>
      rw [List.foldl_cons, collect, List.foldl_cons]
      simp only [ih]
      simp

/-- The first result, then the others. -/
theorem collect_cons (a : ρ) (l : List ρ) (s : σ) :
    collect f (a :: l) s =
      ((f a s).1 :: (collect f l (f a s).2).1, (collect f l (f a s).2).2) := by
  rw [collect, List.foldl_cons, foldl_collect]
  simp

/-- What every statement keeps, all of them keep. -/
theorem collect_invariant {Inv : σ → Prop} (hf : ∀ a s, Inv s → Inv (f a s).2) (l : List ρ) {s : σ}
    (hs : Inv s) : Inv (collect f l s).2 := by
  induction l generalizing s with
  | nil => exact hs
  | cons a l ih =>
      rw [collect_cons]
      exact ih (hf a s hs)

/-- What every statement does, all of them do: the tables grow, the invariant is
kept, and each answer is right for the tables at the end. -/
theorem collect_spec {Inv : σ → Prop} {Grow : σ → σ → Prop} {Out : σ → ρ → τ → Prop}
    (hrefl : ∀ s, Grow s s) (htrans : ∀ {s t u}, Grow s t → Grow t u → Grow s u)
    (hout : ∀ {s t a b}, Grow s t → Out s a b → Out t a b)
    (hf : ∀ a s, Inv s → Grow s (f a s).2 ∧ Inv (f a s).2 ∧ Out (f a s).2 a (f a s).1)
    (l : List ρ) {s : σ} (hs : Inv s) :
    Grow s (collect f l s).2 ∧ Inv (collect f l s).2 ∧
      List.Forall₂ (Out (collect f l s).2) l (collect f l s).1 := by
  induction l generalizing s with
  | nil => exact ⟨hrefl s, hs, .nil⟩
  | cons a l ih =>
      obtain ⟨hgrow, hinv, hb⟩ := hf a s hs
      obtain ⟨hgrow', hinv', hbs⟩ := ih hinv
      rw [collect_cons]
      exact ⟨htrans hgrow hgrow', hinv', .cons (hout hgrow' hb) hbs⟩

end Collect

section CollectM
variable {σ : Type _} {f : ρ → σ → Option (τ × σ)}

/-- One statement per element, as `collect`, where a statement may fail and ends the
sequence then. -/
def collectM (f : ρ → σ → Option (τ × σ)) : List ρ → σ → Option (List τ × σ)
  | [], s => some ([], s)
  | a :: l, s => do
    let (b, s) ← f a s
    let (bs, s) ← collectM f l s
    pure (b :: bs, s)

/-- What every statement does, a sequence that succeeds does: it adds what its
elements add, keeps the invariant, and each answer is right for the tables at the
end. -/
theorem collectM_spec {adds : ρ → List κ} {Inv : σ → Prop} {Grow : List κ → σ → σ → Prop}
    {Out : σ → ρ → τ → Prop} (hrefl : ∀ s, Grow [] s s)
    (htrans : ∀ {k k' s t u}, Grow k s t → Grow k' t u → Grow (k ++ k') s u)
    (hout : ∀ {k s t a b}, Grow k s t → Out s a b → Out t a b)
    (hf : ∀ {a s b t}, Inv s → f a s = some (b, t) → Grow (adds a) s t ∧ Inv t ∧ Out t a b)
    {l : List ρ} {s t : σ} {bs : List τ} (hs : Inv s) (h : collectM f l s = some (bs, t)) :
    Grow (l.flatMap adds) s t ∧ Inv t ∧ List.Forall₂ (Out t) l bs := by
  induction l generalizing s bs with
  | nil =>
      obtain ⟨rfl, rfl⟩ : [] = bs ∧ s = t := by simpa [collectM] using h
      exact ⟨hrefl s, hs, .nil⟩
  | cons a l ih =>
      simp only [collectM, Option.bind_eq_bind, Option.bind_eq_some_iff, Option.pure_def,
        Option.some.injEq, Prod.mk.injEq] at h
      obtain ⟨⟨b, s'⟩, hb, ⟨bs', t'⟩, hbs, rfl, rfl⟩ := h
      obtain ⟨hgrow, hinv, hab⟩ := hf hs hb
      obtain ⟨hgrow', hinv', hrest⟩ := ih hinv hbs
      exact ⟨htrans hgrow hgrow', hinv', .cons (hout hgrow' hab) hrest⟩

/-- A sequence that succeeds has succeeded up to any of its elements. -/
theorem collectM_take {l : List ρ} {s t : σ} {bs : List τ} (h : collectM f l s = some (bs, t))
    (n : Nat) :
    ∃ u, collectM f (l.take n) s = some (bs.take n, u) ∧
      collectM f (l.drop n) u = some (bs.drop n, t) := by
  induction l generalizing s bs n with
  | nil =>
      obtain ⟨rfl, rfl⟩ : [] = bs ∧ s = t := by simpa [collectM] using h
      exact ⟨s, by simp [collectM], by simp [collectM]⟩
  | cons a l ih =>
      cases n with
      | zero => exact ⟨s, by simp [collectM], by simpa using h⟩
      | succ n =>
          simp only [collectM, Option.bind_eq_bind, Option.bind_eq_some_iff, Option.pure_def,
            Option.some.injEq, Prod.mk.injEq] at h
          obtain ⟨⟨b, s'⟩, hb, ⟨bs', t'⟩, hbs, rfl, rfl⟩ := h
          obtain ⟨u, htake, hdrop⟩ := ih hbs n
          exact ⟨u, by simp [collectM, hb, htake], by simpa using hdrop⟩

end CollectM

/-! ## ORDER BY and LIMIT -/

section Order
variable [LinearOrder κ] (key : ρ → κ)

/-- `ORDER BY key ASC`. -/
def orderAsc (t : List ρ) : List ρ := t.insertionSort fun a b => key a ≤ key b

/-- `ORDER BY key DESC`. -/
def orderDesc (t : List ρ) : List ρ := t.insertionSort fun a b => key b ≤ key a

/-- `LIMIT offset, count`. -/
def limit (offset count : Nat) (t : List ρ) : List ρ := (t.drop offset).take count

instance total_key : Std.Total fun a b : ρ => key a ≤ key b := ⟨fun a b => le_total (key a) (key b)⟩

instance isTrans_key : IsTrans ρ fun a b : ρ => key a ≤ key b := ⟨fun _ _ _ => le_trans⟩

instance total_key_desc : Std.Total fun a b : ρ => key b ≤ key a := ⟨fun a b => le_total (key b) (key a)⟩

instance isTrans_key_desc : IsTrans ρ fun a b : ρ => key b ≤ key a :=
  ⟨fun _ _ _ h1 h2 => le_trans h2 h1⟩

@[simp] theorem mem_orderAsc {r : ρ} {t : List ρ} : r ∈ orderAsc key t ↔ r ∈ t := by
  simp [orderAsc]

@[simp] theorem length_orderAsc (t : List ρ) : (orderAsc key t).length = t.length := by
  simp [orderAsc]

theorem perm_orderAsc (t : List ρ) : (orderAsc key t).Perm t := List.perm_insertionSort _ t

/-- A sorted table is its own ascending order. -/
theorem orderAsc_of_pairwise {t : List ρ} (h : t.Pairwise fun a b => key a < key b) :
    orderAsc key t = t :=
  (h.imp fun hab => le_of_lt hab).insertionSort_eq

/-- A strictly sorted table is reversed by `ORDER BY … DESC`. -/
theorem orderDesc_of_pairwise {t : List ρ} (h : t.Pairwise fun a b => key a < key b) :
    orderDesc key t = t.reverse := by
  have hnodup : (t.map key).Nodup := by
    rw [List.nodup_iff_pairwise_ne, List.pairwise_map]
    exact h.imp ne_of_lt
  have hperm : (orderDesc key t).Perm t.reverse :=
    (List.perm_insertionSort _ t).trans (List.reverse_perm t).symm
  refine hperm.eq_of_pairwise ?_ (List.pairwise_insertionSort _ t) ?_
  · intro a b ha hb hab hba
    have ha' : a ∈ t := by simpa [orderDesc] using ha
    exact List.inj_on_of_nodup_map hnodup ha' (List.mem_reverse.mp hb) (le_antisymm hba hab)
  · rw [List.pairwise_reverse]
    exact h.imp fun hab => le_of_lt hab

/-- In ascending order the last row has the largest key. -/
theorem le_of_getLast?_orderAsc {t : List ρ} {r : ρ} (h : (orderAsc key t).getLast? = some r)
    {x : ρ} (hx : x ∈ t) : key x ≤ key r := by
  obtain ⟨ys, hys⟩ := List.getLast?_eq_some_iff.mp h
  have hp : (orderAsc key t).Pairwise fun a b => key a ≤ key b :=
    List.pairwise_insertionSort _ t
  have hx' : x ∈ orderAsc key t := (mem_orderAsc key).mpr hx
  rw [hys] at hp hx'
  rcases List.mem_append.mp hx' with hx' | hx'
  · exact (List.pairwise_append.mp hp).2.2 x hx' r (List.mem_singleton.mpr rfl)
  · rw [List.mem_singleton.mp hx']

end Order

/-- Consecutive windows with boundaries `b 0 = 0, b 1, …, b n` cover the first
`b n` rows, each row once and in order. -/
theorem flatten_windows (b : Nat → Nat) (h0 : b 0 = 0) (hb : ∀ i, b i ≤ b (i + 1))
    (l : List ρ) (n : Nat) :
    ((List.range n).map fun i => limit (b i) (b (i + 1) - b i) l).flatten = l.take (b n) := by
  induction n with
  | zero => simp [h0]
  | succ n ih =>
      have hsum : b n + (b (n + 1) - b n) = b (n + 1) := Nat.add_sub_cancel' (hb n)
      rw [List.range_succ, List.map_append, List.flatten_append, ih]
      simp only [List.map_cons, List.map_nil, List.flatten_cons, List.flatten_nil,
        List.append_nil, limit]
      rw [← hsum, List.take_add]
      simp

/-! ## row ids -/

section RowId
variable (id : ρ → Nat)

/-- The value an `integer primary key` column takes in a new row: one more than
the largest in the table. -/
def nextId (t : List ρ) : Nat := (t.map id).foldl max 0 + 1

/-- A maximum is at least each of the numbers. -/
theorem le_foldl_max (l : List Nat) (a : Nat) : a ≤ l.foldl max a ∧ ∀ x ∈ l, x ≤ l.foldl max a := by
  induction l generalizing a with
  | nil => simp
  | cons y l ih =>
      obtain ⟨h1, h2⟩ := ih (max a y)
      refine ⟨le_trans (le_max_left a y) h1, fun x hx => ?_⟩
      obtain rfl | hx := List.mem_cons.mp hx
      · exact le_trans (le_max_right a x) h1
      · exact h2 x hx

/-- The next id is above all. -/
theorem lt_nextId {t : List ρ} {r : ρ} (h : r ∈ t) : id r < nextId id t :=
  Nat.lt_succ_of_le ((le_foldl_max (t.map id) 0).2 (id r) (List.mem_map_of_mem h))

/-- Ids grow with the position in the table. -/
def IdSorted (t : List ρ) : Prop := t.Pairwise fun a b => id a < id b

theorem idSorted_nil : IdSorted id ([] : List ρ) := List.Pairwise.nil

/-- An insert keeps the ids growing. -/
theorem IdSorted.append_nextId {t : List ρ} (h : IdSorted id t) {r : ρ}
    (hr : id r = nextId id t) : IdSorted id (t ++ [r]) := by
  refine List.pairwise_append.mpr ⟨h, List.pairwise_singleton .., fun a ha b hb => ?_⟩
  rw [List.mem_singleton.mp hb, hr]
  exact lt_nextId id ha

end RowId

/-! ## the update-or-insert statement -/

section Upsert
variable [DecidableEq κ] (key : ρ → κ) (skey : τ → κ) (set : ρ → τ → ρ) (ins : τ → ρ)

/-- `UPDATE t SET … FROM src s WHERE t.key = s.key`. -/
def updateFrom (src : List τ) (t : List ρ) : List ρ :=
  t.map fun r => match src.find? fun s => skey s = key r with
    | some s => set r s
    | none => r

/-- What the update's `RETURNING s.key` yields: the source keys that matched. -/
def updatedKeys (src : List τ) (t : List ρ) : List κ :=
  (t.filterMap fun r => src.find? fun s => skey s = key r).map skey

/-- `WITH updated AS (UPDATE … RETURNING s.key) INSERT … SELECT … FROM src s
LEFT OUTER JOIN updated u ON s.key = u.key WHERE u.key IS NULL`. -/
def upsert (src : List τ) (t : List ρ) : List ρ :=
  updateFrom key skey set src t ++
    (src.filter fun s => skey s ∉ updatedKeys key skey src t).map ins

/-- Exactly the source keys that the table has are returned. -/
theorem mem_updatedKeys {src : List τ} {t : List ρ} {k : κ} :
    k ∈ updatedKeys key skey src t ↔ k ∈ src.map skey ∧ k ∈ t.map key := by
  simp only [updatedKeys, List.mem_map, List.mem_filterMap]
  constructor
  · rintro ⟨s, ⟨r, hr, hs⟩, rfl⟩
    have hk : skey s = key r := by simpa using List.find?_some hs
    exact ⟨⟨s, List.mem_of_find?_eq_some hs, rfl⟩, r, hr, hk.symm⟩
  · rintro ⟨⟨s, hs, hsk⟩, r, hr, hrk⟩
    cases hf : src.find? fun s => skey s = key r with
    | none =>
        have := List.find?_eq_none.mp hf s hs
        simp [hsk, hrk] at this
    | some s' =>
        have hk : skey s' = key r := by simpa using List.find?_some hf
        exact ⟨s', ⟨r, hr, hf⟩, hk.trans hrk⟩

variable {key skey set ins}

/-- Where keys are distinct, the first row with a key is the row. -/
theorem find?_eq_some_of_nodup {src : List τ} (hn : (src.map skey).Nodup) {s : τ} (hs : s ∈ src) :
    src.find? (fun x => skey x = skey s) = some s := by
  induction src with
  | nil => contradiction
  | cons x src ih =>
      rw [List.map_cons, List.nodup_cons] at hn
      rcases List.mem_cons.mp hs with rfl | hs
      · simp
      · have hne : skey x ≠ skey s := fun he => hn.1 (he ▸ List.mem_map_of_mem hs)
        rw [List.find?_cons_of_neg (by simpa using hne), ih hn.2 hs]

/-- The update sets a key's rows from the source row with that key. -/
theorem rowsAt_updateFrom (hset : ∀ r s, key (set r s) = key r) (src : List τ) (t : List ρ)
    (k : κ) :
    rowsAt key k (updateFrom key skey set src t) =
      (rowsAt key k t).map fun r => match src.find? fun s => skey s = k with
        | some s => set r s
        | none => r := by
  rw [updateFrom, rowsAt_map key fun r => by split <;> simp [hset]]
  refine List.map_congr_left fun r hr => ?_
  rw [((mem_rowsAt key).mp hr).2]

/-- The rows that the anti-join lets through for a key: the source row with
that key, if the table has none. -/
theorem rowsAt_inserted (hins : ∀ s, key (ins s) = skey s) {src : List τ}
    (hn : (src.map skey).Nodup) (t : List ρ) (k : κ) :
    rowsAt key k ((src.filter fun s => skey s ∉ updatedKeys key skey src t).map ins) =
      match src.find? fun s => skey s = k with
      | some s => if rowsAt key k t = [] then [ins s] else []
      | none => [] := by
  have hkeys : ((src.filter fun s => skey s ∉ updatedKeys key skey src t).map ins).map key =
      (src.filter fun s => skey s ∉ updatedKeys key skey src t).map skey := by
    simp [List.map_map, Function.comp_def, hins]
  cases hf : src.find? fun s => skey s = k with
  | none =>
      rw [rowsAt_eq_nil, hkeys]
      intro hk
      obtain ⟨s, hs, hsk⟩ := List.mem_map.mp hk
      have := List.find?_eq_none.mp hf s (List.mem_filter.mp hs).1
      simp [hsk] at this
  | some s =>
      have hsk : skey s = k := by simpa using List.find?_some hf
      have hs : s ∈ src := List.mem_of_find?_eq_some hf
      have hmem : k ∈ updatedKeys key skey src t ↔ k ∈ t.map key := by
        rw [mem_updatedKeys]
        exact and_iff_right (hsk ▸ List.mem_map_of_mem hs)
      simp only [rowsAt_eq_nil]
      split
      · next hk =>
          have hin : ins s ∈ (src.filter fun s => skey s ∉ updatedKeys key skey src t).map ins := by
            refine List.mem_map_of_mem (List.mem_filter.mpr ⟨hs, ?_⟩)
            simpa [hsk, hmem] using hk
          have hnd : (((src.filter fun s =>
              skey s ∉ updatedKeys key skey src t).map ins).map key).Nodup := by
            rw [hkeys]
            exact hn.sublist (List.filter_sublist.map skey)
          have := rowsAt_of_nodup key hnd hin
          rwa [hins, hsk] at this
      · next hk =>
          rw [rowsAt_eq_nil, hkeys]
          intro hk'
          obtain ⟨x, hx, hxk⟩ := List.mem_map.mp hk'
          have := (List.mem_filter.mp hx).2
          simp only [hxk, hmem, decide_not, Bool.not_eq_true', decide_eq_false_iff_not] at this
          exact this (not_not.mp hk)

/-- **Update-or-insert, listed key**: a key of the source ends with its old rows
set from the source row, or with the inserted row if there were none. -/
theorem rowsAt_upsert_of_mem (hset : ∀ r s, key (set r s) = key r)
    (hins : ∀ s, key (ins s) = skey s) {src : List τ} (hn : (src.map skey).Nodup) {s : τ}
    (hs : s ∈ src) (t : List ρ) :
    rowsAt key (skey s) (upsert key skey set ins src t) =
      if rowsAt key (skey s) t = [] then [ins s]
      else (rowsAt key (skey s) t).map fun r => set r s := by
  rw [upsert, rowsAt_append, rowsAt_updateFrom hset, rowsAt_inserted hins hn,
    find?_eq_some_of_nodup hn hs]
  by_cases h : rowsAt key (skey s) t = []
  · simp [h]
  · simp [h]

/-- With unique keys a key of the source ends with one row. -/
theorem rowsAt_upsert_of_nodup (hset : ∀ r s, key (set r s) = key r)
    (hins : ∀ s, key (ins s) = skey s) {src : List τ} (hn : (src.map skey).Nodup) {s : τ}
    (hs : s ∈ src) {t : List ρ} (ht : (t.map key).Nodup) :
    ∃ r, rowsAt key (skey s) (upsert key skey set ins src t) = [r] ∧
      (r = ins s ∨ ∃ r₀ ∈ t, key r₀ = skey s ∧ r = set r₀ s) := by
  rw [rowsAt_upsert_of_mem hset hins hn hs]
  obtain hnil | ⟨r₀, hr₀, hkey, hone⟩ := rowsAt_eq_nil_or_singleton key ht (skey s)
  · exact ⟨ins s, by simp [hnil], .inl rfl⟩
  · exact ⟨set r₀ s, by simp [hone], .inr ⟨r₀, hr₀, hkey, rfl⟩⟩

/-- **Update-or-insert, other keys**: a key that the source does not list keeps
its rows. -/
theorem rowsAt_upsert_of_notMem (hset : ∀ r s, key (set r s) = key r)
    (hins : ∀ s, key (ins s) = skey s) {src : List τ} (hn : (src.map skey).Nodup) {k : κ}
    (hk : k ∉ src.map skey) (t : List ρ) :
    rowsAt key k (upsert key skey set ins src t) = rowsAt key k t := by
  have hf : src.find? (fun s => skey s = k) = none := by
    rw [List.find?_eq_none]
    intro s hs
    simpa using fun he : skey s = k => hk (he ▸ List.mem_map_of_mem hs)
  rw [upsert, rowsAt_append, rowsAt_updateFrom hset, rowsAt_inserted hins hn, hf]
  simp

/-- The keys afterwards are those of the table and of the source. -/
theorem mem_map_upsert (hset : ∀ r s, key (set r s) = key r) (hins : ∀ s, key (ins s) = skey s)
    {src : List τ} {k : κ} (t : List ρ) :
    k ∈ (upsert key skey set ins src t).map key ↔ k ∈ src.map skey ∨ k ∈ t.map key := by
  have hupdated : (updateFrom key skey set src t).map key = t.map key := by
    rw [updateFrom, map_key_map key fun r => by split <;> simp [hset]]
  have hinserted : ((src.filter fun s => skey s ∉ updatedKeys key skey src t).map ins).map key =
      (src.filter fun s => skey s ∉ updatedKeys key skey src t).map skey := by
    simp [List.map_map, Function.comp_def, hins]
  rw [upsert, List.map_append, List.mem_append, hupdated, hinserted]
  constructor
  · rintro (h | h)
    · exact .inr h
    · obtain ⟨s, hs, rfl⟩ := List.mem_map.mp h
      exact .inl (List.mem_map_of_mem (List.mem_filter.mp hs).1)
  · rintro (h | h)
    · obtain ⟨s, hs, rfl⟩ := List.mem_map.mp h
      by_cases hk : skey s ∈ updatedKeys key skey src t
      · exact .inl ((mem_updatedKeys key skey).mp hk).2
      · exact .inr (List.mem_map_of_mem (List.mem_filter.mpr ⟨hs, by simpa using hk⟩))
    · exact .inl h

/-- Unique keys stay unique when the source's are. -/
theorem nodup_upsert (hset : ∀ r s, key (set r s) = key r) (hins : ∀ s, key (ins s) = skey s)
    {src : List τ} (hn : (src.map skey).Nodup) {t : List ρ} (ht : (t.map key).Nodup) :
    ((upsert key skey set ins src t).map key).Nodup := by
  have hle : ∀ k, (rowsAt key k t).length ≤ 1 := fun k => by
    obtain hnil | ⟨r, _, _, hone⟩ := rowsAt_eq_nil_or_singleton key ht k
    · simp [hnil]
    · simp [hone]
  refine nodup_of_rowsAt key fun k => ?_
  by_cases hk : k ∈ src.map skey
  · obtain ⟨s, hs, rfl⟩ := List.mem_map.mp hk
    rw [rowsAt_upsert_of_mem hset hins hn hs]
    split
    · simp
    · simpa using hle (skey s)
  · rw [rowsAt_upsert_of_notMem hset hins hn hk]
    exact hle k

/-- An update commutes with a change of the rows that leaves the keys alone and
commutes with the assignment. -/
theorem updateFrom_map {f : ρ → ρ} (hkey : ∀ r, key (f r) = key r)
    (hf : ∀ r s, set (f r) s = f (set r s)) (src : List τ) (t : List ρ) :
    updateFrom key skey set src (t.map f) = (updateFrom key skey set src t).map f := by
  simp only [updateFrom, List.map_map]
  refine List.map_congr_left fun r _ => ?_
  simp only [Function.comp_apply, hkey]
  split
  · exact hf ..
  · rfl

/-- When the table has all keys of the source, nothing is inserted. -/
theorem upsert_of_subset {src : List τ} {t : List ρ} (h : ∀ s ∈ src, skey s ∈ t.map key) :
    upsert key skey set ins src t = updateFrom key skey set src t := by
  rw [upsert, List.filter_eq_nil_iff.mpr, List.map_nil, List.append_nil]
  intro s hs
  simpa [-List.mem_map] using
    (mem_updatedKeys key skey).mpr ⟨List.mem_map_of_mem hs, h s hs⟩

/-- What was updated or inserted is up to date. -/
theorem updateFrom_upsert (hset : ∀ r s, key (set r s) = key r)
    (hins : ∀ s, key (ins s) = skey s) (hagain : ∀ r s, set (set r s) s = set r s)
    (hnew : ∀ s, set (ins s) s = ins s) {src : List τ} (hn : (src.map skey).Nodup) (t : List ρ) :
    updateFrom key skey set src (upsert key skey set ins src t) =
      upsert key skey set ins src t := by
  rw [upsert, updateFrom, List.map_append]
  congr 1
  · rw [updateFrom, List.map_map]
    refine List.map_congr_left fun r _ => ?_
    simp only [Function.comp_apply]
    cases hf : src.find? fun s => skey s = key r with
    | none => simp [hf]
    | some s => simp [hset, hf, hagain]
  · rw [List.map_map]
    refine List.map_congr_left fun s hs => ?_
    simp [hins, find?_eq_some_of_nodup hn (List.mem_filter.mp hs).1, hnew]

/-- **Update-or-insert, again**: also after a change of the rows that the
assignment does not undo. -/
theorem upsert_map_upsert {f : ρ → ρ} (hkey : ∀ r, key (f r) = key r)
    (hf : ∀ r s, set (f r) s = f (set r s)) (hset : ∀ r s, key (set r s) = key r)
    (hins : ∀ s, key (ins s) = skey s) (hagain : ∀ r s, set (set r s) s = set r s)
    (hnew : ∀ s, set (ins s) s = ins s) {src : List τ} (hn : (src.map skey).Nodup) (t : List ρ) :
    upsert key skey set ins src ((upsert key skey set ins src t).map f) =
      (upsert key skey set ins src t).map f := by
  have hall : ∀ s ∈ src, skey s ∈ ((upsert key skey set ins src t).map f).map key := fun s hs => by
    rw [map_key_map key hkey]
    exact (mem_map_upsert hset hins t).mpr (.inl (List.mem_map_of_mem hs))
  rw [upsert_of_subset hall, updateFrom_map hkey hf,
    updateFrom_upsert hset hins hagain hnew hn]

end Upsert

end Rel
