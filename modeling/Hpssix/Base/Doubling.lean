/-!
# Base.Doubling

Text in which the characters of a class are written twice: the way to write a
quote inside quotes, or a percent sign in a format.

This module depends only on the Lean 4 core library.
-/

namespace Doubling

variable {α : Type _} (p : α → Prop) [DecidablePred p]

/-- Every element of the class is written twice. -/
def double (s : List α) : List α := s.flatMap fun c => if p c then [c, c] else [c]

@[simp] theorem double_nil : double p [] = [] := rfl

theorem double_cons (c : α) (s : List α) :
    double p (c :: s) = (if p c then [c, c] else [c]) ++ double p s := by
  simp [double]

@[simp] theorem double_append (s t : List α) : double p (s ++ t) = double p s ++ double p t := by
  simp [double]

variable {p}

theorem double_cons_of_pos {c : α} (h : p c) (s : List α) :
    double p (c :: s) = c :: c :: double p s := by
  simp [double_cons, h]

theorem double_cons_of_neg {c : α} (h : ¬ p c) (s : List α) :
    double p (c :: s) = c :: double p s := by
  simp [double_cons, h]

@[simp] theorem double_eq_nil_iff {s : List α} : double p s = [] ↔ s = [] := by
  cases s with
  | nil => simp
  | cons c s => by_cases h : p c <;> simp [double_cons, h]

/-- Text without elements of the class is written as it is. -/
theorem double_of_forall {s : List α} (h : ∀ c ∈ s, ¬ p c) : double p s = s := by
  induction s with
  | nil => rfl
  | cons c s ih =>
      rw [double_cons_of_neg (h c List.mem_cons_self),
        ih fun d hd => h d (List.mem_cons_of_mem c hd)]

/-- What doubled text begins with. -/
theorem double_eq_cons {c : α} {s t : List α} (h : double p s = c :: t) :
    ∃ s', s = c :: s' ∧ (p c ∧ t = c :: double p s' ∨ ¬ p c ∧ t = double p s') := by
  cases s with
  | nil => simp at h
  | cons d s =>
      by_cases hd : p d
      · rw [double_cons_of_pos hd] at h
        obtain ⟨rfl, rfl⟩ := List.cons.inj h
        exact ⟨s, rfl, .inl ⟨hd, rfl⟩⟩
      · rw [double_cons_of_neg hd] at h
        obtain ⟨rfl, rfl⟩ := List.cons.inj h
        exact ⟨s, rfl, .inr ⟨hd, rfl⟩⟩

theorem double_inj {s t : List α} : double p s = double p t ↔ s = t := by
  refine ⟨fun h => ?_, congrArg (double p)⟩
  induction s generalizing t with
  | nil => exact (double_eq_nil_iff.mp h.symm).symm
  | cons c s ih =>
      by_cases hc : p c
      · rw [double_cons_of_pos hc] at h
        obtain ⟨t, rfl, ⟨-, h⟩ | ⟨hc', -⟩⟩ := double_eq_cons h.symm
        · rw [ih (List.cons.inj h).2]
        · exact absurd hc hc'
      · rw [double_cons_of_neg hc] at h
        obtain ⟨t, rfl, ⟨hc', -⟩ | ⟨-, h⟩⟩ := double_eq_cons h.symm
        · exact absurd hc' hc
        · rw [ih h]

/-- What doubled text ends with. -/
theorem double_eq_concat {c : α} (hc : p c) {s t : List α} (h : double p s = t ++ [c, c]) :
    ∃ s', s = s' ++ [c] ∧ double p s' = t := by
  obtain rfl | ⟨s, d, rfl⟩ := List.eq_nil_or_concat s
  · simp at h
  · rw [List.concat_eq_append, double_append] at h
    by_cases hd : p d
    · rw [double_cons_of_pos hd, double_nil] at h
      obtain ⟨ht, hdc⟩ := List.append_inj' h rfl
      obtain rfl := (List.cons.inj hdc).1
      exact ⟨s, List.concat_eq_append, ht⟩
    · rw [double_cons_of_neg hd, double_nil, List.append_cons t] at h
      obtain ⟨-, hdc⟩ := List.append_inj' h rfl
      exact absurd ((List.cons.inj hdc).1 ▸ hc) hd

/-- Text that is doubled in two ways is doubled in both. -/
theorem double_eq_double {q : α → Prop} [DecidablePred q] (hpq : ∀ c, p c → ¬ q c) {s t : List α}
    (h : double p s = double q t) : ∃ m, s = double q m ∧ t = double p m := by
  induction hn : t.length using Nat.strongRecOn generalizing s t with
  | ind n ih =>
      subst hn
      cases t with
      | nil => exact ⟨[], double_eq_nil_iff.mp h, rfl⟩
      | cons c t =>
          by_cases hq : q c
          · have hp : ¬ p c := fun hp => hpq c hp hq
            rw [double_cons_of_pos hq] at h
            obtain ⟨s, rfl, ⟨hp', -⟩ | ⟨-, h⟩⟩ := double_eq_cons h
            · exact absurd hp' hp
            · obtain ⟨s, rfl, ⟨hp', -⟩ | ⟨-, h⟩⟩ := double_eq_cons h.symm
              · exact absurd hp' hp
              · obtain ⟨m, rfl, rfl⟩ := ih t.length (Nat.lt_succ_self _) h.symm rfl
                exact ⟨c :: m, (double_cons_of_pos hq m).symm, (double_cons_of_neg hp m).symm⟩
          · rw [double_cons_of_neg hq] at h
            obtain ⟨s, rfl, ⟨hp, h⟩ | ⟨hp, h⟩⟩ := double_eq_cons h
            · obtain ⟨t, rfl, ⟨hq', -⟩ | ⟨-, h⟩⟩ := double_eq_cons h
              · exact absurd hq' hq
              · obtain ⟨m, rfl, rfl⟩ := ih t.length (by simp only [List.length_cons]; omega) h rfl
                exact ⟨c :: m, (double_cons_of_neg hq m).symm, (double_cons_of_pos hp m).symm⟩
            · obtain ⟨m, rfl, rfl⟩ := ih t.length (Nat.lt_succ_self _) h.symm rfl
              exact ⟨c :: m, (double_cons_of_neg hq m).symm, (double_cons_of_neg hp m).symm⟩

/-- Around an element that is not doubled, the parts are doubled one by one. -/
theorem double_eq_append_cons {c : α} (hc : ¬ p c) {a b s : List α}
    (h : double p s = a ++ c :: b) :
    ∃ s₁ s₂, s = s₁ ++ c :: s₂ ∧ double p s₁ = a ∧ double p s₂ = b := by
  induction s generalizing a with
  | nil => simp at h
  | cons d s ih =>
      by_cases hd : p d
      · have hne : d ≠ c := fun heq => hc (heq ▸ hd)
        rw [double_cons_of_pos hd] at h
        obtain _ | ⟨x, _ | ⟨y, a⟩⟩ := a
        · exact absurd (List.cons_eq_cons.mp h).1 hne
        · simp [hne] at h
        · simp only [List.cons_append, List.cons.injEq] at h
          obtain ⟨rfl, rfl, h⟩ := h
          obtain ⟨s₁, s₂, rfl, rfl, rfl⟩ := ih h
          exact ⟨d :: s₁, s₂, rfl, double_cons_of_pos hd s₁, rfl⟩
      · rw [double_cons_of_neg hd] at h
        obtain _ | ⟨x, a⟩ := a
        · simp only [List.nil_append, List.cons.injEq] at h
          exact ⟨[], s, by rw [h.1, List.nil_append], rfl, h.2⟩
        · simp only [List.cons_append, List.cons.injEq] at h
          obtain ⟨rfl, h⟩ := h
          obtain ⟨s₁, s₂, rfl, rfl, rfl⟩ := ih h
          exact ⟨d :: s₁, s₂, rfl, double_cons_of_neg hd s₁, rfl⟩

/-- Text in front that has no element of the class. -/
theorem double_eq_append {a b s : List α} (ha : ∀ c ∈ a, ¬ p c) (h : double p s = a ++ b) :
    ∃ s', s = a ++ s' ∧ double p s' = b := by
  induction a generalizing s with
  | nil => exact ⟨s, rfl, h⟩
  | cons c a ih =>
      obtain ⟨s₁, s₂, rfl, hnil, hrest⟩ :=
        double_eq_append_cons (a := []) (ha c List.mem_cons_self) h
      obtain rfl := double_eq_nil_iff.mp hnil
      obtain ⟨s', rfl, hs'⟩ := ih (fun d hd => ha d (List.mem_cons_of_mem c hd)) hrest
      exact ⟨s', rfl, hs'⟩

@[simp] theorem mem_double {c : α} {s : List α} : c ∈ double p s ↔ c ∈ s := by
  rw [double, List.mem_flatMap]
  constructor
  · rintro ⟨d, hd, hc⟩
    by_cases h : p d
    · simp only [h, if_true, List.mem_cons, List.not_mem_nil, or_false, or_self] at hc
      exact hc ▸ hd
    · simp only [h, if_false, List.mem_singleton] at hc
      exact hc ▸ hd
  · intro hc
    refine ⟨c, hc, ?_⟩
    by_cases h : p c <;> simp [h]

/-- Each element of the class makes the text longer by one. -/
theorem length_double (s : List α) : (double p s).length = s.length + s.countP fun c => p c := by
  induction s with
  | nil => rfl
  | cons c s ih =>
      by_cases h : p c
      · rw [double_cons_of_pos h, List.countP_cons_of_pos (by simpa using h)]
        simp only [List.length_cons, ih]
        omega
      · rw [double_cons_of_neg h, List.countP_cons_of_neg (by simpa using h)]
        simp only [List.length_cons, ih]
        omega

theorem double_eq_self_iff {s : List α} : double p s = s ↔ ∀ c ∈ s, ¬ p c := by
  constructor
  · intro h c hc hp
    have hlen := congrArg List.length h
    rw [length_double] at hlen
    have hpos : 0 < s.countP fun c => p c := List.countP_pos_iff.mpr ⟨c, hc, by simpa using hp⟩
    omega
  · exact double_of_forall

/-- Elements outside of the class occur as often as before. -/
theorem countP_double {q : α → Bool} (h : ∀ c, p c → q c = false) (s : List α) :
    (double p s).countP q = s.countP q := by
  induction s with
  | nil => rfl
  | cons c s ih =>
      by_cases hp : p c
      · have hq : ¬ q c = true := by simp [h c hp]
        rw [double_cons_of_pos hp, List.countP_cons_of_neg hq, List.countP_cons_of_neg hq, ih,
          List.countP_cons_of_neg hq]
      · rw [double_cons_of_neg hp, List.countP_cons, List.countP_cons, ih]

/-- An element that is written twice occurs twice as often. -/
theorem count_double [DecidableEq α] [BEq α] [LawfulBEq α] (c : α) (s : List α) :
    (double (· = c) s).count c = 2 * s.count c := by
  induction s with
  | nil => rfl
  | cons d s ih =>
      rw [double_cons, List.count_append, ih]
      by_cases hd : d = c
      · subst hd
        rw [if_pos rfl, List.count_cons_self, List.count_cons_self, List.count_cons_self,
          List.count_nil]
        omega
      · rw [if_neg hd, List.count_cons_of_ne hd, List.count_cons_of_ne hd, List.count_nil,
          Nat.zero_add]

/-- Two classes are doubled in either order. -/
theorem double_comm {q : α → Prop} [DecidablePred q] (h : ∀ c, p c → ¬ q c) (s : List α) :
    double p (double q s) = double q (double p s) := by
  induction s with
  | nil => rfl
  | cons c s ih =>
      by_cases hp : p c
      · have hq := h c hp
        rw [double_cons_of_neg hq, double_cons_of_pos hp, double_cons_of_pos hp,
          double_cons_of_neg hq, double_cons_of_neg hq, ih]
      · by_cases hq : q c
        · rw [double_cons_of_pos hq, double_cons_of_neg hp, double_cons_of_neg hp,
            double_cons_of_neg hp, double_cons_of_pos hq, ih]
        · rw [double_cons_of_neg hq, double_cons_of_neg hp, double_cons_of_neg hp,
            double_cons_of_neg hq, ih]

end Doubling
