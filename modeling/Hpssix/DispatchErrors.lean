import Hpssix.Extractor

/-!
# Hpssix.DispatchErrors

`hpssix_workdata_dispatch` with everything that can fail in it: the bindings,
each call of `sqlite3_step`, and the memory for the list and for each path.

The copying loop ends on whatever is not a row.  A failure of a later step is
therefore not told apart from the end of the data, and the rows copied so far
are handed out as the whole window (`dispatch_contract_iff`).
-/

namespace Hpssix

open CText Cursor Rel

/-! ## the function -/

/-- The error number of a failed allocation. -/
def errNoMem : Nat := 12

/-- What a dispatch meets: whether the bindings succeed, how each call of
`sqlite3_step` goes, whether there is memory for the list and for the path of
each row. -/
structure DispatchEnv where
  bind : Bool := true
  steps : List Verdict
  calloc : Bool := true
  strdup : Nat → Bool := fun _ => true

/-- The fetch with bindings of 64 bits: sqlite reads a value from 2^63 on as a
negative one, which is offset 0 and, for a count, no limit. -/
def sqlFetchBound (offset count : Nat) (t : List WorkRow) : List (Int64 × Text) :=
  sqlFetch (if offset < 2 ^ 63 then offset else 0) (if count < 2 ^ 63 then count else t.length) t

/-- `calloc(count, sizeof(*object_list))`: no memory, or a size that overflows. -/
def DispatchEnv.callocFails (env : DispatchEnv) (count : Nat) : Bool :=
  !env.calloc || decide (2 ^ 64 ≤ count * 16)

/-- The copying loop with the row at hand, the `n`-th; `none` if a path cannot be
copied. -/
def copyObjects (strdup : Nat → Bool) (n : Nat) (r : Int64 × Text) :
    List (Rc (Int64 × Text)) → Option (List WorkObject)
  | .row r' :: steps =>
      if strdup n then (copyObjects strdup (n + 1) r' steps).map (readObject r :: ·) else none
  | _ => if strdup n then some [readObject r] else none

/-- `hpssix_workdata_dispatch`: the return value and the list after it. -/
def hpssixWorkdataDispatch (env : DispatchEnv) (t : List WorkRow) (list : Worklist) :
    Option (Nat × Worklist) :=
  if !env.bind then some (errIo, list)
  else
    match stepBusy (deliver env.steps (sqlFetchBound list.offset list.count t)) with
    | none => none
    | some (.row r, rest) =>
        if env.callocFails list.count then some (errNoMem, list)
        else
          match copyObjects env.strdup 0 r rest with
          | none => some (errNoMem, list)
          | some objects =>
              some (0, { list with objectList := objects, count := objects.length })
    | some _ => some (errIo, list)

/-! ## the calls it makes -/

/-- The results that the copying loop gets, with `n` rows before the one at hand. -/
def copyCalls (strdup : Nat → Bool) (n : Nat) :
    List (Rc (Int64 × Text)) → List (Rc (Int64 × Text))
  | .row r :: steps => if strdup n then .row r :: copyCalls strdup (n + 1) steps else []
  | rc :: _ => if strdup n then [rc] else []
  | [] => []

/-- The results of the calls of `sqlite3_step`, in order: those that are waited out,
the first other one, and after a row those of the copying loop. -/
def stepCalls (env : DispatchEnv) (count : Nat) :
    List (Rc (Int64 × Text)) → List (Rc (Int64 × Text))
  | .busy :: steps => .busy :: stepCalls env count steps
  | .row r :: steps =>
      .row r :: if env.callocFails count then [] else copyCalls env.strdup 0 steps
  | rc :: _ => [rc]
  | [] => []

/-- The calls of a dispatch: none if the bindings fail. -/
def dispatchCalls (env : DispatchEnv) (t : List WorkRow) (list : Worklist) :
    List (Rc (Int64 × Text)) :=
  if !env.bind then []
  else stepCalls env list.count (deliver env.steps (sqlFetchBound list.offset list.count t))

/-! ## the copying loop -/

/-- The loop copies the row at hand and the rows of the steps that succeed after it. -/
theorem fetchObjects_deliver (r : Int64 × Text) (vs : List Verdict) (rows : List (Int64 × Text)) :
    fetchObjects r (deliver vs rows) =
      (r :: rows.take (vs.takeWhile fun v => v = .ok).length).map readObject := by
  induction vs generalizing r rows with
  | nil => simp [deliver, fetchObjects]
  | cons v vs ih =>
      cases v with
      | ok =>
          cases rows with
          | nil => simp [deliver, fetchObjects]
          | cons r' rows => simp [deliver, fetchObjects, ih]
      | busy => simp [deliver, fetchObjects]
      | error => simp [deliver, fetchObjects]

/-- The rows are copied unless the memory for a path is missing. -/
theorem copyObjects_eq (strdup : Nat → Bool) (n : Nat) (r : Int64 × Text)
    (steps : List (Rc (Int64 × Text))) :
    copyObjects strdup n r steps =
      if ∀ i < (fetchObjects r steps).length, strdup (n + i) then some (fetchObjects r steps)
      else none := by
  induction steps generalizing n r with
  | nil => simp [copyObjects, fetchObjects]
  | cons rc steps ih =>
      cases rc with
      | row r' =>
          simp only [copyObjects, fetchObjects, ih, List.length_cons, Nat.forall_lt_succ_left,
            Nat.add_zero]
          have hshift : ∀ i, n + 1 + i = n + (i + 1) := fun i => by omega
          simp only [hshift]
          by_cases hn : strdup n = true
          · by_cases hall : ∀ i < (fetchObjects r' steps).length, strdup (n + (i + 1)) = true
            · rw [if_pos hn, if_pos hall, if_pos (And.intro hn hall), Option.map_some]
            · simp only [hn, if_true, if_neg hall, Option.map_none, true_and]
          · simp [hn]
      | done => simp [copyObjects, fetchObjects]
      | busy => simp [copyObjects, fetchObjects]
      | error => simp [copyObjects, fetchObjects]

/-- The verdicts that are left after the wait. -/
def waited (vs : List Verdict) : List Verdict := vs.dropWhile fun v => v = .busy

/-- How many calls in a row succeed. -/
def okLength (vs : List Verdict) : Nat := (vs.takeWhile fun v => v = .ok).length

theorem okSteps_eq (vs : List Verdict) : okSteps vs = okLength (waited vs) := rfl

theorem getElem?_of_lt_okLength {vs : List Verdict} {i : Nat} (h : i < okLength vs) :
    vs[i]? = some .ok := by
  induction vs generalizing i with
  | nil => simp [okLength] at h
  | cons v vs ih =>
      cases v with
      | ok =>
          cases i with
          | zero => rfl
          | succ i => exact ih (by simpa [okLength] using h)
      | busy => simp [okLength] at h
      | error => simp [okLength] at h

/-- A loop that copies everything it gets sees an error exactly when one comes before
the end of the data is told. -/
theorem error_mem_copyCalls_iff {strdup : Nat → Bool} {n : Nat} {r : Int64 × Text}
    {vs : List Verdict} {rows : List (Int64 × Text)}
    (hdup : ∀ i < (fetchObjects r (deliver vs rows)).length, strdup (n + i)) :
    .error ∈ copyCalls strdup n (deliver vs rows) ↔
      okLength vs ≤ rows.length ∧ vs[okLength vs]? = some .error := by
  induction vs generalizing n r rows with
  | nil => simp [deliver, copyCalls]
  | cons v vs ih =>
      have hn : strdup n = true := hdup 0 (by cases v <;> cases rows <;> simp [deliver, fetchObjects])
      cases v with
      | ok =>
          cases rows with
          | nil => simp [deliver, copyCalls, hn, okLength]
          | cons r' rows =>
              have hdup' : ∀ i < (fetchObjects r' (deliver vs rows)).length, strdup (n + 1 + i) := by
                intro i hi
                have := hdup (i + 1) (by simpa [deliver, fetchObjects] using hi)
                rwa [show n + 1 + i = n + (i + 1) by omega]
              have hrest := ih hdup'
              simpa [deliver, copyCalls, hn, okLength] using hrest
      | busy => simp [deliver, copyCalls, hn, okLength]
      | error => simp [deliver, copyCalls, hn, okLength]

/-! ## the whole call -/

theorem stepBusy_deliver_waited (vs : List Verdict) (rows : List (Int64 × Text)) :
    stepBusy (deliver vs rows) = stepBusy (deliver (waited vs) rows) := by
  induction vs with
  | nil => rfl
  | cons v vs ih => cases v <;> simp_all [deliver, stepBusy, waited]

theorem error_mem_stepCalls_waited (env : DispatchEnv) (count : Nat) (vs : List Verdict)
    (rows : List (Int64 × Text)) :
    .error ∈ stepCalls env count (deliver vs rows) ↔
      .error ∈ stepCalls env count (deliver (waited vs) rows) := by
  induction vs with
  | nil => rfl
  | cons v vs ih => cases v <;> simp_all [deliver, stepCalls, waited]

theorem firstVerdict_eq_head? (vs : List Verdict) : firstVerdict vs = (waited vs).head? := by
  induction vs with
  | nil => rfl
  | cons v vs ih => cases v <;> simp_all [firstVerdict, waited]

/-- A window has the rows that it asks for, as far as there are any. -/
theorem length_sqlFetch (offset count : Nat) (t : List WorkRow) :
    (sqlFetch offset count t).length = min count (t.length - offset) := by
  simp [sqlFetch, limit]

/-- A count that `calloc` can serve is no negative number to sqlite. -/
theorem length_sqlFetchBound {env : DispatchEnv} {count : Nat} (h : env.callocFails count = false)
    (offset : Nat) (t : List WorkRow) :
    (sqlFetchBound offset count t).length =
      min count (t.length - if offset < 2 ^ 63 then offset else 0) := by
  have hcount : count < 2 ^ 63 := by
    simp only [DispatchEnv.callocFails, Bool.or_eq_false_iff, decide_eq_false_iff_not] at h
    omega
  rw [sqlFetchBound, length_sqlFetch, if_pos hcount]

/-- The call ends before it has a list: a binding is refused, there is no row, the first
step fails, or there is no memory for the list or for the path of a row that is read. -/
def DispatchEnv.Refused (env : DispatchEnv) (rows : List (Int64 × Text)) (count : Nat) : Prop :=
  env.bind = false ∨ rows = [] ∨ firstVerdict env.steps = some .error ∨
    env.callocFails count = true ∨
    ∃ i < min rows.length (okSteps env.steps), env.strdup i = false

section Dispatch
variable {env : DispatchEnv} {t : List WorkRow} {list list' : Worklist} {ret : Nat}

/-- A dispatch that returns either refuses and leaves the list alone, or hands out the rows of
its window up to the first step that does not succeed. -/
theorem dispatch_cases (h : hpssixWorkdataDispatch env t list = some (ret, list')) :
    (env.Refused (sqlFetchBound list.offset list.count t) list.count ∧ ret ≠ 0 ∧ list' = list) ∨
      (¬ env.Refused (sqlFetchBound list.offset list.count t) list.count ∧ ret = 0 ∧
        list'.objectList.length = list'.count ∧ 0 < list'.count ∧
        list'.count = min (sqlFetchBound list.offset list.count t).length (okSteps env.steps) ∧
        list'.objectList =
          ((sqlFetchBound list.offset list.count t).take (okSteps env.steps)).map readObject ∧
        (.error ∈ dispatchCalls env t list ↔
          okSteps env.steps ≤ (sqlFetchBound list.offset list.count t).length ∧
            (waited env.steps)[okSteps env.steps]? = some .error)) := by
  have hbusy : (waited env.steps).head? ≠ some .busy := by
    rw [← firstVerdict_eq_head?]
    exact firstVerdict_ne_busy
  unfold hpssixWorkdataDispatch at h
  unfold DispatchEnv.Refused dispatchCalls
  generalize sqlFetchBound list.offset list.count t = rows at h ⊢
  rw [firstVerdict_eq_head?, okSteps_eq]
  cases hbind : env.bind with
  | false =>
      simp only [hbind, Bool.not_false, if_true, Option.some.injEq, Prod.mk.injEq] at h
      exact .inl ⟨.inl rfl, by simp [← h.1, errIo], h.2.symm⟩
  | true =>
      simp only [hbind, Bool.not_true, Bool.false_eq_true, if_false] at h ⊢
      rw [stepBusy_deliver_waited] at h
      rw [error_mem_stepCalls_waited]
      generalize waited env.steps = w at h hbusy ⊢
      cases w with
      | nil => simp [deliver, stepBusy] at h
      | cons v vs =>
          cases v with
          | busy => exact absurd rfl hbusy
          | error =>
              simp only [deliver, stepBusy, Option.some.injEq, Prod.mk.injEq] at h
              exact .inl ⟨.inr (.inr (.inl rfl)), by simp [← h.1, errIo], h.2.symm⟩
          | ok =>
              cases rows with
              | nil =>
                  simp only [deliver, stepBusy, Option.some.injEq, Prod.mk.injEq] at h
                  exact .inl ⟨.inr (.inl rfl), by simp [← h.1, errIo], h.2.symm⟩
              | cons r rest =>
                  simp only [deliver, stepBusy, copyObjects_eq] at h
                  cases hcalloc : env.callocFails list.count with
                  | true =>
                      simp only [hcalloc, if_true, Option.some.injEq, Prod.mk.injEq] at h
                      exact .inl ⟨.inr (.inr (.inr (.inl rfl))), by simp [← h.1, errNoMem], h.2.symm⟩
                  | false =>
                      simp only [hcalloc, Bool.false_eq_true, if_false] at h
                      have hlen : (fetchObjects r (deliver vs rest)).length =
                          min (rest.length + 1) (okLength (.ok :: vs)) := by
                        simp [fetchObjects_deliver, okLength, Nat.min_comm]
                      by_cases hdup : ∀ i < (fetchObjects r (deliver vs rest)).length, env.strdup (0 + i)
                      · rw [if_pos hdup] at h
                        simp only [Option.some.injEq, Prod.mk.injEq] at h
                        obtain ⟨hret, rfl⟩ := h
                        refine .inr ⟨?_, hret.symm, rfl, by simp [fetchObjects_deliver], hlen,
                          by simp [fetchObjects_deliver, okLength], ?_⟩
                        · rintro (h | h | h | h | ⟨i, hi, hfail⟩)
                          · cases h
                          · cases h
                          · cases h
                          · cases h
                          · have := hdup i (by rw [hlen]; exact hi)
                            rw [Nat.zero_add, hfail] at this
                            cases this
                        · simp only [deliver, stepCalls, hcalloc, Bool.false_eq_true, if_false]
                          have := error_mem_copyCalls_iff hdup
                          simpa [okLength] using this
                      · rw [if_neg hdup] at h
                        simp only [Option.some.injEq, Prod.mk.injEq] at h
                        refine .inl ⟨.inr (.inr (.inr (.inr ?_))), by simp [← h.1, errNoMem], h.2.symm⟩
                        simpa [hlen, and_assoc] using hdup

/-- **Dispatch and failing steps**: a dispatch reports every failing step and never
returns fewer rows than its window has, exactly when it is refused or its window is read
to the end. -/
theorem dispatch_contract_iff (ht : t.length < 2 ^ 63)
    (h : hpssixWorkdataDispatch env t list = some (ret, list')) :
    ((.error ∈ dispatchCalls env t list → ret ≠ 0 ∧ list' = list) ∧
      (ret = 0 → list'.objectList.length = list'.count ∧
        list'.count = min list.count (t.length - list.offset))) ↔
    env.Refused (sqlFetchBound list.offset list.count t) list.count ∨
      list.offset < 2 ^ 63 ∧
        (sqlFetchBound list.offset list.count t).length ≤ okSteps env.steps ∧
        (waited env.steps)[(sqlFetchBound list.offset list.count t).length]? ≠ some .error := by
  obtain ⟨hrefused, hret, hlist⟩ | ⟨hnot, hret, hlen, hpos, hcount, -, herror⟩ := dispatch_cases h
  · exact iff_of_true ⟨fun _ => ⟨hret, hlist⟩, fun h0 => absurd h0 hret⟩ (.inl hrefused)
  · have hcalloc : env.callocFails list.count = false := by
      simpa using fun hc => hnot (.inr (.inr (.inr (.inl hc))))
    have hwindow := length_sqlFetchBound hcalloc list.offset t
    generalize (sqlFetchBound list.offset list.count t).length = n at hcount herror hwindow ⊢
    have hok : n < okSteps env.steps → (waited env.steps)[n]? = some .ok := getElem?_of_lt_okLength
    simp only [hret, ne_eq, not_true_eq_false, false_and, imp_false, true_imp_iff, herror, hlen,
      hcount, true_and, hnot, false_or]
    rw [hcount] at hpos
    by_cases hoffset : list.offset < 2 ^ 63
    · rw [if_pos hoffset] at hwindow
      rw [← hwindow, and_iff_right hoffset]
      obtain hlt | heq | hgt := Nat.lt_trichotomy n (okSteps env.steps)
      · have hgo := hok hlt
        simp only [hgo]
        grind
      · simp [← heq]
      · simp only [Nat.min_eq_right (Nat.le_of_lt hgt)]
        omega
    · rw [if_neg hoffset] at hwindow
      simp only [hoffset, false_and, iff_false, not_and]
      omega

/-- With memory and bindings, and values below 2^63, a dispatch is `workdataDispatch`. -/
theorem hpssixWorkdataDispatch_eq (hbind : env.bind = true) (hdup : ∀ i, env.strdup i = true)
    (hcalloc : env.callocFails list.count = false) (hoffset : list.offset < 2 ^ 63) :
    hpssixWorkdataDispatch env t list =
      workdataDispatch (deliver env.steps (sqlFetch list.offset list.count t)) list := by
  have hcount : list.count < 2 ^ 63 := by
    simp only [DispatchEnv.callocFails, Bool.or_eq_false_iff, decide_eq_false_iff_not] at hcalloc
    omega
  unfold hpssixWorkdataDispatch workdataDispatch
  simp only [hbind, Bool.not_true, Bool.false_eq_true, if_false, sqlFetchBound, if_pos hoffset,
    if_pos hcount]
  cases hstep : stepBusy (deliver env.steps (sqlFetch list.offset list.count t)) with
  | none => rfl
  | some p =>
      obtain ⟨rc, rest⟩ := p
      cases rc with
      | busy => rfl
      | error => rfl
      | done => rfl
      | row =>
          simp only [hcalloc, copyObjects_eq, hdup, implies_true, if_true, Bool.false_eq_true,
            if_false]

end Dispatch

/-- Two rows, all of them fetched. -/
theorem dispatch_contract_iff_two :
    ((.error ∈ dispatchCalls { steps := [.busy, .ok, .ok, .ok] }
          [⟨1, 7, "/a".toList⟩, ⟨2, 8, "/b".toList⟩] { offset := 0, count := 2 } →
        0 ≠ 0 ∧ (⟨0, 2, [⟨7, "/a".toList⟩, ⟨8, "/b".toList⟩]⟩ : Worklist) =
          { offset := 0, count := 2 }) ∧
      (0 = 0 → 2 = 2 ∧ 2 = min 2 (2 - 0))) ↔
    DispatchEnv.Refused { steps := [.busy, .ok, .ok, .ok] }
        (sqlFetchBound 0 2 [⟨1, 7, "/a".toList⟩, ⟨2, 8, "/b".toList⟩]) 2 ∨
      0 < 2 ^ 63 ∧
        (sqlFetchBound 0 2 [⟨1, 7, "/a".toList⟩, ⟨2, 8, "/b".toList⟩]).length ≤
          okSteps [.busy, .ok, .ok, .ok] ∧
        (waited [.busy, .ok, .ok, .ok])[(sqlFetchBound 0 2
          [⟨1, 7, "/a".toList⟩, ⟨2, 8, "/b".toList⟩]).length]? ≠ some .error :=
  @dispatch_contract_iff { steps := [.busy, .ok, .ok, .ok] }
    [⟨1, 7, "/a".toList⟩, ⟨2, 8, "/b".toList⟩] { offset := 0, count := 2 }
    ⟨0, 2, [⟨7, "/a".toList⟩, ⟨8, "/b".toList⟩]⟩ 0 (by decide) rfl

/-- A second step that fails: one of the two rows, handed out as all. -/
theorem dispatch_truncated :
    hpssixWorkdataDispatch { steps := [.ok, .error] }
        [⟨1, 7, "/a".toList⟩, ⟨2, 8, "/b".toList⟩] { offset := 0, count := 2 } =
      some (0, ⟨0, 1, [⟨7, "/a".toList⟩]⟩) ∧
    Rc.error ∈ dispatchCalls { steps := [.ok, .error] }
      [⟨1, 7, "/a".toList⟩, ⟨2, 8, "/b".toList⟩] { offset := 0, count := 2 } := by
  refine ⟨rfl, ?_⟩
  have hcalls : dispatchCalls { steps := [.ok, .error] }
      [⟨1, 7, "/a".toList⟩, ⟨2, 8, "/b".toList⟩] { offset := 0, count := 2 } =
        [.row (7, "/a".toList), .error] := rfl
  rw [hcalls]
  exact List.mem_cons_of_mem _ (List.mem_singleton.mpr rfl)

end Hpssix
