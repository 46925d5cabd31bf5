import Hpssix.World

/-!
# Hpssix.Watermark

The object id that a scan starts after, over whole runs of HPSS and the
scanner.

* `watermark_iff` — when the id behaves as a watermark: it is the largest
  `oid_end` recorded, it never falls, and the two readers of the master db
  agree on it;
* `every_object_above_watermark_listed` — an object that appears above the
  watermark in force is listed by the next successful round.
-/

namespace Hpssix

open CText Cursor Lite Rel Trace

namespace World

variable (site : Site) (o : Oid)

/-! ## new objects -/

/-- The object is in the fattr export of a recorded round. -/
def Listed (w : World) : Prop := ∃ q ∈ w.rounds, o ∈ q.files.fattr.map FattrRecord.objid

instance (w : World) : Decidable (w.Listed o) :=
  inferInstanceAs (Decidable (∃ q ∈ w.rounds, _))

/-- If a round runs now and the object exists, this round or an earlier one
lists it. -/
def ListedByRound (w : World) (e : Event) : Prop :=
  match e.act with
  | .round r => o ∈ w.hpss.oids → o ∈ (w.scan site r).fattr.map FattrRecord.objid ∨ w.Listed o
  | _ => True

/-- If the object appears now, its id is above the watermark. -/
def AppearsAbove (w : World) (e : Event) : Prop :=
  o ∉ w.hpss.oids → o ∈ (w.step site e).hpss.oids → (w.watermark site).toNat < o.val

instance (w : World) (e : Event) : Decidable (ListedByRound site o w e) :=
  match e with
  | ⟨_, .round _⟩ => inferInstanceAs (Decidable (_ → _ ∨ _))
  | ⟨_, .op _⟩ | ⟨_, .tagSet ..⟩ | ⟨_, .tagDel ..⟩ => inferInstanceAs (Decidable True)

instance (w : World) (e : Event) : Decidable (AppearsAbove site o w e) :=
  inferInstanceAs (Decidable (_ → _ → _))

variable {site o} {w : World} {e : Event} {r : RoundInput}

/-- A round lists every existing object above the watermark. -/
theorem mem_scan_of_above (ho : o ∈ w.hpss.oids) (hlast : (w.watermark site).toNat < o.val) :
    o ∈ (w.scan site r).fattr.map FattrRecord.objid := by
  refine mem_fattr.mpr ⟨ho, mem_sessionTemp_of_new ho ?_⟩
  rw [scanArgs_fst]
  exact hlast

/-- What the rounds so far guarantee for an object that exists. -/
def Covered (site : Site) (o : Oid) (w : World) : Prop :=
  w.Wf ∧ (o ∈ w.hpss.oids → w.Listed o ∨ (w.watermark site).toNat < o.val)

/-- One event keeps an object covered. -/
theorem covered_step (hc : Covered site o w) (ha : AppearsAbove site o w e) :
    Covered site o (w.step site e) := by
  obtain ⟨hw, hcov⟩ := hc
  refine ⟨wf_step hw, fun ho => ?_⟩
  have hstep : Stepped site w e (w.step site e) := stepped hw
  unfold AppearsAbove at ha
  generalize w.step site e = w' at hstep ha ho ⊢
  cases hstep with
  | hpss h op _ _ _ =>
      by_cases hold : o ∈ w.hpss.oids
      · exact hcov hold
      · exact .inr (ha hold ho)
  | recorded r _ _ =>
      have hlist : w.Listed o ∨ o ∈ (w.scan site r).fattr.map FattrRecord.objid :=
        (hcov ho).imp_right fun hlast => mem_scan_of_above ho hlast
      left
      obtain ⟨q, hq, hmem⟩ | hmem := hlist
      · exact ⟨q, List.mem_append_left _ hq, hmem⟩
      · exact ⟨_, List.mem_append_right _ (List.mem_singleton.mpr rfl), hmem⟩
  | idle r _ _ => exact hcov ho

/-- **New objects**: in every run, an object that only ever appears above the
watermark in force is listed, whenever it exists at the export of a round, by
that round or an earlier one. -/
theorem every_object_above_watermark_listed (site : Site) (o : Oid) (es : List Event)
    (ha : AllSteps (step site) (AppearsAbove site o) {} es) :
    AllSteps (step site) (ListedByRound site o) {} es := by
  have h0 : Covered site o {} := ⟨wf_init, fun ho => absurd ho List.not_mem_nil⟩
  refine ha.of_invariant h0 (fun w e => covered_step) fun w e hc _ => ?_
  unfold ListedByRound
  split
  · intro ho
    obtain hlist | hlast := hc.2 ho
    · exact .inr hlist
    · exact .inl (mem_scan_of_above ho hlast)
  · trivial

/-- Object 10 appears and is scanned; then object 5 appears. -/
def lateObjectRun : List Event :=
  [createOn 1 (.of 10) rootOid "a", roundOn 2, createOn 3 (.of 5) rootOid "b", roundOn 4]

/-- An object that appears below the watermark is not listed. -/
theorem late_object_not_listed :
    ¬ ∀ (site : Site) (o : Oid) (es : List Event), site.firstOid < o →
      AllSteps (step site) (ListedByRound site o) {} es :=
  fun h => absurd (h (utcSite (.of 2)) (.of 5) lateObjectRun (by decide)) (by decide)

/-- The other object of that run is listed. -/
theorem early_object_listed :
    AllSteps (step (utcSite (.of 2))) (AppearsAbove (utcSite (.of 2)) (.of 10)) {} lateObjectRun ∧
      AllSteps (step (utcSite (.of 2))) (ListedByRound (utcSite (.of 2)) (.of 10)) {}
        lateObjectRun :=
  ⟨by decide, every_object_above_watermark_listed _ _ _ (by decide)⟩

/-! ## the watermark itself -/

/-- What the watermark should be in a reached world: the configured first id
while nothing is recorded, afterwards the largest `oid_end` recorded; never
below what an earlier round was given; and what the other reader of the master
db reports. -/
structure WatermarkOk (site : Site) (w : World) : Prop where
  first : w.rounds = [] → w.watermark site = UInt64.ofNat site.firstOid.val
  attained : w.rounds ≠ [] → ∃ q ∈ w.rounds, endOid q.files.fattr = w.watermark site
  largest : ∀ q ∈ w.rounds, endOid q.files.fattr ≤ w.watermark site
  rising : ∀ q ∈ w.rounds, q.args.1 ≤ w.watermark site
  agree : mdbGetLastScannedOid (UInt64.ofNat site.firstOid.val) (answer (sqlLastOid w.mdb)) =
    some (.ok (w.watermark site))

/-- A round that is recorded exports an object at or above the watermark. -/
def ScanAdvances (site : Site) (w : World) (e : Event) : Prop :=
  match e.act with
  | .round r => w.Recorded site r → w.watermark site = 0 ∨
      ∃ f ∈ (w.scan site r).fattr, (w.watermark site).toNat ≤ f.objid.val
  | _ => True

instance (w : World) (e : Event) : Decidable (ScanAdvances site w e) :=
  match e with
  | ⟨_, .round r⟩ => inferInstanceAs (Decidable (w.Recorded site r → w.watermark site = 0 ∨
      ∃ f ∈ (w.scan site r).fattr, (w.watermark site).toNat ≤ f.objid.val))
  | ⟨_, .op _⟩ | ⟨_, .tagSet ..⟩ | ⟨_, .tagDel ..⟩ => inferInstanceAs (Decidable True)

theorem toNat_endOid (fattr : List FattrRecord) :
    (endOid fattr).toNat = match fattr.getLast? with
      | some f => f.objid.val
      | none => 0 := by
  unfold endOid
  cases fattr.getLast? with
  | none => rfl
  | some f => exact UInt64.toNat_ofNat_of_lt' (f.objid.isLt.trans (by decide))

theorem toNat_endOid_lt (fattr : List FattrRecord) : (endOid fattr).toNat < 2 ^ 63 := by
  rw [toNat_endOid]
  split
  · next f _ => exact f.objid.isLt
  · decide

/-- The `oid_end` of a round reaches the watermark exactly if some exported
object does. -/
theorem watermark_le_endOid : w.watermark site ≤ endOid (w.scan site r).fattr ↔
    w.watermark site = 0 ∨
      ∃ f ∈ (w.scan site r).fattr, (w.watermark site).toNat ≤ f.objid.val := by
  rw [UInt64.le_iff_toNat_le, toNat_endOid]
  constructor
  · intro h
    cases hlast : (w.scan site r).fattr.getLast? with
    | none =>
        rw [hlast] at h
        exact .inl (UInt64.toNat_inj.mp (Nat.le_zero.mp h))
    | some f =>
        rw [hlast] at h
        exact .inr ⟨f, List.mem_of_getLast? hlast, h⟩
  · rintro (h | ⟨f, hf, hle⟩)
    · simp [h]
    · obtain ⟨l, hlast⟩ : ∃ l, (w.scan site r).fattr.getLast? = some l :=
        Option.isSome_iff_exists.mp (by simpa using List.ne_nil_of_mem hf)
      obtain ⟨ho, ht⟩ := mem_fattr.mp (List.mem_map_of_mem hf)
      have hmax := le_last_fattr hlast ho ht
      rw [hlast]
      exact Nat.le_trans hle hmax

section Zero
variable (h0 : site.firstOid.val = 0)
include h0

/-- From the first id 0 on, the watermark is the `oid_end` of the last recorded
round. -/
theorem watermark_eq (hw : w.Wf) : w.watermark site =
    match w.rounds.getLast? with
    | some q => endOid q.files.fattr
    | none => 0 := by
  rw [watermark, lastStatus_eq hw, h0]
  cases w.rounds.getLast? with
  | none => rfl
  | some q =>
      show (if endOid q.files.fattr = 0 then (0 : UInt64) else _) = _
      split
      · next h => exact h.symm
      · rfl

/-- The invariant of a run whose scans advance. -/
def Rising (site : Site) (w : World) : Prop :=
  w.Wf ∧ ∀ q ∈ w.rounds, endOid q.files.fattr ≤ w.watermark site ∧ q.args.1 ≤ w.watermark site

theorem rising_step (hr : Rising site w) (ha : ScanAdvances site w e) :
    Rising site (w.step site e) := by
  obtain ⟨hw, hle⟩ := hr
  have hw' : (w.step site e).Wf := wf_step hw
  have hstep : Stepped site w e (w.step site e) := stepped hw
  generalize w.step site e = w' at hstep hw' ⊢
  refine ⟨hw', ?_⟩
  cases hstep with
  | hpss h op _ _ _ => exact hle
  | idle r _ _ => exact hle
  | recorded r hact hrec =>
      have hadv : w.watermark site ≤ endOid (w.scan site r).fattr := by
        unfold ScanAdvances at ha
        rw [hact] at ha
        exact watermark_le_endOid.mpr (ha hrec)
      have hnew : watermark site { w.record site e.time r with now := e.time } =
          endOid (w.scan site r).fattr := by
        rw [watermark_eq h0 hw']
        simp [record]
      intro q hq
      rw [hnew]
      obtain hq | hq := List.mem_append.mp hq
      · exact ⟨UInt64.le_trans (hle q hq).1 hadv, UInt64.le_trans (hle q hq).2 hadv⟩
      · rw [List.mem_singleton.mp hq]
        refine ⟨UInt64.le_refl _, ?_⟩
        show (w.scanArgs site r).1 ≤ _
        rw [scanArgs_fst]
        exact hadv

/-- Under the invariant the aggregate query finds the watermark. -/
theorem lastOid_of_rising (hr : Rising site w) : lastOid w.mdb = w.watermark site := by
  obtain ⟨hw, hle⟩ := hr
  have hends : (finished w.mdb).map MdbRow.oidEnd =
      w.rounds.map fun q => bindInt64 (endOid q.files.fattr) := by
    simpa [Function.comp_def] using congrArg (List.map Prod.fst) hw.log
  rw [lastOid, hends]
  cases hlast : w.rounds.getLast? with
  | none =>
      rw [watermark_eq h0 hw, hlast, List.getLast?_eq_none_iff.mp hlast]
      rfl
  | some q =>
      have hq := List.mem_of_getLast? hlast
      have hmark : w.watermark site = endOid q.files.fattr := by rw [watermark_eq h0 hw, hlast]
      have hmax : (w.rounds.map fun q => bindInt64 (endOid q.files.fattr)).max? =
          some (bindInt64 (endOid q.files.fattr)) := by
        refine List.max?_eq_some_iff.mpr ⟨List.mem_map_of_mem hq, fun b hb => ?_⟩
        obtain ⟨x, hx, rfl⟩ := List.mem_map.mp hb
        have hxq := (hle x hx).1
        rw [hmark, UInt64.le_iff_toNat_le] at hxq
        rw [bindInt64_of_lt (toNat_endOid_lt _), bindInt64_of_lt (toNat_endOid_lt _)]
        exact Int.ofNat_le.mpr hxq
      rw [hmax, hmark]
      simp

theorem watermarkOk_of_rising (hr : Rising site w) : WatermarkOk site w where
  first := fun h => by rw [watermark_eq h0 hr.1, h, h0]; rfl
  attained := fun h => by
    obtain ⟨q, hq⟩ := List.getLast?_isSome.mpr h |> Option.isSome_iff_exists.mp
    exact ⟨q, List.mem_of_getLast? hq, by rw [watermark_eq h0 hr.1, hq]⟩
  largest := fun q hq => (hr.2 q hq).1
  rising := fun q hq => (hr.2 q hq).2
  agree := by rw [mdbGetLastScannedOid_answer, lastOid_of_rising h0 hr]

end Zero

/-- **The watermark**: in every world that a run reaches the watermark is as it
should be, exactly if the configured first id is 0 and every recorded round of
the run exports an object at or above the watermark it was given. -/
theorem watermark_iff (site : Site) (es : List Event) :
    (∀ pre, pre <+: es → WatermarkOk site (run (step site) {} pre)) ↔
      site.firstOid.val = 0 ∧ AllSteps (step site) (ScanAdvances site) {} es := by
  constructor
  · intro hall
    have hinit := (hall [] List.nil_prefix).agree
    have h0 : site.firstOid.val = 0 := by
      have hz : (0 : UInt64) = UInt64.ofNat site.firstOid.val := by
        rw [mdbGetLastScannedOid_answer] at hinit
        have hcol : columnInt64 0 = 0 := rfl
        simpa [lastOid, finished, watermark, lastStatus, hcol] using hinit
      have := congrArg UInt64.toNat hz
      rw [UInt64.toNat_ofNat_of_lt' (site.firstOid.isLt.trans (by decide))] at this
      exact this.symm
    refine ⟨h0, allSteps_iff.mpr fun pre e post hes => ?_⟩
    have hw : (run (step site) {} pre).Wf := wf_run pre
    have hafter := hall (pre ++ [e]) ⟨post, by rw [hes]; simp⟩
    rw [run_append, run_cons, run_nil] at hafter
    generalize run (step site) {} pre = w at hw hafter ⊢
    unfold ScanAdvances
    split
    · next r hact =>
        intro hrec
        have hstep : Stepped site w e (w.step site e) := stepped hw
        have hw' : (w.step site e).Wf := wf_step hw
        generalize w.step site e = w' at hstep hw' hafter
        cases hstep with
        | hpss h op ha _ _ => exact absurd hact (ha r)
        | idle r' ha hidle =>
            rw [hact, Act.round.injEq] at ha
            exact absurd (ha ▸ hrec) hidle
        | recorded r' ha _ =>
            rw [hact, Act.round.injEq] at ha
            subst ha
            have hlast : watermark site { w.record site e.time r with now := e.time } =
                endOid (w.scan site r).fattr := by
              rw [watermark_eq h0 hw']
              simp [record]
            have hle := hafter.rising ⟨r.start, e.time, w.scanArgs site r, w.scan site r⟩
              (List.mem_append_right _ (List.mem_singleton.mpr rfl))
            rw [hlast, scanArgs_fst] at hle
            exact watermark_le_endOid.mp hle
    · trivial
  · rintro ⟨h0, hadv⟩ pre hpre
    have hinit : Rising site {} := ⟨wf_init, fun q hq => absurd hq List.not_mem_nil⟩
    exact watermarkOk_of_rising h0
      (invariant_at hinit hadv (fun w e => rising_step h0) hpre)

/-- Two objects are scanned; then only the older one changes. -/
def updateOnlyRun : List Event :=
  [createOn 1 (.of 5) rootOid "a", createOn 1 (.of 10) rootOid "b", roundOn 2,
    ⟨dayTime 3, .op (.chattr (.of 5) none none none (some 7) none)⟩, roundOn 4]

/-- A round that exports only an update lowers the watermark. -/
theorem update_only_round_lowers_watermark :
    ¬ ∀ (site : Site) (es pre : List Event), pre <+: es →
      WatermarkOk site (run (step site) {} pre) :=
  fun h => absurd (h (utcSite (.of 2)) updateOnlyRun _ (List.prefix_refl _)).rising (by decide)

end World

end Hpssix
