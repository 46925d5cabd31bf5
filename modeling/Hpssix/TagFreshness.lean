import Hpssix.Index

/-!
# Hpssix.TagFreshness

The attribute rows in the index against the attributes in HPSS, over whole runs
of tag commands, other operations and rounds.

`hpssix-tag set` ends with a `utime`, which makes the next round select the
file; `hpssix-tag del` does not.  And an object is cleared of its old rows only
if the export has a document for it, which it has not once its last attribute
is gone.

* `tags_fresh_iff` — after every round the rows of a live indexed object are its
  attributes, exactly if each round carries them;
* `removed_tag_stays` — an untouched run in which a removed tag stays.
-/

namespace Hpssix

open CText Rel Trace

namespace World

variable (site : Site) (tr : Transport) (o : Oid)

/-- The object's attribute rows are its attributes. -/
def TagsCurrent (h : Hpss) (db : Db) : Prop :=
  (db.tags o).Perm ((h.attrs o).map fun a => (some a.1, some a.2))

instance (h : Hpss) (db : Db) : Decidable (TagsCurrent o h db) :=
  inferInstanceAs (Decidable (List.Perm _ _))

/-- After the round, the rows of the object, if it is live and indexed, are
current. -/
def TagsFresh (s : Watch) (e : Event) : Prop :=
  match e.act with
  | .round _ => ∀ db, (s.step site o e).world.index tr = some db →
      o ∈ (s.step site o e).world.hpss.oids → db.HasObject o →
        TagsCurrent o (s.step site o e).world.hpss db
  | _ => True

/-- A round selects the object if it was created or touched since the round
before. -/
def SelectsTouched (s : Watch) (e : Event) : Prop :=
  match e.act with
  | .round r => s.touched = true → o ∈ s.world.hpss.oids →
      o ∈ (s.world.scan site r).fattr.map FattrRecord.objid
  | _ => True

/-- The steps of a run of successful rounds, of which each sees what was
touched. -/
def Successful (s : Watch) (e : Event) : Prop :=
  WellTimed s.world e ∧ ((s.step site o e).world.index tr).isSome ∧ SelectsTouched site o s e

/-- The round carries the object's attributes over: if it selects the object, the
values survive the transport, and an object without attributes has no rows to
lose; if it does not, the object lost no tag since it was last selected. -/
def TagsCarried (s : Watch) (e : Event) : Prop :=
  match e.act with
  | .round r => ∀ db, s.world.index tr = some db → o ∈ s.world.hpss.oids →
      if o ∈ (s.world.scan site r).fattr.map FattrRecord.objid then
        (∀ a ∈ s.world.hpss.attrs o, tr.sval a.2 = some a.2) ∧
          (s.world.hpss.attrs o = [] → db.tags o = [])
      else db.HasObject o → s.untagged = false
  | _ => True

instance (s : Watch) (e : Event) : Decidable (SelectsTouched site o s e) :=
  match e with
  | ⟨_, .round _⟩ => inferInstanceAs (Decidable (_ → _ → _))
  | ⟨_, .op _⟩ | ⟨_, .tagSet ..⟩ | ⟨_, .tagDel ..⟩ => inferInstanceAs (Decidable True)

instance (s : Watch) (e : Event) : Decidable (Successful site tr o s e) :=
  inferInstanceAs (Decidable (_ ∧ _ ∧ _))

variable {site tr o} {w : World} {e : Event} {r : RoundInput} {s : Watch}

/-! ## one round -/

/-- The xattr export has the attributes of the selected objects that have some. -/
theorem mem_xattr (hw : w.hpss.AttrsOk) (ho : o ∈ w.hpss.oids) {attrs : Attrs} :
    (o, attrs) ∈ (w.scan site r).xattr ↔
      o ∈ (w.scan site r).fattr.map FattrRecord.objid ∧ w.hpss.attrs o = attrs ∧ attrs ≠ [] := by
  simp only [scan, scanFiles, mem_fattr, sqlXattr, List.mem_filter, decide_eq_true_eq, ho, true_and]
  constructor
  · rintro ⟨hmem, htemp, hne⟩
    exact ⟨htemp, hw.mem hmem, hne⟩
  · rintro ⟨htemp, rfl, hne⟩
    exact ⟨Hpss.mem_of_attrs_ne_nil hne, htemp, hne⟩

/-- What a round does to the rows of a live object. -/
theorem round_tags (hi : IndexInv tr w) (hact : e.act = .round r) (ho : o ∈ w.hpss.oids) {db' : Db}
    (hdb' : (w.step site e).index tr = some db') :
    ∃ db, w.index tr = some db ∧
      (db'.HasObject o ↔ o ∈ (w.scan site r).fattr.map FattrRecord.objid ∨ db.HasObject o) ∧
      if o ∈ (w.scan site r).fattr.map FattrRecord.objid ∧ w.hpss.attrs o ≠ [] then
        db'.tags o = (w.hpss.attrs o).map fun a => (some a.1, tr.sval a.2)
      else db'.tags o = db.tags o := by
  have hstep : Stepped site w e (w.step site e) := stepped hi.timed.wf
  generalize w.step site e = w' at hstep hdb'
  cases hstep with
  | hpss h op ha _ _ => exact absurd hact (ha r)
  | idle r' ha hidle =>
      rw [hact, Act.round.injEq] at ha
      subst ha
      have hnil : (w.scan site r).fattr = [] := by
        by_contra hne
        exact hidle (.inl hne)
      exact ⟨db', hdb', by simp [hnil], by simp [hnil]⟩
  | recorded r' ha _ =>
      rw [hact, Act.round.injEq] at ha
      subst ha
      obtain ⟨db, hdb, heff⟩ := hi.batch hdb' o
      refine ⟨db, hdb, heff.hasObject, ?_⟩
      split
      · next h => exact heff.tags _ ((mem_xattr hi.attrs ho).mpr ⟨h.1, rfl, h.2⟩)
      · next h =>
          refine heff.tags_eq (fun hmem => h ?_) ((hi.index db hdb).named o)
          obtain ⟨⟨x, attrs⟩, hx, rfl⟩ := List.mem_map.mp hmem
          obtain ⟨hlist, heq, hne⟩ := (mem_xattr hi.attrs ho).mp hx
          exact ⟨hlist, heq ▸ hne⟩

/-- Transported attributes are current exactly if every value survives. -/
theorem tagsCurrent_iff_of_transport {h : Hpss} (hw : h.AttrsOk) {db : Db}
    (ht : db.tags o = (h.attrs o).map fun a => (some a.1, tr.sval a.2)) :
    TagsCurrent o h db ↔ ∀ a ∈ h.attrs o, tr.sval a.2 = some a.2 := by
  constructor
  · intro hcur a ha
    rw [TagsCurrent, ht] at hcur
    have hmem := hcur.subset (List.mem_map_of_mem (f := fun a => (some a.1, tr.sval a.2)) ha)
    obtain ⟨b, hb, hab⟩ := List.mem_map.mp hmem
    simp only [Prod.mk.injEq, Option.some.injEq] at hab
    have hsame : b = a := List.inj_on_of_nodup_map (hw.nodup_attrs o) hb ha hab.1
    rw [← hab.2, hsame]
  · intro hall
    have heq : db.tags o = (h.attrs o).map fun a => (some a.1, some a.2) := by
      rw [ht]
      exact List.map_congr_left fun a ha => by simp [hall a ha]
    rw [TagsCurrent, heq]

/-! ## between rounds -/

/-- An event that does not touch an object leaves it fewer attributes, if it
removes one, and otherwise the same. -/
theorem attrs_step (hold : o ∈ w.hpss.oids) (ho : o ∈ (w.step site e).hpss.oids)
    (ht : ¬ Touches o w e) :
    if Untags site o w e then
      ((w.step site e).hpss.attrs o).length < (w.hpss.attrs o).length
    else (w.step site e).hpss.attrs o = w.hpss.attrs o := by
  cases hact : e.act with
  | op op =>
      have hno : ¬ Untags site o w e := by simp [Untags, hact]
      simp only [if_neg hno, step, hact] at ho ⊢
      exact attrs_hpssStep ho
  | tagSet x name val =>
      have hno : ¬ Untags site o w e := by simp [Untags, hact]
      have hne : o ≠ x := fun hox => ht (by simp [Touches, hact, hox.symm, hold])
      simp only [if_neg hno, step, hact, tagCmdSet]
      rw [Hpss.attrs_eq_of_uxattrs (uxattrs_touchFileinfo ..)]
      exact attrs_setxattr_of_ne hne
  | tagDel x name =>
      simp only [Untags, step, hact, tagCmdDel]
      split
      · next h =>
          obtain ⟨rfl, hname⟩ := h
          exact length_attrs_removexattr hname
      · next h =>
          refine attrs_removexattr ?_
          by_cases hox : o = x
          · exact .inr fun hname => h ⟨hox.symm, hname⟩
          · exact .inl hox
  | round r =>
      have hno : ¬ Untags site o w e := by simp [Untags, hact]
      rw [if_neg hno, hpss_step_round hact]

/-! ## the invariant -/

/-- Unless the object was touched since the last round, its rows are its
attributes, or it has lost attributes since. -/
structure TagInv (tr : Transport) (o : Oid) (s : Watch) : Prop where
  inv : IndexInv tr s.world
  tags : s.touched = false → ∀ db, s.world.index tr = some db → o ∈ s.world.hpss.oids →
    db.HasObject o →
      if s.untagged then (s.world.hpss.attrs o).length < (db.tags o).length
      else TagsCurrent o s.world.hpss db

/-- The rows of a live object after a round, for each way the round can treat it. -/
theorem tagsCurrent_round_iff (hi : TagInv tr o s) (hsel : SelectsTouched site o s e)
    (hact : e.act = .round r) (ho : o ∈ s.world.hpss.oids) {db db' : Db}
    (hdb : s.world.index tr = some db)
    (hobj : db'.HasObject o ↔
      o ∈ (s.world.scan site r).fattr.map FattrRecord.objid ∨ db.HasObject o)
    (htags : if o ∈ (s.world.scan site r).fattr.map FattrRecord.objid ∧ s.world.hpss.attrs o ≠ []
      then db'.tags o = (s.world.hpss.attrs o).map fun a => (some a.1, tr.sval a.2)
      else db'.tags o = db.tags o) :
    (db'.HasObject o → TagsCurrent o s.world.hpss db') ↔
      if o ∈ (s.world.scan site r).fattr.map FattrRecord.objid then
        (∀ a ∈ s.world.hpss.attrs o, tr.sval a.2 = some a.2) ∧
          (s.world.hpss.attrs o = [] → db.tags o = [])
      else db.HasObject o → s.untagged = false := by
  by_cases hlist : o ∈ (s.world.scan site r).fattr.map FattrRecord.objid
  · rw [if_pos hlist, hobj, imp_iff_right (.inl hlist)]
    by_cases hnil : s.world.hpss.attrs o = []
    · rw [if_neg fun h => h.2 hnil] at htags
      simp [TagsCurrent, hnil, htags]
    · rw [if_pos ⟨hlist, hnil⟩] at htags
      simp [tagsCurrent_iff_of_transport hi.inv.attrs htags, hnil]
  · rw [if_neg fun h => hlist h.1] at htags
    have htouched : s.touched = false := by
      rw [SelectsTouched, hact] at hsel
      by_contra htouched
      exact hlist (hsel (Bool.not_eq_false _ ▸ htouched) ho)
    rw [if_neg hlist, hobj, or_iff_right hlist, TagsCurrent, htags]
    refine forall_congr' fun hold => ?_
    have hinv := hi.tags htouched db hdb ho hold
    cases hun : s.untagged with
    | false =>
        rw [hun] at hinv
        exact iff_of_true hinv rfl
    | true =>
        rw [hun, if_pos rfl] at hinv
        refine iff_of_false (fun hperm => ?_) (by simp)
        have hlen := hperm.length_eq
        rw [List.length_map] at hlen
        omega

/-- A round of a successful run keeps the tags fresh exactly if it carries
them. -/
theorem tagsFresh_iff_tagsCarried (hi : TagInv tr o s) (hs : Successful site tr o s e) :
    TagsFresh site tr o s e ↔ TagsCarried site tr o s e := by
  obtain ⟨_, hsome, hsel⟩ := hs
  obtain ⟨db', hdb'⟩ := Option.isSome_iff_exists.mp hsome
  unfold TagsFresh TagsCarried
  cases hact : e.act with
  | round r =>
      have hhpss : (s.step site o e).world.hpss = s.world.hpss := hpss_step_round hact
      by_cases ho : o ∈ s.world.hpss.oids
      · obtain ⟨db, hdb, hobj, htags⟩ := round_tags hi.inv hact ho hdb'
        have hiff := tagsCurrent_round_iff hi hsel hact ho hdb hobj htags
        simpa [hhpss, hdb', hdb, ho] using hiff
      · simp [hhpss, ho]
  | _ => exact Iff.rfl

/-- Between rounds the rows stay, and the attributes become fewer or stay. -/
theorem tagInv_of_edit (hi : TagInv tr o s) (hround : ∀ r, e.act ≠ .round r)
    (htouched : (s.step site o e).touched = false) {db : Db} (hdb : s.world.index tr = some db)
    (hold : o ∈ s.world.hpss.oids) (ho : o ∈ (s.world.step site e).hpss.oids)
    (hobj : db.HasObject o) :
    if (s.step site o e).untagged then
      ((s.world.step site e).hpss.attrs o).length < (db.tags o).length
    else TagsCurrent o (s.world.step site e).hpss db := by
  have hnot : ¬ Exports site o s.world e := by
    unfold Exports
    split
    · next r hact => exact absurd hact (hround r)
    · exact id
  obtain ⟨hwas, htouch⟩ : s.touched = false ∧ ¬ Touches o s.world e := by
    cases hact : e.act with
    | round r => exact absurd hact (hround r)
    | _ => simpa [Watch.step, hact] using htouched
  have hattrs := attrs_step hold ho htouch
  have hinv := hi.tags hwas db hdb hold hobj
  by_cases hun : Untags site o s.world e
  · have hless : (s.world.hpss.attrs o).length ≤ (db.tags o).length := by
      split at hinv
      · omega
      · have hlen := hinv.length_eq
        rw [List.length_map] at hlen
        omega
    rw [if_pos hun] at hattrs
    rw [if_pos (by simp [Watch.step, hnot, hun])]
    omega
  · rw [if_neg hun] at hattrs
    have hsame : (s.step site o e).untagged = s.untagged := by simp [Watch.step, hnot, hun]
    rw [hsame, TagsCurrent, hattrs]
    exact hinv

/-- One event keeps the invariant, if it keeps the tags fresh. -/
theorem tagInv_step (hi : TagInv tr o s) (hs : Successful site tr o s e)
    (hf : TagsFresh site tr o s e) : TagInv tr o (s.step site o e) := by
  refine ⟨indexInv_step hi.inv hs.1, fun htouched db' hdb' ho hobj => ?_⟩
  by_cases hround : ∃ r, e.act = .round r
  · obtain ⟨r, hact⟩ := hround
    have hcarried := (tagsFresh_iff_tagsCarried hi hs).mp hf
    have hold : o ∈ s.world.hpss.oids := by
      have hhpss : (s.step site o e).world.hpss = s.world.hpss := hpss_step_round hact
      exact hhpss ▸ ho
    obtain ⟨db, hdb, hiff, _⟩ := round_tags hi.inv hact hold hdb'
    have hun : (s.step site o e).untagged = false := by
      rw [TagsCarried, hact] at hcarried
      have hno : ¬ Untags site o s.world e := by simp [Untags, hact]
      by_cases hlist : o ∈ (s.world.scan site r).fattr.map FattrRecord.objid
      · have hexp : Exports site o s.world e := by rw [Exports, hact]; exact hlist
        simp [Watch.step, hexp]
      · have hkept := hcarried db hdb hold
        rw [if_neg hlist] at hkept
        simp [Watch.step, hno, hkept ((hiff.mp hobj).resolve_left hlist)]
    rw [hun]
    rw [TagsFresh, hact] at hf
    exact hf db' hdb' ho hobj
  · have hnot : ∀ r, e.act ≠ .round r := fun r hact => hround ⟨r, hact⟩
    have hstep : Stepped site s.world e (s.world.step site e) := stepped hi.inv.timed.wf
    have hedit : ∃ now op, TableEdit now op s.world.hpss (s.world.step site e).hpss ∧
        (s.world.step site e).index tr = s.world.index tr := by
      generalize s.world.step site e = w' at hstep
      cases hstep with
      | hpss h op _ _ hedit => exact ⟨_, _, hedit, rfl⟩
      | recorded r ha _ => exact absurd ha (hnot r)
      | idle r ha _ => exact absurd ha (hnot r)
    obtain ⟨now, op, hedit, hsame⟩ := hedit
    have hdb : s.world.index tr = some db' := hsame ▸ hdb'
    exact tagInv_of_edit hi hnot htouched hdb (hi.inv.mem_oids hedit hdb hobj ho) ho hobj

/-- **Tag freshness**: in every run of successful rounds, the rows of a live
indexed object are its attributes after each round, exactly if each round
carries them. -/
theorem tags_fresh_iff (site : Site) (tr : Transport) (o : Oid) (es : List Event)
    (hs : AllSteps (Watch.step site o) (Successful site tr o) {} es) :
    AllSteps (Watch.step site o) (TagsFresh site tr o) {} es ↔
      AllSteps (Watch.step site o) (TagsCarried site tr o) {} es := by
  have h0 : TagInv tr o {} := ⟨indexInv_init, fun _ db _ ho => absurd ho List.not_mem_nil⟩
  exact allSteps_congr hs h0 (fun _ _ => tagsFresh_iff_tagsCarried) fun _ _ => tagInv_step

/-! ## small runs -/

/-- The row of a file in the root directory. -/
def fileObj (o : Oid) : ObjRow where
  objid := o
  parentId := rootOid
  name := "f".toList
  fileinfoId := some o

/-- A file created on a day. -/
def fileOn (day : Nat) (o : Oid) : Event :=
  ⟨dayTime day, .op (.create (fileObj o) (some { fileinfoId := o }))⟩

/-- A tag set on a day. -/
def tagSetOn (day : Nat) (o : Oid) (name val : String) : Event :=
  ⟨dayTime day, .tagSet o name.toList val.toList⟩

/-- A tag removed on a day. -/
def tagDelOn (day : Nat) (o : Oid) (name : String) : Event := ⟨dayTime day, .tagDel o name.toList⟩

/-- A file gets a tag and is scanned; then the tag is removed. -/
def removedTagRun : List Event :=
  [fileOn 1 (.of 10), tagSetOn 2 (.of 10) "k" "v", roundOn 3, tagDelOn 4 (.of 10) "k", roundOn 5]

/-- The index after that run. -/
def removedTagDb : Db :=
  ((run (step (utcSite (.of 2))) {} removedTagRun).index plainTransport).getD {}

/-- The row of the removed tag is still there after the next round. -/
theorem removed_tag_stays : ¬ ∀ (site : Site) (tr : Transport) (o : Oid) (es : List Event),
    AllSteps (Watch.step site o) (Successful site tr o) {} es →
      AllSteps (Watch.step site o) (TagsFresh site tr o) {} es := by
  intro h
  have hfresh := h (utcSite (.of 2)) plainTransport (.of 10) removedTagRun (by decide)
  have hlast := allSteps_iff.mp hfresh (removedTagRun.take 4) (roundOn 5) [] rfl
  have hcur := hlast removedTagDb (by decide) (by decide) (by decide)
  exact absurd hcur (by decide)

/-- A file gets a second tag between two rounds. -/
def secondTagRun : List Event :=
  [fileOn 1 (.of 10), tagSetOn 2 (.of 10) "k" "v", roundOn 3, tagSetOn 4 (.of 10) "l" "w", roundOn 5]

theorem tags_fresh_iff_secondTagRun :
    AllSteps (Watch.step (utcSite (.of 2)) (.of 10))
        (Successful (utcSite (.of 2)) plainTransport (.of 10)) {} secondTagRun ∧
      (AllSteps (Watch.step (utcSite (.of 2)) (.of 10))
          (TagsFresh (utcSite (.of 2)) plainTransport (.of 10)) {} secondTagRun ↔
        AllSteps (Watch.step (utcSite (.of 2)) (.of 10))
          (TagsCarried (utcSite (.of 2)) plainTransport (.of 10)) {} secondTagRun) :=
  ⟨by decide, tags_fresh_iff _ _ _ _ (by decide)⟩

end World

end Hpssix
