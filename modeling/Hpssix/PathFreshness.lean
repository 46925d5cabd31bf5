import Hpssix.DeletionWindow
import Hpssix.PathBatches

/-!
# Hpssix.PathFreshness

The paths in the index against the namespace tree, over whole runs.

A round exports the paths of the objects whose own row changed.  An object's
path also depends on the rows above it, so that the move of a directory leaves
the paths below it as they were:

* `paths_fresh` — after every round a live indexed object has its current path,
  unless a directory above it was moved since it was last exported, in runs whose
  path exports get through whole;
* `moved_directory_leaves_path` — it does not without that exception.
-/

namespace Hpssix

open CText Rel Trace

namespace World

variable (site : Site) (tr : Transport) (o : Oid)

/-- The index has one path for the object, the current one. -/
def PathCurrent (h : Hpss) (db : Db) : Prop :=
  ∃ name, fileRows o db.file = [⟨o, h.currentPath o, name⟩]

/-- After the round, a live indexed object has its current path, or a directory
above it was moved since it was last exported. -/
def PathFresh (s : Watch) (e : Event) : Prop :=
  match e.act with
  | .round _ => ∀ db, (s.step site o e).world.index tr = some db →
      o ∈ (s.step site o e).world.hpss.oids → db.HasObject o →
        PathCurrent o (s.step site o e).world.hpss db ∨ (s.step site o e).moved = true
  | _ => True

/-- The round can see what changed since the last recorded round: the object's
id is above the configured first id, or the window reaches back. -/
def WindowOpen (w : World) (e : Event) : Prop := site.firstOid < o ∨ WindowReaches site w e

/-- The path export of the round gets through. -/
def PathsRead (w : World) (e : Event) : Prop :=
  match e.act with
  | .round r => PathsWhole (w.scan site r).path
  | _ => True

instance (w : World) (e : Event) : Decidable (PathsRead site w e) :=
  match e with
  | ⟨_, .round _⟩ => inferInstanceAs (Decidable (PathsWhole _))
  | ⟨_, .op _⟩ | ⟨_, .tagSet ..⟩ | ⟨_, .tagDel ..⟩ => inferInstanceAs (Decidable True)

/-- The object's row changed after the last recorded round started. -/
def Pending (w : World) : Prop :=
  ∃ x ∈ w.hpss.objecttableHistory, x.key = o ∧ ∀ q ∈ w.rounds, q.start < x.sysEnd

variable {site tr o} {w : World} {e : Event} {r : RoundInput} {s : Watch}

/-! ## what a round selects -/

/-- A round lists a live object whose row changed. -/
theorem mem_scan_of_pending (ht : Timed w) (he : WellTimed w e) (hact : e.act = .round r)
    (hopen : WindowOpen site o w e) (hsome : w.rounds ≠ []) (ho : o ∈ w.hpss.oids)
    (hp : Pending o w) : o ∈ (w.scan site r).fattr.map FattrRecord.objid := by
  obtain ⟨x, hx, hkey, hlater⟩ := hp
  obtain ⟨q, hq⟩ := Option.isSome_iff_exists.mp (List.getLast?_isSome.mpr hsome)
  refine mem_fattr.mpr ⟨ho, ?_⟩
  by_cases hreach : WindowReaches site w e
  · have hdate := (fromdate_le_iff ht he).mpr hreach
    rw [FromdateOk, hact] at hdate
    exact mem_sessionTemp_of_history ho hx hkey
      (after_of_fromdate (hdate q hq) (hlater q (List.mem_of_getLast? hq)))
  · -- the last recorded round looks like none: the scan starts from the first id again
    have hfirst : site.firstOid < o := hopen.resolve_right hreach
    refine mem_sessionTemp_of_new ho ?_
    have hzero : endOid q.files.fattr = 0 := by
      by_contra hne
      refine hreach ?_
      rw [WindowReaches, hact]
      intro q' hq'
      rw [hq, Option.some.injEq] at hq'
      exact .inl (hq' ▸ hne)
    rw [scanArgs_fst, watermark, lastStatus_eq ht.wf, hq, if_pos hzero,
      UInt64.toNat_ofNat_of_lt' (site.firstOid.isLt.trans (by decide))]
    exact hfirst

/-! ## the invariant -/

/-- An object has one path, with its name. -/
def FilesInv (tr : Transport) (w : World) : Prop :=
  ∀ db, w.index tr = some db → FilesOk db.file

/-- The invariant holds at first. -/
theorem filesInv_init (tr : Transport) : FilesInv tr {} := fun db hdb => by
  obtain rfl : ({} : Db) = db := Option.some.inj hdb
  exact ⟨List.nodup_nil, fun r hr => absurd hr List.not_mem_nil⟩

/-- Every event keeps it. -/
theorem filesInv_step (hi : IndexInv tr w) (hf : FilesInv tr w) (hread : PathsRead site w e) :
    FilesInv tr (w.step site e) := by
  have hstep : Stepped site w e (w.step site e) := stepped hi.timed.wf
  generalize w.step site e = w' at hstep ⊢
  cases hstep with
  | hpss h op _ _ _ => exact hf
  | idle r _ _ => exact hf
  | recorded r hact _ =>
      intro db' hdb'
      obtain ⟨db, hdb, hbatch⟩ := index_record hdb'
      rw [PathsRead, hact] at hread
      exact (filesOk_builderBatch hbatch (distinct_scan hi.timed.wf.hpss hi.attrs)
        (hi.index db hdb).keys hread (hf db hdb)).1

/-- A live indexed object has its current path, or a directory above it was
moved, or its row changed and the next round will see it. -/
structure PathInv (tr : Transport) (o : Oid) (s : Watch) : Prop where
  inv : IndexInv tr s.world
  files : FilesInv tr s.world
  path : ∀ db, s.world.index tr = some db → o ∈ s.world.hpss.oids → db.HasObject o →
    PathCurrent o s.world.hpss db ∨ s.moved = true ∨ Pending o s.world

/-- After a round nothing is pending. -/
theorem pathFresh_of_round (hi : PathInv tr o s) (he : WellTimed s.world e)
    (hopen : WindowOpen site o s.world e) (hread : PathsRead site s.world e)
    (hact : e.act = .round r) {db' : Db}
    (hdb' : (s.world.step site e).index tr = some db') (ho : o ∈ (s.world.step site e).hpss.oids)
    (hobj : db'.HasObject o) :
    PathCurrent o (s.world.step site e).hpss db' ∨ (s.step site o e).moved = true := by
  have hstep : Stepped site s.world e (s.world.step site e) := stepped hi.inv.timed.wf
  have hmoved : o ∉ (s.world.scan site r).fattr.map FattrRecord.objid → s.moved = true →
      (s.step site o e).moved = true := fun hnot hm => by
    simp [Watch.step, Exports, hact, hm] at hnot ⊢
    exact hnot
  -- an object that the round does not list kept its row; nothing of it was pending
  have hkept : ∀ db, s.world.index tr = some db → o ∈ s.world.hpss.oids → db.HasObject o →
      o ∉ (s.world.scan site r).fattr.map FattrRecord.objid →
        PathCurrent o s.world.hpss db ∨ (s.step site o e).moved = true := by
    intro db hdb ho hobj hnot
    have hsome : s.world.rounds ≠ [] := fun hnil => by
      rw [index, hnil] at hdb
      obtain rfl : ({} : Db) = db := Option.some.inj hdb
      exact absurd hobj List.not_mem_nil
    obtain hcur | hm | hp := hi.path db hdb ho hobj
    · exact .inl hcur
    · exact .inr (hmoved hnot hm)
    · exact absurd (mem_scan_of_pending hi.inv.timed he hact hopen hsome ho hp) hnot
  generalize s.world.step site e = w' at hstep hdb' ho ⊢
  cases hstep with
  | hpss h op ha _ _ => exact absurd hact (ha r)
  | idle r' ha hidle =>
      rw [hact, Act.round.injEq] at ha
      subst ha
      refine hkept db' hdb' ho hobj fun hmem => hidle (.inl fun hnil => ?_)
      rw [hnil] at hmem
      exact absurd hmem List.not_mem_nil
  | recorded r' ha _ =>
      rw [hact, Act.round.injEq] at ha
      subst ha
      rw [PathsRead, hact] at hread
      obtain ⟨db, hdb, hbatch⟩ := index_record hdb'
      have hdistinct : (s.world.scan site r).Distinct :=
        distinct_scan hi.inv.timed.wf.hpss hi.inv.attrs
      have hkeys := (hi.inv.index db hdb).keys
      obtain ⟨-, hstored⟩ := filesOk_builderBatch hbatch hdistinct hkeys hread (hi.files db hdb)
      by_cases hlist : o ∈ (s.world.scan site r).fattr.map FattrRecord.objid
      · left
        have htemp := (mem_fattr.mp hlist).2
        exact hstored.listed _ ((mem_path hi.inv.timed.wf.hpss).mpr ⟨ho, htemp, rfl⟩)
      · have heff : BatchEffect tr (s.world.scan site r) db db' o := batchEffect hbatch hdistinct hkeys
        have hold : db.HasObject o := (heff.hasObject.mp hobj).resolve_left hlist
        have hnot : o ∉ (s.world.scan site r).path.map Prod.fst := fun hmem => by
          obtain ⟨line, hline, rfl⟩ := List.mem_map.mp hmem
          have hmem' := (mem_path hi.inv.timed.wf.hpss).mp hline
          exact hlist (mem_fattr.mpr ⟨hmem'.1, hmem'.2.1⟩)
        refine (hkept db hdb ho hold hlist).imp_left fun hcur => ?_
        rw [PathCurrent, hstored.other o hnot]
        exact hcur

/-- Between rounds a path changes with the object's own row, which is then
pending, or with a directory above. -/
theorem pathInv_of_edit (hi : PathInv tr o s) (he : WellTimed s.world e) {h : Hpss} {op : HpssOp}
    (ha : ∀ r, e.act ≠ .round r) (hop : ∀ d p name, op = .rename d p name → e.act = .op op)
    (hedit : TableEdit e.time op s.world.hpss h) {db : Db} (hdb : s.world.index tr = some db)
    (ho : o ∈ h.oids) (hobj : db.HasObject o) :
    PathCurrent o h db ∨ (s.step site o e).moved = true ∨
      Pending o { s.world with now := e.time, hpss := h } := by
  have hnot : ¬ Exports site o s.world e := by
    unfold Exports
    split
    · next r hact => exact absurd hact (ha r)
    · exact id
  have hwas : o ∈ s.world.hpss.oids := hi.inv.mem_oids hedit hdb hobj ho
  obtain hsame | hown | hmoves := hedit.currentPath hi.inv.timed.wf.hpss hwas ho
  · obtain ⟨name, hcur⟩ | hm | ⟨x, hx, hkey, hlater⟩ := hi.path db hdb hwas hobj
    · exact .inl ⟨name, hsame ▸ hcur⟩
    · exact .inr (.inl (by simp [Watch.step, hnot, hm]))
    · exact .inr (.inr ⟨x, hedit.mem_history hx, hkey, hlater⟩)
  · refine .inr (.inr ⟨⟨o, e.time⟩, by simp [hown], rfl, fun q hq => ?_⟩)
    have hq' := hi.inv.timed.rounds q hq
    have hnow := he.1
    show q.start < e.time
    omega
  · have hact : Moves o s.world e := by
      cases op with
      | rename d p name => rw [Moves, hop d p name rfl]; exact hmoves
      | _ => exact hmoves.elim
    exact .inr (.inl (by simp [Watch.step, hnot, hact]))

/-- One event keeps the invariant. -/
theorem pathInv_step (hi : PathInv tr o s)
    (he : WellTimed s.world e ∧ WindowOpen site o s.world e) (hread : PathsRead site s.world e) :
    PathInv tr o (s.step site o e) := by
  refine ⟨indexInv_step hi.inv he.1, filesInv_step hi.inv hi.files hread, fun db hdb ho hobj => ?_⟩
  have hround : ∀ r, e.act = .round r →
      PathCurrent o (s.world.step site e).hpss db ∨ (s.step site o e).moved = true :=
    fun r hact => pathFresh_of_round hi he.1 he.2 hread hact hdb ho hobj
  have hstep : Stepped site s.world e (s.world.step site e) := stepped hi.inv.timed.wf
  change (s.world.step site e).index tr = some db at hdb
  change o ∈ (s.world.step site e).hpss.oids at ho
  change PathCurrent o (s.world.step site e).hpss db ∨ (s.step site o e).moved = true ∨
    Pending o (s.world.step site e)
  generalize s.world.step site e = w' at hstep hdb ho hround ⊢
  cases hstep with
  | hpss h op ha hop hedit => exact pathInv_of_edit hi he.1 ha hop hedit hdb ho hobj
  | recorded r ha _ => exact (hround r ha).imp_right .inl
  | idle r ha _ => exact (hround r ha).imp_right .inl

/-- The invariant holds at first. -/
theorem pathInv_init (tr : Transport) (o : Oid) : PathInv tr o {} :=
  ⟨indexInv_init, filesInv_init tr, fun _ _ ho => absurd ho List.not_mem_nil⟩

/-- **Path freshness**: in every well-timed run whose rounds can see what changed and
whose path exports get through, after each round a live indexed object has its
current path, or a directory above it was moved since the object was last exported. -/
theorem paths_fresh (site : Site) (tr : Transport) (o : Oid) (es : List Event)
    (ht : AllSteps (step site) WellTimed {} es)
    (hopen : AllSteps (step site) (WindowOpen site o) {} es)
    (hread : AllSteps (step site) (PathsRead site) {} es) :
    AllSteps (Watch.step site o) (PathFresh site tr o) {} es := by
  have hall : AllSteps (Watch.step site o) (fun s e =>
      (WellTimed s.world e ∧ WindowOpen site o s.world e) ∧ PathsRead site s.world e) {} es :=
    (allSteps_comap (P := fun w e => (WellTimed w e ∧ WindowOpen site o w e) ∧ PathsRead site w e)
      (p := Watch.world) fun _ _ => rfl).mpr ((ht.and hopen).and hread)
  refine hall.of_invariant (pathInv_init tr o) (fun s e hi he => pathInv_step hi he.1 he.2)
    fun s e hi he => ?_
  unfold PathFresh
  split
  · next r hact =>
      intro db hdb ho hobj
      exact pathFresh_of_round hi he.1.1 he.1.2 he.2 hact hdb ho hobj
  · trivial

/-! ## a small run -/

/-- A file in a directory is scanned, days after it was created; then the directory gets a
new name. -/
def movedDirectoryRun : List Event :=
  [createOn 1 (.of 5) rootOid "d", createOn 2 (.of 10) (.of 5) "f", roundOn 10,
    ⟨dayTime 12, .op (.rename (.of 5) rootOid "e".toList)⟩, roundOn 13]

/-- The index after that run. -/
def movedDirectoryDb : Db :=
  ((run (step (utcSite (.of 2))) {} movedDirectoryRun).index plainTransport).getD {}

/-- The directory's new name does not reach the path of the file. -/
theorem moved_directory_leaves_path : ¬ ∀ (site : Site) (tr : Transport) (o : Oid)
    (es pre : List Event) (e : Event) (r : RoundInput) (db : Db),
      AllSteps (step site) WellTimed {} es → es = pre ++ [e] → e.act = .round r →
      (run (step site) {} es).index tr = some db → o ∈ (run (step site) {} es).hpss.oids →
      db.HasObject o → PathCurrent o (run (step site) {} es).hpss db := by
  intro h
  obtain ⟨name, hrows⟩ := h (utcSite (.of 2)) plainTransport (.of 10) movedDirectoryRun
    (movedDirectoryRun.take 4) (roundOn 13) _ movedDirectoryDb (by decide) (by decide) rfl
    (by decide) (by decide) (by decide)
  have hpaths : (fileRows (.of 10) movedDirectoryDb.file).map FileRow.path =
      [(run (step (utcSite (.of 2))) {} movedDirectoryRun).hpss.currentPath (.of 10)] := by
    rw [hrows]
    rfl
  exact absurd hpaths (by decide)

/-- The directory is moved, which the theorem allows for. -/
theorem paths_fresh_movedDirectoryRun :
    AllSteps (step (utcSite (.of 2))) WellTimed {} movedDirectoryRun ∧
      AllSteps (step (utcSite (.of 2))) (WindowOpen (utcSite (.of 2)) (.of 10)) {}
        movedDirectoryRun ∧
      AllSteps (step (utcSite (.of 2))) (PathsRead (utcSite (.of 2))) {} movedDirectoryRun ∧
      AllSteps (Watch.step (utcSite (.of 2)) (.of 10))
        (PathFresh (utcSite (.of 2)) plainTransport (.of 10)) {} movedDirectoryRun := by
  have hopen : AllSteps (step (utcSite (.of 2))) (WindowOpen (utcSite (.of 2)) (.of 10)) {}
      movedDirectoryRun := allSteps_iff.mpr fun _ _ _ _ => .inl (by decide)
  have hread : AllSteps (step (utcSite (.of 2))) (PathsRead (utcSite (.of 2))) {}
      movedDirectoryRun := by decide +kernel
  exact ⟨by decide, hopen, hread, paths_fresh _ _ _ _ (by decide) hopen hread⟩

end World

end Hpssix
