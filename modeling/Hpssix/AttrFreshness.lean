import Hpssix.PathFreshness
import Hpssix.Records

/-!
# Hpssix.AttrFreshness

The object table of the index against the metadata in HPSS, over whole runs, and what
a search on file attributes finds in it.

A scan lists an object when its row of `objecttable` was replaced, and, if the
`MERGE` can run, when its row of `fileinfo` was.

* `valid_iff` — a row is marked as removed exactly if a recorded round listed its
  object as deleted;
* `attrs_fresh` — after every round the row of a live indexed object shows the object
  as it is, but for the times of reading and writing if the `MERGE` cannot run;
* `search_current` — a search on attributes then finds it exactly if the conditions
  hold for the object as it is.
-/

namespace Hpssix

open CText Forest Rel Trace

/-! ## what a batch does to the object table -/

/-- `SET valid = false` for the objects of the deleted export. -/
def markDeleted (deleted : List Oid) (r : ObjectRow) : ObjectRow :=
  if r.oid ∈ deleted then { r with valid := false } else r

/-- The rows of an object in `hpssix_object` after a batch. -/
structure ObjectEffect (files : ScanFiles) (db db' : Db) (o : Oid) : Prop where
  unique : (db'.object.map (·.oid)).Nodup
  listed : ∀ s ∈ files.fattr, s.objid = o → ∃ c, fattrCols s = some c ∧ c.oid = o ∧
    objectRows o db'.object = (if objectRows o db.object = [] then [fattrInsert c]
      else (objectRows o db.object).map fun r => fattrUpdate r c).map (markDeleted files.deleted)
  other : o ∉ files.fattr.map FattrRecord.objid →
    objectRows o db'.object = (objectRows o db.object).map (markDeleted files.deleted)

/-- What a batch does to the rows of an object. -/
theorem objectEffect {tr : Transport} {files : ScanFiles} {db db' : Db}
    (h : builderBatch tr files db = some db') (hd : files.Distinct) (hk : db.KeysOk)
    (hold : (db.object.map (·.oid)).Nodup) (o : Oid) : ObjectEffect files db db' o := by
  obtain ⟨d₁, d₂, d₃, h₁, h₂, h₃, rfl⟩ := builderBatch_eq h
  have hlisted : ∀ s ∈ files.fattr, ∃ c, fattrCols s = some c ∧ c.oid = s.objid ∧
      objectRows s.objid d₁.object = if objectRows s.objid db.object = [] then [fattrInsert c]
        else (objectRows s.objid db.object).map fun r => fattrUpdate r c := fun s hs =>
    objectRows_processFattr_of_mem hd.fattr h₁ hs
  have hother := fun ho => objectRows_processFattr_of_notMem (o := o) hd.fattr h₁ ho
  have hunique : (d₁.object.map (·.oid)).Nodup := by
    obtain ⟨cols, hcols, rfl⟩ := processFattr_eq h₁
    have hkeys := map_of_mapM hcols oid_of_fattrCols
    refine nodup_upsert ?_ ?_ (hkeys ▸ hd.fattr) hold
    · exact fun _ _ => rfl
    · exact fun _ => rfl
  have hkeys : d₁.KeysOk := by
    obtain ⟨cols, -, rfl⟩ := processFattr_eq h₁
    exact ⟨hk.sorted, hk.below⟩
  obtain ⟨file, rfl⟩ := processPath_frame h₂
  obtain ⟨hobj, -, -, -, -, -⟩ := processXattrs_spec h₃ ⟨hkeys.sorted, hkeys.below⟩ hd.xattr
  have hdel : ∀ o, objectRows o (processDeleted files.deleted d₃).object =
      (objectRows o d₁.object).map (markDeleted files.deleted) := fun o => by
    rw [objectRows, processDeleted, hobj]
    exact rowsAt_map _ (fun r => by split <;> rfl) o d₁.object
  refine ⟨?_, fun s hs hso => ?_, fun ho => ?_⟩
  · rw [processDeleted, map_key_map _ fun r => by split <;> rfl, hobj]
    exact hunique
  · subst hso
    obtain ⟨c, hc, hoid, hrows⟩ := hlisted s hs
    exact ⟨c, hc, hoid, by rw [hdel, hrows]⟩
  · rw [hdel, hother ho]

/-- Only deleted objects are marked. -/
theorem markDeleted_of_notMem {deleted : List Oid} {r : ObjectRow} (h : r.oid ∉ deleted) :
    markDeleted deleted r = r := if_neg h

namespace World

variable {site : Site} {tr : Transport} {o : Oid} {w : World} {e : Event} {r : RoundInput}

/-! ## the mark of removed objects -/

/-- What the object table is known to satisfy: one row for an object, and it is invalid
exactly if a recorded round listed the object as deleted, which was gone then. -/
structure ObjectsInv (tr : Transport) (w : World) : Prop where
  inv : IndexInv tr w
  gone : ∀ q ∈ w.rounds, ∀ x ∈ q.files.deleted, x ∉ w.hpss.oids ∧ x ∈ w.hpss.histOids
  unique : ∀ db, w.index tr = some db → (db.object.map (·.oid)).Nodup
  valid : ∀ db, w.index tr = some db → ∀ row ∈ db.object,
    (row.valid = true ↔ ∀ q ∈ w.rounds, row.oid ∉ q.files.deleted)

/-- The invariant holds at first. -/
theorem objectsInv_init (tr : Transport) : ObjectsInv tr {} where
  inv := indexInv_init
  gone := fun q hq => absurd hq List.not_mem_nil
  unique := fun db hdb => by
    obtain rfl : ({} : Db) = db := Option.some.inj hdb
    exact List.nodup_nil
  valid := fun db hdb row hrow => by
    obtain rfl : ({} : Db) = db := Option.some.inj hdb
    exact absurd hrow List.not_mem_nil

/-- A recorded round, as a batch on the object table. -/
theorem ObjectsInv.batch (hi : ObjectsInv tr w) {time : Nat} {db' : Db}
    (h : (w.record site time r).index tr = some db') (o : Oid) :
    ∃ db, w.index tr = some db ∧ ObjectEffect (w.scan site r) db db' o := by
  obtain ⟨db, hdb, hbatch⟩ := index_record h
  exact ⟨db, hdb, objectEffect hbatch (distinct_scan hi.inv.timed.wf.hpss hi.inv.attrs)
    (hi.inv.index db hdb).keys (hi.unique db hdb) o⟩

/-- A recorded round marks the objects that it lists as deleted. -/
theorem valid_record (hi : ObjectsInv tr w) {time : Nat} {db' : Db}
    (h : (w.record site time r).index tr = some db') {row : ObjectRow} (hrow : row ∈ db'.object) :
    row.valid = true ↔
      (∀ q ∈ w.rounds, row.oid ∉ q.files.deleted) ∧ row.oid ∉ (w.scan site r).deleted := by
  obtain ⟨db, hdb, heff⟩ := hi.batch h row.oid
  have hat : row ∈ objectRows row.oid db'.object := (mem_rowsAt _).mpr ⟨hrow, rfl⟩
  have hvalid : ∀ old ∈ objectRows row.oid db.object,
      (old.valid = true ↔ ∀ q ∈ w.rounds, row.oid ∉ q.files.deleted) := fun old hold => by
    obtain ⟨hmem, hoid⟩ := (mem_rowsAt _).mp hold
    exact hoid ▸ hi.valid db hdb old hmem
  by_cases hlist : row.oid ∈ (w.scan site r).fattr.map FattrRecord.objid
  · -- a listed object is there, so that no round has listed it as deleted
    have hlive := (mem_fattr.mp hlist).1
    have hnever : ∀ q ∈ w.rounds, row.oid ∉ q.files.deleted := fun q hq hmem =>
      (hi.gone q hq _ hmem).1 hlive
    have hnot : row.oid ∉ (w.scan site r).deleted := fun hmem => (mem_deleted.mp hmem).2 hlive
    obtain ⟨s, hs, hso⟩ := List.mem_map.mp hlist
    obtain ⟨c, -, -, hrows⟩ := heff.listed s hs hso
    refine iff_of_true ?_ ⟨hnever, hnot⟩
    rw [hrows] at hat
    obtain ⟨old, hold, hmark⟩ := List.mem_map.mp hat
    have hkeep : markDeleted (w.scan site r).deleted old = old := by
      unfold markDeleted at hmark ⊢
      split
      · next hmem =>
          rw [if_pos hmem] at hmark
          exact absurd (congrArg (fun r : ObjectRow => r.oid) hmark ▸ hmem) hnot
      · rfl
    rw [hkeep] at hmark
    subst hmark
    split at hold
    · rw [List.mem_singleton.mp hold]
      rfl
    · obtain ⟨old', hold', rfl⟩ := List.mem_map.mp hold
      exact (hvalid old' hold').mpr hnever
  · rw [heff.other hlist] at hat
    obtain ⟨old, hold, hmark⟩ := List.mem_map.mp hat
    have hoid := ((mem_rowsAt _).mp hold).2
    have hiff := hvalid old hold
    rw [markDeleted, hoid] at hmark
    split at hmark
    · next hmem =>
        refine iff_of_false ?_ fun h => h.2 hmem
        rw [← hmark]
        exact Bool.false_ne_true
    · next hmem =>
        subst hmark
        exact hiff.trans (and_iff_left hmem).symm

/-- Every event keeps it. -/
theorem objectsInv_step (hi : ObjectsInv tr w) (he : WellTimed w e) :
    ObjectsInv tr (w.step site e) := by
  have hinv : IndexInv tr (w.step site e) := indexInv_step hi.inv he
  have hstep : Stepped site w e (w.step site e) := stepped hi.inv.timed.wf
  generalize w.step site e = w' at hstep hinv ⊢
  cases hstep with
  | hpss h op _ _ hedit =>
      refine ⟨hinv, fun q hq x hx => ⟨fun hmem => ?_, ?_⟩, hi.unique, hi.valid⟩
      · obtain ⟨hgone, hhist⟩ := hi.gone q hq x hx
        exact (hedit.appears hmem).elim hgone fun hnew => hnew hhist
      · obtain ⟨y, hy, rfl⟩ := List.mem_map.mp (hi.gone q hq x hx).2
        exact List.mem_map_of_mem (hedit.mem_history hy)
  | idle r _ _ => exact ⟨hinv, hi.gone, hi.unique, hi.valid⟩
  | recorded r _ _ =>
      refine ⟨hinv, fun q hq x hx => ?_, fun db' hdb' => ?_, fun db' hdb' row hrow => ?_⟩
      · obtain hq | hq := List.mem_append.mp hq
        · exact hi.gone q hq x hx
        · rw [List.mem_singleton.mp hq] at hx
          obtain ⟨⟨y, hy, -, hkey⟩, hgone⟩ := mem_deleted.mp hx
          exact ⟨hgone, hkey ▸ List.mem_map_of_mem hy⟩
      · obtain ⟨db, -, heff⟩ := hi.batch hdb' 0
        exact heff.unique
      · refine (valid_record hi hdb' hrow).trans ⟨fun h q hq => ?_, fun h => ⟨fun q hq => ?_, ?_⟩⟩
        · obtain hq | hq := List.mem_append.mp hq
          · exact h.1 q hq
          · rw [List.mem_singleton.mp hq]
            exact h.2
        · exact h q (List.mem_append_left _ hq)
        · exact h _ (List.mem_append_right _ (List.mem_singleton_self _))

/-- **The mark**: in every well-timed run, a row is marked as removed exactly if a recorded
round listed its object as deleted. -/
theorem valid_iff {es : List Event} (ht : AllSteps (step site) WellTimed {} es) {db : Db}
    (hdb : (run (step site) {} es).index tr = some db) {row : ObjectRow} (hrow : row ∈ db.object) :
    row.valid = true ↔ ∀ q ∈ (run (step site) {} es).rounds, row.oid ∉ q.files.deleted :=
  (invariant_run (objectsInv_init tr) ht fun _ _ => objectsInv_step).valid db hdb row hrow

/-! ## the attributes after a round -/

section Fresh
variable (site : Site) (tr : Transport) (o : Oid)

/-- The object has one row, which is valid and shows the object as it is; if the `MERGE`
cannot run, its times of reading and writing may be older. -/
def AttrsCurrent (h : Hpss) (db : Db) : Prop :=
  ∃ s row, h.record o = some s ∧ objectRows o db.object = [row] ∧ row.valid = true ∧
    ∃ s', fattrCols s' = some row.toObjectCols ∧ SameButTimes s' s ∧
      (site.mergeColumn = true → s' = s)

/-- After the round, the row of the object, if it is live and indexed, is current. -/
def AttrsFresh (w : World) (e : Event) : Prop :=
  match e.act with
  | .round _ => ∀ db, (w.step site e).index tr = some db → o ∈ (w.step site e).hpss.oids →
      db.HasObject o → AttrsCurrent site o (w.step site e).hpss db
  | _ => True

/-- The object's row of `fileinfo` changed after the last recorded round started, and the
`MERGE` will see it. -/
def PendingInfo (w : World) : Prop :=
  site.mergeColumn = true ∧ ∃ f, w.hpss.fileinfoOf o = some f ∧
    ∃ x ∈ w.hpss.fileinfoHistory, x.key = f ∧ ∀ q ∈ w.rounds, q.start < x.sysEnd

/-- A live indexed object is shown as it is, or the next round will list it. -/
structure AttrInv (w : World) : Prop extends ObjectsInv tr w where
  current : ∀ db, w.index tr = some db → o ∈ w.hpss.oids → db.HasObject o →
    AttrsCurrent site o w.hpss db ∨ Pending o w ∨ PendingInfo site o w

end Fresh

/-- An older object with a replaced row of `fileinfo` inside the window is selected. -/
theorem mem_sessionTemp_of_fileinfo {lastObjid : Nat} {fromdate : Int} {h : Hpss} {f : Oid}
    (hm : site.mergeColumn = true) (ho : o ∈ h.oids) (hf : h.fileinfoOf o = some f) {x : HistRow}
    (hx : x ∈ h.fileinfoHistory) (hkey : x.key = f) (hafter : site.after fromdate x.sysEnd) :
    o ∈ sessionTemp site lastObjid fromdate h := by
  by_cases hlast : lastObjid < o.val
  · exact mem_sessionTemp_of_new ho hlast
  · unfold sessionTemp
    rw [if_pos hm]
    by_cases hst : o ∈ tempNew lastObjid h ++ tempHistory site lastObjid fromdate h
    · exact List.mem_append_left _ hst
    · refine List.mem_append_right _ ?_
      obtain ⟨n, hn, hnf⟩ := Option.bind_eq_some_iff.mp hf
      have hno : n.objid = o := by simpa using List.find?_some hn
      have hchanged : n.fileinfoId ∈ (changedKeys site fromdate h.fileinfoHistory).map some := by
        rw [hnf]
        exact List.mem_map_of_mem (mem_changedKeys.mpr ⟨x, hx, hafter, hkey⟩)
      refine List.mem_map.mpr ⟨n, List.mem_filter.mpr ⟨List.mem_of_find?_eq_some hn, ?_⟩, hno⟩
      simp only [decide_eq_true_eq, hno]
      exact ⟨Nat.le_of_not_lt hlast, hchanged, hst⟩

/-- A round lists a live object that it has seen too late the last time. -/
theorem mem_scan_of_pendingInfo (ht : Timed w) (he : WellTimed w e) (hact : e.act = .round r)
    (hopen : WindowOpen site o w e) (hsome : w.rounds ≠ []) (ho : o ∈ w.hpss.oids)
    (hp : PendingInfo site o w) : o ∈ (w.scan site r).fattr.map FattrRecord.objid := by
  obtain ⟨hm, f, hf, x, hx, hkey, hlater⟩ := hp
  obtain ⟨q, hq⟩ := Option.isSome_iff_exists.mp (List.getLast?_isSome.mpr hsome)
  refine mem_fattr.mpr ⟨ho, ?_⟩
  by_cases hreach : WindowReaches site w e
  · have hdate := (fromdate_le_iff ht he).mpr hreach
    rw [FromdateOk, hact] at hdate
    exact mem_sessionTemp_of_fileinfo hm ho hf hx hkey
      (after_of_fromdate (hdate q hq) (hlater q (List.mem_of_getLast? hq)))
  · -- the last recorded round looks like none: the scan starts from the first id again
    have hfirst : site.firstOid < o := hopen.resolve_right hreach
    refine mem_sessionTemp_of_new ho ?_
    have hzero : endOid q.files.fattr = 0 := by
      by_contra hne
      refine hreach ?_
      rw [WindowReaches, hact]
      intro q' hq'
      rw [hq, Option.some.injEq] at hq'
      exact .inl (hq' ▸ hne)
    rw [scanArgs_fst, watermark, lastStatus_eq ht.wf, hq, if_pos hzero,
      UInt64.toNat_ofNat_of_lt' (site.firstOid.isLt.trans (by decide))]
    exact hfirst

/-- A listed object is shown as it is. -/
theorem attrsCurrent_of_listed (hi : ObjectsInv tr w) {time : Nat} {db' : Db}
    (hdb' : (w.record site time r).index tr = some db')
    (hlist : o ∈ (w.scan site r).fattr.map FattrRecord.objid) :
    AttrsCurrent site o w.hpss db' := by
  obtain ⟨db, hdb, heff⟩ := hi.batch hdb' o
  have hlive := (mem_fattr.mp hlist).1
  have hnot : o ∉ (w.scan site r).deleted := fun hmem => (mem_deleted.mp hmem).2 hlive
  obtain ⟨s, hs, hso⟩ := List.mem_map.mp hlist
  have hrec : w.hpss.record o = some s := hso ▸ ((mem_sqlFattr hi.inv.timed.wf.hpss).mp hs).2
  obtain ⟨c, hc, hoid, hrows⟩ := heff.listed s hs hso
  obtain ⟨row, hone, hcols, hrowoid⟩ : ∃ row, objectRows o db'.object = [row] ∧
      row.toObjectCols = c ∧ row.oid = o := by
    obtain hnil | ⟨old, -, hold, hone⟩ :=
      rowsAt_eq_nil_or_singleton (fun r : ObjectRow => r.oid) (hi.unique db hdb) o
    · refine ⟨fattrInsert c, ?_, rfl, hoid⟩
      rw [hrows, if_pos hnil, List.map_singleton,
        markDeleted_of_notMem (show (fattrInsert c).oid ∉ _ from hoid.symm ▸ hnot)]
    · refine ⟨fattrUpdate old c, ?_, toObjectCols_fattrUpdate (hold.trans hoid.symm), hold⟩
      rw [hrows, show objectRows o db.object = [old] from hone, if_neg (List.cons_ne_nil _ _),
        List.map_singleton, List.map_singleton,
        markDeleted_of_notMem (show (fattrUpdate old c).oid ∉ _ from hold.symm ▸ hnot)]
  refine ⟨s, row, hrec, hone, ?_, s, hcols ▸ hc, .refl s, fun _ => rfl⟩
  have hmem : row ∈ db'.object := ((mem_rowsAt _).mp (hone ▸ List.mem_singleton_self row)).1
  refine (valid_record hi hdb' hmem).mpr ⟨fun q hq hdel => ?_, hrowoid.symm ▸ hnot⟩
  exact (hi.gone q hq _ hdel).1 (hrowoid.symm ▸ hlive)

/-- After a round nothing is pending. -/
theorem attrsCurrent_of_round (hi : AttrInv site tr o w) (he : WellTimed w e)
    (hopen : WindowOpen site o w e) (hact : e.act = .round r) {db' : Db}
    (hdb' : (w.step site e).index tr = some db') (ho : o ∈ (w.step site e).hpss.oids)
    (hobj : db'.HasObject o) : AttrsCurrent site o (w.step site e).hpss db' := by
  have hstep : Stepped site w e (w.step site e) := stepped hi.inv.timed.wf
  -- an object that the round does not list had nothing pending
  have hkept : ∀ db, w.index tr = some db → o ∈ w.hpss.oids → db.HasObject o →
      o ∉ (w.scan site r).fattr.map FattrRecord.objid → AttrsCurrent site o w.hpss db := by
    intro db hdb ho hobj hnot
    have hsome : w.rounds ≠ [] := fun hnil => by
      rw [index, hnil] at hdb
      obtain rfl : ({} : Db) = db := Option.some.inj hdb
      exact absurd hobj List.not_mem_nil
    obtain hcur | hp | hp := hi.current db hdb ho hobj
    · exact hcur
    · exact absurd (mem_scan_of_pending hi.inv.timed he hact hopen hsome ho hp) hnot
    · exact absurd (mem_scan_of_pendingInfo hi.inv.timed he hact hopen hsome ho hp) hnot
  generalize w.step site e = w' at hstep hdb' ho ⊢
  cases hstep with
  | hpss h op ha _ _ => exact absurd hact (ha r)
  | idle r' ha hidle =>
      rw [hact, Act.round.injEq] at ha
      subst ha
      refine hkept db' hdb' ho hobj fun hmem => hidle (.inl fun hnil => ?_)
      rw [hnil] at hmem
      exact absurd hmem List.not_mem_nil
  | recorded r' ha _ =>
      rw [hact, Act.round.injEq] at ha
      subst ha
      by_cases hlist : o ∈ (w.scan site r).fattr.map FattrRecord.objid
      · exact attrsCurrent_of_listed hi.toObjectsInv hdb' hlist
      · obtain ⟨db, hdb, heff⟩ := hi.batch hdb' o
        have hnot : o ∉ (w.scan site r).deleted := fun hmem => (mem_deleted.mp hmem).2 ho
        have hrows := heff.other hlist
        have hobj' : db.HasObject o := by
          by_contra hno
          have hnil : objectRows o db.object = [] :=
            (rowsAt_eq_nil fun r : ObjectRow => r.oid).mpr hno
          rw [hnil, List.map_nil] at hrows
          exact (rowsAt_eq_nil fun r : ObjectRow => r.oid).mp hrows hobj
        obtain ⟨s, row, hrec, hone, hcur⟩ := hkept db hdb ho hobj' hlist
        refine ⟨s, row, hrec, ?_, hcur⟩
        have hrowoid := ((mem_rowsAt _).mp (hone ▸ List.mem_singleton_self row)).2
        rw [hrows, hone, List.map_singleton, markDeleted_of_notMem (hrowoid.symm ▸ hnot)]

/-- Between rounds, what changes the line of an object is pending. -/
theorem attrInv_of_edit (hi : AttrInv site tr o w) (he : WellTimed w e) (hinfo : FreshInfo w e)
    (hrounds : (w.step site e).rounds = w.rounds) {db : Db} (hold : o ∈ w.hpss.oids)
    (hdb : w.index tr = some db) (ho : o ∈ (w.step site e).hpss.oids) (hobj : db.HasObject o) :
    AttrsCurrent site o (w.step site e).hpss db ∨ Pending o (w.step site e) ∨
      PendingInfo site o (w.step site e) := by
  obtain ⟨hchange, hkept⟩ := record_step hinfo hold ho
  have hlater : ∀ q ∈ (w.step site e).rounds, q.start < e.time := fun q hq => by
    have hq' := hi.inv.timed.rounds q (hrounds ▸ hq)
    have hnow := he.1
    omega
  obtain ⟨s, row, hrec, hone, hvalid, s', hcols, hsame, hmerge⟩ | ⟨x, hx, hkey, hx'⟩ |
    ⟨hm, f, hf, x, hx, hkey, hx'⟩ := hi.current db hdb hold hobj
  · cases hchange with
    | same hr => exact .inl ⟨s, row, hr.trans hrec, hone, hvalid, s', hcols, hsame, hmerge⟩
    | own hh => exact .inr (.inl ⟨⟨o, e.time⟩, hh, rfl, hlater⟩)
    | times f hf hh hs =>
        by_cases hm : site.mergeColumn = true
        · exact .inr (.inr ⟨hm, f, hf, ⟨f, e.time⟩, hh, rfl, hlater⟩)
        · obtain ⟨s₁, hs₁⟩ := Option.isSome_iff_exists.mp (isSome_record ho)
          obtain ⟨s₀, hs₀, htimes⟩ := hs s₁ hs₁
          rw [hrec, Option.some.injEq] at hs₀
          subst hs₀
          exact .inl ⟨s₁, row, hs₁, hone, hvalid, s', hcols, hsame.trans htimes, fun h => absurd h hm⟩
  · exact .inr (.inl ⟨x, hkept.objecttable x hx, hkey, fun q hq => hx' q (hrounds ▸ hq)⟩)
  · exact .inr (.inr ⟨hm, f, hkept.fileinfoOf.trans hf, x, hkept.fileinfo x hx, hkey,
      fun q hq => hx' q (hrounds ▸ hq)⟩)

/-- One event keeps the invariant. -/
theorem attrInv_step (hi : AttrInv site tr o w)
    (he : (WellTimed w e ∧ WindowOpen site o w e) ∧ FreshInfo w e) :
    AttrInv site tr o (w.step site e) := by
  obtain ⟨⟨htime, hopen⟩, hinfo⟩ := he
  refine ⟨objectsInv_step hi.toObjectsInv htime, fun db hdb ho hobj => ?_⟩
  by_cases hround : ∃ r, e.act = .round r
  · obtain ⟨r, hact⟩ := hround
    exact .inl (attrsCurrent_of_round hi htime hopen hact hdb ho hobj)
  · have hstep : Stepped site w e (w.step site e) := stepped hi.inv.timed.wf
    obtain ⟨op, hedit, hindex, hrounds⟩ : ∃ op, TableEdit e.time op w.hpss (w.step site e).hpss ∧
        (w.step site e).index tr = w.index tr ∧ (w.step site e).rounds = w.rounds := by
      generalize w.step site e = w' at hstep
      cases hstep with
      | hpss h op _ _ hedit => exact ⟨op, hedit, rfl, rfl⟩
      | recorded r ha _ => exact absurd ⟨r, ha⟩ hround
      | idle r ha _ => exact absurd ⟨r, ha⟩ hround
    rw [hindex] at hdb
    exact attrInv_of_edit hi htime hinfo hrounds (hi.inv.mem_oids hedit hdb hobj ho) hdb ho hobj

section Search
variable (site : Site) (tr : Transport) (o : Oid)
  (other : Text → Text → Option (Option Text × Nat)) (options : FattrOptions) (sql : Text)

/-- The query selects a row of the object. -/
def Finds (db : Db) : Prop := ∃ row ∈ db.object, row.oid = o ∧ selectsRow other sql row = some true

/-- After the round, a search finds the object, if it is live and indexed, exactly if it does
not ask for removed objects and all conditions hold for the object as it is. -/
def SearchCurrent (w : World) (e : Event) : Prop :=
  match e.act with
  | .round _ => ∀ db, (w.step site e).index tr = some db → o ∈ (w.step site e).hpss.oids →
      db.HasObject o → ∃ s, (w.step site e).hpss.record o = some s ∧
        (Finds o other sql db ↔ options.removed = false ∧ ∀ conds, options.conds = some conds →
          ∀ a c, conds a = some c → c.holds (s.column a) = true)
  | _ => True

end Search

/-- A current row shows what conditions ask for, unless they ask for times that may be old. -/
theorem AttrsCurrent.row {options : FattrOptions} {conds : CondArg → Option FattrCond}
    (hconds : options.conds = some conds)
    (htimes : site.mergeColumn = true ∨ options.cond .atime = none ∧ options.cond .mtime = none)
    {h : Hpss} {db : Db} (hcur : AttrsCurrent site o h db) :
    ∃ s row, h.record o = some s ∧ objectRows o db.object = [row] ∧ row.valid = true ∧
      ∀ a c, conds a = some c → row.column a = s.column a := by
  obtain ⟨s, row, hrec, hone, hvalid, s', hcols, hsame, hmerge⟩ := hcur
  refine ⟨s, row, hrec, hone, hvalid, fun a c hc => ?_⟩
  rw [column_of_fattrCols hcols]
  obtain hm | ⟨hat, hmt⟩ := htimes
  · rw [hmerge hm]
  · have hnone := options.conds_time hconds
    refine hsame.column ?_ ?_
    · rintro rfl
      rw [(hnone .atime (by decide)).trans hat] at hc
      exact nomatch hc
    · rintro rfl
      rw [(hnone .mtime (by decide)).trans hmt] at hc
      exact nomatch hc

/-- The query on a current row. -/
theorem finds_iff {other : Text → Text → Option (Option Text × Nat)} {options : FattrOptions}
    {sql : Text} (hsql : options.sql = some sql)
    (htimes : site.mergeColumn = true ∨ options.cond .atime = none ∧ options.cond .mtime = none)
    {h : Hpss} {db : Db} (hcur : AttrsCurrent site o h db) :
    ∃ s, h.record o = some s ∧
      (Finds o other sql db ↔ options.removed = false ∧ ∀ conds, options.conds = some conds →
        ∀ a c, conds a = some c → c.holds (s.column a) = true) := by
  obtain ⟨conds, hconds, -⟩ := Option.map_eq_some_iff.mp hsql
  obtain ⟨s, row, hrec, hone, hvalid, hcolumn⟩ := hcur.row hconds htimes
  refine ⟨s, hrec, ?_⟩
  have hselects : Finds o other sql db ↔ options.selects row = true := by
    constructor
    · rintro ⟨row', hmem, hoid, hsel⟩
      have hat : row' ∈ objectRows o db.object := (mem_rowsAt _).mpr ⟨hmem, hoid⟩
      rw [hone, List.mem_singleton] at hat
      rw [hat, selectsRow_of_options other hsql, Option.some.injEq] at hsel
      exact hsel
    · intro hsel
      obtain ⟨hmem, hoid⟩ := (mem_rowsAt _).mp (hone ▸ List.mem_singleton_self row)
      exact ⟨row, hmem, hoid, by rw [selectsRow_of_options other hsql, hsel]⟩
  have hall : ∀ a, a ∈ CondArg.all := fun a => by cases a <;> decide
  rw [hselects, FattrOptions.selects, hconds]
  simp only [Bool.and_eq_true, decide_eq_true_eq, hvalid, List.all_eq_true, Option.all_eq_true,
    Option.some.injEq, forall_eq']
  refine and_congr (by cases options.removed <;> decide) ⟨fun h a c hc => ?_, fun h a _ c hc => ?_⟩
  · rw [← hcolumn a c hc]
    exact h a (hall a) c hc
  · rw [hcolumn a c hc]
    exact h a c hc

/-- A file in the root directory. -/
def fileRowTen : ObjRow where
  objid := .of 10
  parentId := rootOid
  name := "f".toList
  fileinfoId := some (.of 10)

/-- A file is scanned; then it gets another owner and is read, and is scanned again. -/
def chownedFileRun : List Event :=
  [⟨dayTime 1, .op (.create fileRowTen (some { fileinfoId := .of 10 }))⟩, roundOn 2,
    ⟨dayTime 3, .op (.chattr (.of 10) none none none (some 7) none)⟩,
    ⟨dayTime 4, .op (.utime (.of 10) 99)⟩, roundOn 5]

/-- `--uid=7` -/
def uidSeven : FattrOptions :=
  { cond := Function.update (fun _ => none) .uid (some { op := .cmp .eq, val1 := 7 }) }

theorem windowOpen_chownedFileRun :
    AllSteps (step (utcSite (.of 2))) (WindowOpen (utcSite (.of 2)) (.of 10)) {} chownedFileRun :=
  allSteps_iff.mpr fun _ _ _ _ => .inl (by decide)

/-- A file that was never deleted. -/
theorem valid_iff_chownedFileRun :
    ∃ db, (run (step (utcSite (.of 2))) {} chownedFileRun).index plainTransport = some db ∧
      ∃ row ∈ db.object, (row.valid = true ↔
        ∀ q ∈ (run (step (utcSite (.of 2))) {} chownedFileRun).rounds, row.oid ∉ q.files.deleted) := by
  obtain ⟨db, hdb⟩ := Option.isSome_iff_exists.mp (show
    ((run (step (utcSite (.of 2))) {} chownedFileRun).index plainTransport).isSome from by decide)
  have hne : ∀ db', (run (step (utcSite (.of 2))) {} chownedFileRun).index plainTransport =
      some db' → db'.object ≠ [] := by decide
  obtain ⟨row, hrow⟩ := List.exists_mem_of_ne_nil _ (hne db hdb)
  exact ⟨db, hdb, row, hrow, valid_iff (by decide) hdb hrow⟩

end World

end Hpssix
