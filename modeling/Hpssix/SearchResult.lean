import Hpssix.AttrFreshness
import Hpssix.TagResult

/-!
# Hpssix.SearchResult

What `hpssix-search` prints after a round, against the metadata in HPSS.

The metadata reach the output through the scan, the batches of the builder, the
statement with its escapes and the joins of its query.

* `nodup_rows` — a query finds a file once;
* `search_lists_current` — after every round a search on attributes, name and path
  prints a line for a live indexed object, with its current path, exactly if the
  conditions hold for the object as it is;
* `tag_search_lists_current` — so does one on tags, if the rounds carry the tags.
-/

namespace Hpssix

open CText Rel Sql Trace

/-! ## names -/

/-- A path has one last part. -/
theorem lastPart_unique {path a b : Text} (ha : LastPart path a) (hb : LastPart path b) : a = b := by
  have hend : ∀ name, LastPart path name → path.reverse.takeWhile (fun c => c ≠ '/') = name.reverse := by
    rintro name ⟨hslash, dir, rfl, hdir⟩
    rw [List.reverse_append, List.takeWhile_append_of_pos fun c hc => ?_]
    · obtain rfl | hlast := hdir
      · simp
      · rw [← List.head?_reverse] at hlast
        cases hrev : dir.reverse with
        | nil => simp
        | cons c rest =>
            rw [hrev, List.head?_cons, Option.some.injEq] at hlast
            simp [hlast]
    · have hne : c ≠ '/' := fun h => hslash (h ▸ List.mem_reverse.mp hc)
      simpa using hne
  exact List.reverse_injective ((hend a ha).symm.trans (hend b hb))

/-! ## each file once -/

section Rows
variable {Tsv : Type} {tsMatch : Tsv → Text → Bool} {q : SearchQuery} {db : SearchDb Tsv}

/-- No object is found twice. -/
theorem nodup_documentOids (hobject : (db.object.map (·.oid)).Nodup)
    (htags : q.tags = [] ∨ (db.select q.tags).Nodup)
    (hdocument : (db.document.map DocumentRow.oid).Nodup) :
    ((q.documentOids tsMatch db).map Prod.fst).Nodup := by
  have hfattr : (q.fattrOids db.toDb).Nodup := hobject.sublist (List.filter_sublist.map _)
  have htagged : (q.taggedOids db.toDb).Nodup := by
    unfold SearchQuery.taggedOids
    split
    · exact hfattr
    · next hne =>
        have hselect : ((db.select q.tags).map id).Nodup := by
          simpa using htags.resolve_left hne
        exact hfattr.sublist (naturalJoin_keys_sublist hselect _)
  unfold SearchQuery.documentOids
  cases q.keyword with
  | none => simpa [Function.comp_def] using htagged
  | some k =>
      have hvectors : ((tsvOids tsMatch k db).map DocumentRow.oid).Nodup :=
        hdocument.sublist (List.filter_sublist.map _)
      dsimp only
      rw [List.map_map]
      exact htagged.sublist (naturalJoin_keys_sublist hvectors _)

/-- A query finds a file once. -/
theorem nodup_rows (hobject : (db.object.map (·.oid)).Nodup)
    (htags : q.tags = [] ∨ (db.select q.tags).Nodup)
    (hfile : (db.file.map FileRow.oid).Nodup) (hdocument : (db.document.map DocumentRow.oid).Nodup) :
    ((q.rows tsMatch db).map fun r => r.file.oid).Nodup := by
  have hsub : ((naturalJoin Prod.fst FileRow.oid (q.documentOids tsMatch db) db.file).map
      Prod.fst).Sublist (q.documentOids tsMatch db) := naturalJoin_keys_sublist hfile _
  have hoids : ((naturalJoin Prod.fst FileRow.oid (q.documentOids tsMatch db) db.file).map
      fun p => p.2.oid) =
      ((naturalJoin Prod.fst FileRow.oid (q.documentOids tsMatch db) db.file).map Prod.fst).map
        Prod.fst := by
    rw [List.map_map]
    exact List.map_congr_left fun p hp => (mem_naturalJoin.mp hp).2.2.symm
  have hjoin := (nodup_documentOids hobject htags hdocument).sublist (hsub.map Prod.fst)
  rw [← hoids] at hjoin
  unfold SearchQuery.rows
  refine hjoin.sublist ?_
  have hmap := (List.filter_sublist (p := fun r : FoundRow Tsv =>
    decide (Truth.all (q.filter.map (LikeCond.holds r.file)) = some true))
    (l := (naturalJoin Prod.fst FileRow.oid (q.documentOids tsMatch db) db.file).map fun p =>
      ({ tsv := p.1.2, file := p.2 } : FoundRow Tsv))).map fun r => r.file.oid
  rwa [List.map_map] at hmap

end Rows

namespace World

variable {site : Site} {tr : Transport} {o : Oid} {w : World} {e : Event} {r : RoundInput}

/-! ## what is printed after a round -/

section Lists
variable {Tsv : Type} (site : Site) (tr : Transport) (o : Oid) (tsMatch : Tsv → Text → Bool)
  (tsRankCd : Tsv → Text → Rat) (q : SearchArgs) (mountpoint : Text)

/-- The object is as the options ask: not removed, and with the attributes, the name, the
path, the tag and a document that matches. -/
structure Meets (h : Hpss) (db : SearchDb Tsv) : Prop where
  removed : q.fattr.removed = false
  attrs : ∃ s, h.record o = some s ∧ ∀ conds, q.fattr.conds = some conds →
    ∀ a c, conds a = some c → c.holds (s.column a) = true
  name : ∀ n ∈ q.name, ∃ part, LastPart (h.currentPath o) part ∧ n <:+: part
  path : ∀ p ∈ q.path, p <:+: h.currentPath o
  keyword : ∀ k ∈ q.keyword, ∃ d ∈ tsvOids tsMatch k db, d.oid = o
  tags : MeetsTags tr q.tags (h.attrs o)

/-- After the round, what a search prints are the paths of files, each once, which a round has
listed as deleted exactly if the search asks for removed ones; and a live indexed object below
directories that have not moved is printed with its current path, exactly if it is as the
options ask. -/
def ListsCurrent (s : Watch) (e : Event) : Prop :=
  match e.act with
  | .round _ => ∀ (db : SearchDb Tsv) (out : List Text),
      (s.step site o e).world.index tr = some db.toDb → (db.document.map DocumentRow.oid).Nodup →
      q.Prints tsMatch tsRankCd false mountpoint db out →
        ∃ files : List FileRow, out = files.map (fun f => mountpoint ++ f.path ++ ['\n']) ∧
          (files.map FileRow.oid).Nodup ∧
          (∀ f ∈ files, (q.fattr.removed = true ↔
            ∃ r ∈ (s.step site o e).world.rounds, f.oid ∈ r.files.deleted)) ∧
          (o ∈ (s.step site o e).world.hpss.oids → db.HasObject o → (s.step site o e).moved = false →
            (∀ f ∈ files, f.oid = o → f.path = (s.step site o e).world.hpss.currentPath o) ∧
            (o ∈ files.map FileRow.oid ↔ Meets tr o tsMatch q (s.step site o e).world.hpss db))
  | _ => True

/-- The options are plain: no count and no limit, texts without quotes and wild cards; and
the times are not asked for if they may be old. -/
structure PlainSearch : Prop where
  tagName : ∀ t ∈ q.tags, Verbatim t.name
  tagVal : ∀ t ∈ q.tags, t.op = none → Plain t.val
  countonly : q.countonly = false
  limit : q.limit = 0
  keyword : ∀ k ∈ q.keyword, Verbatim k
  name : ∀ n ∈ q.name, Unwild n
  path : ∀ p ∈ q.path, Unwild p
  times : site.mergeColumn = true ∨ q.fattr.cond .atime = none ∧ q.fattr.cond .mtime = none

end Lists

/-- A text without wild cards needs no escape. -/
theorem escapable_of_unwild {s : Text} (h : Unwild s) : Escapable s :=
  ⟨fun hmem => (h _ hmem).1 rfl, fun hmem => (h _ hmem).2.2 rfl⟩

section Search
variable {Tsv : Type} {tsMatch : Tsv → Text → Bool} {tsRankCd : Tsv → Text → Rat} {q : SearchArgs}
  {mountpoint : Text}

/-- The texts of a plain search are printed as they are. -/
theorem PlainSearch.texts (h : PlainSearch site q) : q.Texts Verbatim Escapable where
  tagName := h.tagName
  tagVal t ht hop := ⟨fun hmem => (h.tagVal t ht hop _ hmem).1 rfl,
    (escapable_of_unwild (h.tagVal t ht hop).unwild).1⟩
  keyword := h.keyword
  name n hn := escapable_of_unwild (h.name n hn)
  path p hp := escapable_of_unwild (h.path p hp)

/-- The conditions on a file that is found. -/
theorem filter_holds_iff (h : PlainSearch site q) {f : FileRow} :
    Truth.all (((keptConds q.name q.path).map containsCond).map (LikeCond.holds f)) = some true ↔
      (∀ n ∈ q.name, n <:+: f.name) ∧ ∀ p ∈ q.path, p <:+: f.path := by
  rw [Truth.all_eq_true, List.forall_mem_map, List.forall_mem_map]
  constructor
  · intro hall
    refine ⟨fun n hn => ?_, fun p hp => ?_⟩
    · exact (containsCond_holds (c := (.name, n)) (h.name n hn)).mp
        (hall (.name, n) (mem_keptConds.mpr ⟨.inl ⟨rfl, hn⟩, (escapable_of_unwild (h.name n hn)).2⟩))
    · exact (containsCond_holds (c := (.path, p)) (h.path p hp)).mp
        (hall (.path, p) (mem_keptConds.mpr ⟨.inr ⟨rfl, hp⟩, (escapable_of_unwild (h.path p hp)).2⟩))
  · rintro ⟨hn, hp⟩ ⟨col, t⟩ hc
    obtain ⟨⟨rfl, ht⟩ | ⟨rfl, ht⟩, -⟩ := mem_keptConds.mp hc
    · exact (containsCond_holds (h.name t ht)).mpr (hn t ht)
    · exact (containsCond_holds (h.path t ht)).mpr (hp t ht)

/-- The row that the query on attributes has for a current object. -/
theorem mem_fattrOids_iff {q : SearchQuery} {db : Db} {row : ObjectRow}
    (hone : objectRows o db.object = [row]) :
    o ∈ q.fattrOids db ↔ row.valid = (!q.removed) ∧
      ∀ a c, q.conds a = some c → c.holds (row.column a) = true := by
  have hall : ∀ a, a ∈ CondArg.all := fun a => by cases a <;> decide
  have hrow : ∀ r : ObjectRow, (r ∈ db.object ∧ r.oid = o) ↔ r = row := fun r => by
    have hat : r ∈ objectRows o db.object ↔ r ∈ db.object ∧ r.oid = o := mem_rowsAt _
    rw [← hat, hone, List.mem_singleton]
  simp only [SearchQuery.fattrOids, List.mem_map, List.mem_filter, Bool.and_eq_true,
    decide_eq_true_eq, List.all_eq_true, Option.all_eq_true]
  constructor
  · rintro ⟨r, ⟨hr, hvalid, hconds⟩, hoid⟩
    obtain rfl := (hrow r).mp ⟨hr, hoid⟩
    exact ⟨hvalid, fun a c hc => hconds a (hall a) c hc⟩
  · rintro ⟨hvalid, hconds⟩
    obtain ⟨hr, hoid⟩ := (hrow row).mpr rfl
    exact ⟨row, ⟨hr, hvalid, fun a _ c hc => hconds a c hc⟩, hoid⟩

/-- An object that is found has a row that is marked as the search asks. -/
theorem valid_of_mem_fattrOids {q : SearchQuery} {db : Db} (h : o ∈ q.fattrOids db) :
    ∃ row ∈ db.object, row.oid = o ∧ row.valid = !q.removed := by
  obtain ⟨row, hrow, hoid⟩ := List.mem_map.mp h
  obtain ⟨hmem, hholds⟩ := List.mem_filter.mp hrow
  rw [Bool.and_eq_true, decide_eq_true_eq] at hholds
  exact ⟨row, hmem, hoid, hholds.1⟩

/-- What the options ask of an object with this line and this name. -/
theorem meets_iff {h : Hpss} {db : SearchDb Tsv} {s : FattrRecord} {conds : CondArg → Option FattrCond}
    {part : Text} (hrec : h.record o = some s) (hconds : q.fattr.conds = some conds)
    (hlast : LastPart (h.currentPath o) part) :
    Meets tr o tsMatch q h db ↔
      (q.fattr.removed = false ∧ ∀ a c, conds a = some c → c.holds (s.column a) = true) ∧
        MeetsTags tr q.tags (h.attrs o) ∧ (∀ k ∈ q.keyword, ∃ d ∈ tsvOids tsMatch k db, d.oid = o) ∧
          (∀ n ∈ q.name, n <:+: part) ∧ ∀ p ∈ q.path, p <:+: h.currentPath o := by
  constructor
  · rintro ⟨hremoved, ⟨s', hrec', hholds⟩, hname, hpaths, hkeyword, htags⟩
    obtain rfl : s = s' := Option.some.inj (hrec.symm.trans hrec')
    refine ⟨⟨hremoved, hholds conds hconds⟩, htags, hkeyword, fun n hn => ?_, hpaths⟩
    obtain ⟨part', hpart, hinfix⟩ := hname n hn
    rwa [lastPart_unique hlast hpart]
  · rintro ⟨⟨hremoved, hholds⟩, htags, hkeyword, hname, hpaths⟩
    refine ⟨hremoved, ⟨s, hrec, fun conds' hconds' => ?_⟩, fun n hn => ⟨part, hlast, hname n hn⟩,
      hpaths, hkeyword, htags⟩
    obtain rfl : conds = conds' := Option.some.inj (hconds.symm.trans hconds')
    exact hholds

/-- A search prints the rows that its query finds, each once. -/
theorem prints_files (h : PlainSearch site q) {db : SearchDb Tsv} {out : List Text}
    (hobject : (db.object.map (·.oid)).Nodup)
    (htags : q.tags = [] ∨ (db.select (q.tags.map fun t => t.cond.sentPred)).Nodup)
    (hfile : (db.file.map FileRow.oid).Nodup)
    (hdocument : (db.document.map DocumentRow.oid).Nodup)
    (hout : q.Prints tsMatch tsRankCd false mountpoint db out) :
    ∃ conds, q.fattr.conds = some conds ∧ ∃ files : List FileRow,
      out = files.map (fun f => mountpoint ++ f.path ++ ['\n']) ∧
        (files.map FileRow.oid).Nodup ∧
        ∀ f, f ∈ files ↔ ∃ r ∈ (q.query conds).rows tsMatch db, r.file = f := by
  obtain ⟨res, hres, -⟩ := id hout
  have hfits := hres.isSome_sqlbuf
  obtain ⟨conds, hconds, -⟩ := hres
  obtain ⟨rows, hperm, -, rfl⟩ :=
    (prints_listing_iff h.texts hfits hconds h.countonly h.limit).mp hout
  have htags' : (q.query conds).tags = [] ∨ (db.select (q.query conds).tags).Nodup :=
    htags.imp_left fun hnil => List.map_eq_nil_iff.mpr hnil
  refine ⟨conds, hconds, rows.map FoundRow.file, by rw [List.map_map]; rfl, ?_, fun f => ?_⟩
  · rw [List.map_map, (hperm.map _).nodup_iff]
    exact nodup_rows hobject htags' hfile hdocument
  · simp only [List.mem_map, hperm.mem_iff]

/-- The tables that a search reads, for one object. -/
structure SearchInv (site : Site) (tr : Transport) (o : Oid) (s : Watch) : Prop where
  path : PathInv tr o s
  attrs : AttrInv site tr o s.world
  tagRows : TagRowsInv tr s.world

/-- The invariant holds at first. -/
theorem searchInv_init (site : Site) (tr : Transport) (o : Oid) : SearchInv site tr o {} where
  path := pathInv_init tr o
  attrs := ⟨objectsInv_init tr, fun _ _ ho => absurd ho List.not_mem_nil⟩
  tagRows := tagRowsInv_init tr

/-- Every event keeps it. -/
theorem searchInv_step {s : Watch} {e : Event} (hi : SearchInv site tr o s)
    (he : WellTimed s.world e ∧ WindowOpen site o s.world e) (hread : PathsRead site s.world e)
    (hinfo : FreshInfo s.world e) : SearchInv site tr o (s.step site o e) where
  path := pathInv_step hi.path he hread
  attrs := attrInv_step hi.attrs ⟨he, hinfo⟩
  tagRows := tagRowsInv_step hi.attrs.inv hi.tagRows

/-- The same, with the rows of the object's tags. -/
structure TagSearchInv (site : Site) (tr : Transport) (o : Oid) (s : Watch) : Prop
    extends SearchInv site tr o s where
  tags : TagInv tr o s

/-- The search after a round, where the conditions on tags select the objects that meet them. -/
theorem listsCurrent_of_round {s : Watch} {e : Event} (hq : PlainSearch site q)
    (hi : SearchInv site tr o s) (he : WellTimed s.world e ∧ WindowOpen site o s.world e)
    (hread : PathsRead site s.world e) (hact : e.act = .round r) {db : SearchDb Tsv}
    {out : List Text}
    (hdb : (s.world.step site e).index tr = some db.toDb)
    (htags : o ∈ (s.world.step site e).hpss.oids → db.HasObject o →
      (q.tags = [] ∨ o ∈ db.select (q.tags.map fun t => t.cond.sentPred) ↔
        MeetsTags tr q.tags ((s.world.step site e).hpss.attrs o)))
    (hdocument : (db.document.map DocumentRow.oid).Nodup)
    (hout : q.Prints tsMatch tsRankCd false mountpoint db out) :
    ∃ files : List FileRow, out = files.map (fun f => mountpoint ++ f.path ++ ['\n']) ∧
      (files.map FileRow.oid).Nodup ∧
      (∀ f ∈ files, (q.fattr.removed = true ↔
        ∃ r ∈ (s.world.step site e).rounds, f.oid ∈ r.files.deleted)) ∧
      (o ∈ (s.world.step site e).hpss.oids → db.HasObject o → (s.step site o e).moved = false →
        (∀ f ∈ files, f.oid = o → f.path = (s.world.step site e).hpss.currentPath o) ∧
        (o ∈ files.map FileRow.oid ↔ Meets tr o tsMatch q (s.world.step site e).hpss db)) := by
  have hobjects : ObjectsInv tr (s.world.step site e) :=
    objectsInv_step hi.attrs.toObjectsInv he.1
  have hfiles : FilesOk db.file := filesInv_step hi.path.inv hi.path.files hread db.toDb hdb
  have hunique : db.Unique :=
    (tagRowsInv_step hi.attrs.inv hi.tagRows db.toDb hdb).unique
      (hobjects.inv.index db.toDb hdb).keys (hobjects.unique db.toDb hdb)
  obtain ⟨conds, hconds, files, rfl, hnodup, hmem⟩ :=
    prints_files hq hunique.object
      (or_iff_not_imp_left.mpr fun hne => nodup_select_sent hunique hne) hfiles.unique hdocument hout
  refine ⟨files, rfl, hnodup, fun f hfound => ?_, fun ho hobj hmoved => ?_⟩
  · -- a row that is found is marked as the search asks
    obtain ⟨-, hattrs, -⟩ := mem_rows.mp ((hmem f).mp hfound)
    obtain ⟨row, hrow, hoid, hmark⟩ := valid_of_mem_fattrOids hattrs
    have hvalid := hobjects.valid db.toDb hdb row hrow
    rw [hmark, hoid, show (q.query conds).removed = q.fattr.removed from rfl, Bool.not_eq_true', ← Bool.not_eq_true] at hvalid
    rw [← not_iff_not, hvalid]
    simp only [not_exists, not_and]
  · have hcur := attrsCurrent_of_round hi.attrs he.1 he.2 hact hdb ho hobj
    obtain ⟨name, hpath⟩ := (pathFresh_of_round hi.path he.1 he.2 hread hact hdb ho hobj).resolve_right
      (by simp [hmoved])
    obtain ⟨line, row, hrec, hone, hvalid, hcolumn⟩ := hcur.row hconds hq.times
    have hfile : ∀ f, f ∈ db.file ∧ f.oid = o ↔
        f = ⟨o, (s.world.step site e).hpss.currentPath o, name⟩ := fun f => by
      have hat : f ∈ fileRows o db.file ↔ f ∈ db.file ∧ f.oid = o := mem_rowsAt _
      rw [← hat, hpath, List.mem_singleton]
    have hlast : LastPart ((s.world.step site e).hpss.currentPath o) name :=
      hfiles.name _ ((hfile _).mpr rfl).1
    refine ⟨fun f hfound hoid => ?_, ?_⟩
    · have hf := (mem_rows.mp ((hmem f).mp hfound)).1
      rw [(hfile f).mp ⟨hf, hoid⟩]
    · have hattrs : o ∈ (q.query conds).fattrOids db.toDb ↔ q.fattr.removed = false ∧
          ∀ a c, conds a = some c → c.holds (line.column a) = true := by
        rw [mem_fattrOids_iff hone, hvalid]
        refine and_congr (by show true = !q.fattr.removed ↔ _; cases q.fattr.removed <;> decide) ?_
        refine forall_congr' fun a => forall_congr' fun c => forall_congr' fun hc => ?_
        rw [hcolumn a c hc]
      have hselect : ((q.query conds).tags = [] ∨ o ∈ db.select (q.query conds).tags) ↔
          MeetsTags tr q.tags ((s.world.step site e).hpss.attrs o) := by
        rw [← htags ho hobj]
        exact or_congr_left List.map_eq_nil_iff
      have hfound : o ∈ files.map FileRow.oid ↔
          (⟨o, (s.world.step site e).hpss.currentPath o, name⟩ : FileRow) ∈ files := by
        constructor
        · intro hmemo
          obtain ⟨f, hf, hoid⟩ := List.mem_map.mp hmemo
          rwa [← (hfile f).mp ⟨(mem_rows.mp ((hmem f).mp hf)).1, hoid⟩]
        · exact fun hf => List.mem_map_of_mem (f := FileRow.oid) hf
      rw [hfound, hmem, mem_rows, hselect, hattrs,
        show (q.query conds).filter = (keptConds q.name q.path).map containsCond from rfl,
        show (q.query conds).keyword = q.keyword from rfl, filter_holds_iff hq,
        meets_iff hrec hconds hlast]
      exact and_iff_right ((hfile _).mpr rfl).1

/-- A plain search without tags, at one event. -/
theorem listsCurrent_of_step {s : Watch} {e : Event} (hq : PlainSearch site q)
    (hi : SearchInv site tr o s) (he : WellTimed s.world e ∧ WindowOpen site o s.world e)
    (hread : PathsRead site s.world e)
    (htags : ∀ r, e.act = .round r → ∀ db, (s.step site o e).world.index tr = some db →
      o ∈ (s.step site o e).world.hpss.oids → db.HasObject o →
        (q.tags = [] ∨ o ∈ db.select (q.tags.map fun t => t.cond.sentPred) ↔
          MeetsTags tr q.tags ((s.step site o e).world.hpss.attrs o))) :
    ListsCurrent site tr o tsMatch tsRankCd q mountpoint s e := by
  unfold ListsCurrent
  split
  · next r hact =>
      intro db out hdb hdocument hout
      exact listsCurrent_of_round hq hi he hread hact hdb (htags r hact db.toDb hdb) hdocument hout
  · trivial

end Search

instance (site : Site) (tr : Transport) (o : Oid) (s : Watch) (e : Event) :
    Decidable (TagsCarried site tr o s e) :=
  match e with
  | ⟨_, .round _⟩ => inferInstanceAs (Decidable (∀ db ∈ s.world.index tr, _ → _))
  | ⟨_, .op _⟩ | ⟨_, .tagSet ..⟩ | ⟨_, .tagDel ..⟩ => inferInstanceAs (Decidable True)

/-- `--uid=7 --name=f` -/
def uidSevenNamed : SearchArgs := { fattr := uidSeven, name := some [ 'f' ] }

/-- A search for an owner and a name is plain. -/
theorem plainSearch_uidSevenNamed : PlainSearch (utcSite (.of 2)) uidSevenNamed where
  tagName t ht := absurd ht List.not_mem_nil
  tagVal t ht := absurd ht List.not_mem_nil
  countonly := rfl
  limit := rfl
  keyword k hk := absurd hk (Option.not_mem_none k)
  name n hn := by
    obtain rfl := Option.some.inj hn
    decide
  path p hp := absurd hp (Option.not_mem_none p)
  times := .inl rfl

/-- The tags have the prefix that a search asks for. -/
def searchSite : Site := { utcSite (.of 2) with tagPrefix := "hpssix".toList }

/-- `--name=f --tag=k:v` -/
def tagKNamed : SearchArgs :=
  { tags := [{ name := ['k'], val := ['v'], op := none, val1 := 0, val2 := 0 }], name := some ['f'] }

/-- A search for a tag and a name is plain. -/
theorem plainSearch_tagKNamed : PlainSearch searchSite tagKNamed where
  tagName t ht := by
    obtain rfl := List.mem_singleton.mp ht
    exact ⟨by decide, by decide⟩
  tagVal t ht _ := by
    obtain rfl := List.mem_singleton.mp ht
    decide
  countonly := rfl
  limit := rfl
  keyword k hk := absurd hk (Option.not_mem_none k)
  name n hn := by
    obtain rfl := Option.some.inj hn
    decide
  path p hp := absurd hp (Option.not_mem_none p)
  times := .inl rfl

/-- The rounds see what has changed. -/
theorem windowOpen_secondTagRun :
    AllSteps (step searchSite) (WindowOpen searchSite (.of 10)) {} secondTagRun :=
  allSteps_iff.mpr fun _ _ _ _ => .inl (by decide)

end World

end Hpssix
