import Hpssix.BuilderRun

/-!
# Hpssix.ExtFilter

The whitelist of file extensions (`hpssix_extfilter_get`), and which files of a
batch the builder hands to the extractor
(`builder_filter_meta_extract`, `hpssix_builder_create_workdata`).

* `extraction_iff` — the comparison looks at as many characters as the file's
  own extension has, so it accepts what begins a whitelisted extension.
-/

namespace Hpssix

open CText Rel

/-- `NAME_MAX`, the size of the buffer for an extension. -/
def nameMax : Nat := 255

/-! ## the whitelist -/

/-- A text without the white space at its end. -/
def trimEnd (s : Text) : Text := (s.reverse.dropWhile isSpace).reverse

/-- `trim_extension`. -/
def trimExtension (s : Text) : Text := (trimEnd s).map Char.toLower

/-- The extension on a line; a line that begins with white space or `#` has
none. -/
def extfilterEntry : Text → Option Text
  | [] => none
  | c :: cs => if isSpace c || c = '#' then none else some (trimExtension (c :: cs))

/-- `hpssix_extfilter_get`, on the text of the file. -/
def extfilterGet (file : Text) : List Text := (fgets (lineMax - 1) file).filterMap extfilterEntry

/-- The whitelisted extensions, in lower case. -/
def extensions (file : Text) : List Text := (lines file).filterMap extfilterEntry

/-- White space at the end is cut off. -/
theorem trimEnd_append {s ws : Text} (h : ∀ c ∈ ws, isSpace c = true) :
    trimEnd (s ++ ws) = trimEnd s := by
  rw [trimEnd, trimEnd, List.reverse_append, List.dropWhile_append_of_pos]
  simpa using h

/-- Only white space is cut off. -/
theorem exists_trimEnd (s : Text) :
    ∃ ws, s = trimEnd s ++ ws ∧ ∀ c ∈ ws, isSpace c = true := by
  refine ⟨(s.reverse.takeWhile isSpace).reverse, ?_, fun c hc => ?_⟩
  · rw [trimEnd, ← List.reverse_append, List.takeWhile_append_dropWhile, List.reverse_reverse]
  · exact List.all_eq_true.mp List.all_takeWhile c (List.mem_reverse.mp hc)

/-- A piece that has the whole extension of a line has the same extension. -/
theorem extfilterEntry_of_piece {l piece : Text} {room : Nat} (hne : l ≠ [])
    (hlen : (trimEnd l).length ≤ room) (hroom : 0 < room) (hpre : l.take room <+: piece)
    (hpost : piece <+: l ++ ['\n']) : extfilterEntry piece = extfilterEntry l := by
  have hhead : ∃ c cs cs', l = c :: cs ∧ piece = c :: cs' := by
    obtain ⟨c, cs, rfl⟩ := List.exists_cons_of_ne_nil hne
    obtain ⟨n, rfl⟩ : ∃ n, room = n + 1 := ⟨room - 1, by omega⟩
    obtain ⟨t, rfl⟩ := hpre
    exact ⟨c, cs, _, rfl, rfl⟩
  have htrim : trimEnd piece = trimEnd l := by
    obtain ⟨r, ws, rfl, hlen, hws⟩ : ∃ r ws, l = r ++ ws ∧ r.length ≤ room ∧
        ∀ c ∈ ws, isSpace c = true :=
      (exists_trimEnd l).elim fun ws h => ⟨trimEnd l, ws, h.1, hlen, h.2⟩
    rw [List.take_append, List.take_of_length_le hlen] at hpre
    obtain ⟨more, rfl⟩ := (List.prefix_append r _).trans hpre
    rw [List.append_assoc, List.prefix_append_right_inj] at hpost
    have hmore : ∀ c ∈ more, isSpace c = true := fun c hc => by
      obtain hc | hc := List.mem_append.mp (hpost.subset hc)
      · exact hws c hc
      · rw [List.mem_singleton.mp hc]
        rfl
    rw [trimEnd_append hmore, trimEnd_append hws]
  obtain ⟨c, cs, cs', rfl, rfl⟩ := hhead
  rw [extfilterEntry, extfilterEntry, trimExtension, trimExtension, htrim]

theorem length_of_extfilterEntry {l ext : Text} (h : extfilterEntry l = some ext) :
    ext.length = (trimEnd l).length := by
  unfold extfilterEntry at h
  split at h
  · contradiction
  · split at h
    · contradiction
    · rw [← Option.some.inj h, trimExtension, List.length_map]

/-- A whitelisted extension is loaded, unless its line is too long. -/
theorem mem_extfilterGet {file ext : Text} (h : ext ∈ extensions file)
    (hlen : ext.length ≤ lineMax - 2) : ext ∈ extfilterGet file := by
  obtain ⟨l, hl, hentry⟩ := List.mem_filterMap.mp h
  have hne : l ≠ [] := by
    rintro rfl
    simp [extfilterEntry] at hentry
  obtain ⟨k, ks, hk⟩ := List.exists_cons_of_ne_nil (List.splitOn_ne_nil '\n' file)
  have hpieces := fgetsFrom_lines (lineMax - 1 - 1) [] (lineMax - 1 - 1) (by decide) file hk (by decide)
  have hpiece : ∃ piece ∈ fgets (lineMax - 1) file,
      l.take (lineMax - 2) <+: piece ∧ piece <+: l ++ ['\n'] := by
    rw [lines, hk] at hl
    obtain rfl | hl := List.mem_cons.mp hl
    · exact hpieces.1 hne
    · exact hpieces.2 l hl hne
  obtain ⟨piece, hp, hpre, hpost⟩ := hpiece
  rw [length_of_extfilterEntry hentry] at hlen
  refine List.mem_filterMap.mpr ⟨piece, hp, ?_⟩
  rw [extfilterEntry_of_piece hne hlen (by decide) hpre hpost, hentry]

/-! ## one file -/

/-- The text after the last point of the last component of a path. -/
def extensionOf (path : Text) : Option Text := do
  let filename ← strrchr '/' path
  let extpos ← strrchr '.' (filename.drop 1)
  pure (extpos.drop 1)

/-- `S_ISREG`. -/
def isReg (stMode : Nat) : Bool := stMode &&& 0o170000 = 0o100000

/-- `builder_filter_meta_extract` with its buffer `ext[NAME_MAX]`: there is no
result if `strcpy` writes past its end. -/
def metaExtract (filter : MetaFilter) (path : Text) (stMode stSize : Nat) : Option Bool :=
  if isReg stMode ∧ stSize ≤ filter.maxfilesize ∧
      (extensionOf path).any (fun ext => nameMax ≤ ext.length) then none
  else some (builderFilterMetaExtract filter path stMode stSize)

/-- The path has a last component with this extension. -/
def HasExtension (path ext : Text) : Prop :=
  ∃ dir stem, path = dir ++ '/' :: (stem ++ '.' :: ext) ∧ '/' ∉ stem ∧ '/' ∉ ext ∧ '.' ∉ ext

/-- The file is to be extracted: a regular file, not too large, with a whitelisted
extension in any case. -/
structure Whitelisted (file : Text) (maxfilesize : Nat) (path : Text) (stMode stSize : Nat) :
    Prop where
  regular : isReg stMode = true
  size : stSize ≤ maxfilesize
  extension : ∃ ext, HasExtension path ext ∧ ext.map Char.toLower ∈ extensions file

/-- The extension of a path is what follows the last point. -/
theorem extensionOf_eq_some_iff {path ext : Text} :
    extensionOf path = some ext ↔ HasExtension path ext := by
  simp only [extensionOf, Option.bind_eq_bind, Option.bind_eq_some_iff, strrchr_eq_some_iff,
    Option.pure_def, Option.some.injEq]
  constructor
  · rintro ⟨_, ⟨dir, name, rfl, hname, rfl⟩, _, ⟨stem, ext', hsplit, hdot, rfl⟩, rfl⟩
    simp only [List.drop_succ_cons, List.drop_zero] at hsplit ⊢
    subst hsplit
    rw [List.mem_append, List.mem_cons, not_or, not_or] at hname
    exact ⟨dir, stem, rfl, hname.1, hname.2.2, hdot⟩
  · rintro ⟨dir, stem, rfl, hstem, hext, hdot⟩
    refine ⟨_, ⟨dir, _, rfl, ?_, rfl⟩, _, ⟨stem, ext, rfl, hdot, rfl⟩, rfl⟩
    simp [hstem, hext]

/-- The filter accepts what begins one of its extensions. -/
theorem builderFilterMetaExtract_iff (filter : MetaFilter) (path : Text) (stMode stSize : Nat) :
    builderFilterMetaExtract filter path stMode stSize = true ↔
      isReg stMode = true ∧ stSize ≤ filter.maxfilesize ∧
        ∃ ext, extensionOf path = some ext ∧
          ∃ e ∈ filter.exts, ext.map Char.toLower <+: e := by
  by_cases hreg : stMode &&& 0o170000 = 0o100000
  · by_cases hsize : stSize > filter.maxfilesize
    · simp [builderFilterMetaExtract, isReg, hreg, hsize, Nat.not_le.mpr hsize]
    · cases hslash : strrchr '/' path with
      | none => simp [builderFilterMetaExtract, extensionOf, isReg, hreg, hslash]
      | some filename =>
          cases hdot : strrchr '.' (filename.drop 1) with
          | none => simp [builderFilterMetaExtract, extensionOf, hslash, hdot, -List.drop_one]
          | some extpos =>
              simp [builderFilterMetaExtract, extensionOf, isReg, hreg, hsize, hslash, hdot,
                Nat.le_of_not_gt hsize, -List.drop_one]
  · simp [builderFilterMetaExtract, isReg, hreg]

/-- The bound of the buffer does not change the answer. -/
theorem eq_of_metaExtract {filter : MetaFilter} {path : Text} {stMode stSize : Nat} {b : Bool}
    (h : metaExtract filter path stMode stSize = some b) :
    b = builderFilterMetaExtract filter path stMode stSize := by
  unfold metaExtract at h
  split at h
  · contradiction
  · exact (Option.some.inj h).symm

section OneFile
variable (file : Text) (maxfilesize : Nat) (path : Text) (stMode stSize : Nat)

/-- Where the extension of a file is compared, it fits into its buffer, and it
begins an extension that is loaded only if it is whitelisted itself. -/
def ExtensionClear : Prop :=
  isReg stMode = true → stSize ≤ maxfilesize → ∀ ext, extensionOf path = some ext →
    ext.length < nameMax ∧ ∀ e ∈ extfilterGet file, ext.map Char.toLower <+: e →
      ext.map Char.toLower ∈ extensions file

/-- The filter has a result, and selects the file if it is to be extracted. -/
def Selects : Prop :=
  ∃ b, metaExtract ⟨extfilterGet file, maxfilesize⟩ path stMode stSize = some b ∧
    (b = true ↔ Whitelisted file maxfilesize path stMode stSize)

/-- A path is selected exactly if its extension is clear. -/
theorem selects_iff : Selects file maxfilesize path stMode stSize ↔
    ExtensionClear file maxfilesize path stMode stSize := by
  have hlisted : Whitelisted file maxfilesize path stMode stSize ↔
      isReg stMode = true ∧ stSize ≤ maxfilesize ∧
        ∃ ext, extensionOf path = some ext ∧ ext.map Char.toLower ∈ extensions file := by
    simp only [extensionOf_eq_some_iff]
    exact ⟨fun h => ⟨h.1, h.2, h.3⟩, fun h => ⟨h.1, h.2.1, h.2.2⟩⟩
  have hfilter := builderFilterMetaExtract_iff ⟨extfilterGet file, maxfilesize⟩ path stMode stSize
  rw [Selects, ExtensionClear, hlisted]
  by_cases hreach : isReg stMode = true ∧ stSize ≤ maxfilesize
  · obtain ⟨hreg, hsize⟩ := hreach
    cases hext : extensionOf path with
    | none =>
        have hnot : builderFilterMetaExtract ⟨extfilterGet file, maxfilesize⟩ path stMode stSize =
            false := by simpa [hext] using hfilter
        simp [metaExtract, hext, hnot]
    | some ext =>
        by_cases hlong : nameMax ≤ ext.length
        · simp [metaExtract, hreg, hsize, hext, hlong, Nat.not_lt.mpr hlong]
        · have hlen := Nat.lt_of_not_ge hlong
          have hloaded : ext.map Char.toLower ∈ extensions file →
              ∃ e ∈ extfilterGet file, ext.map Char.toLower <+: e := fun h =>
            ⟨_, mem_extfilterGet h (by
              rw [List.length_map]
              exact hlen.le.trans (by decide)), List.prefix_rfl⟩
          have hresult : metaExtract ⟨extfilterGet file, maxfilesize⟩ path stMode stSize =
              some (builderFilterMetaExtract ⟨extfilterGet file, maxfilesize⟩ path stMode stSize) := by
            simp [metaExtract, hext, hlong]
          simp only [hresult, hext, hfilter, hreg, hsize, hlen, Option.some.injEq, exists_eq_left',
            true_and, true_imp_iff, forall_eq'] at hloaded ⊢
          exact ⟨fun h e he hpre => h.mp ⟨e, he, hpre⟩, fun h => ⟨fun ⟨e, he, hpre⟩ => h e he hpre,
            hloaded⟩⟩
  · have hnot : builderFilterMetaExtract ⟨extfilterGet file, maxfilesize⟩ path stMode stSize =
        false := by
      rw [← Bool.not_eq_true, hfilter]
      exact fun h => hreach ⟨h.1, h.2.1⟩
    have hresult : metaExtract ⟨extfilterGet file, maxfilesize⟩ path stMode stSize = some false := by
      rw [metaExtract, if_neg fun h => hreach ⟨h.1, h.2.1⟩, hnot]
    refine iff_of_true ⟨false, hresult, ?_⟩ fun hreg hsize => absurd ⟨hreg, hsize⟩ hreach
    exact iff_of_false Bool.false_ne_true fun h => hreach ⟨h.1, h.2.1⟩

end OneFile

/-! ## a batch -/

/-- The rows that `hpssix_builder_create_workdata` appends to its new file. -/
def builderWorkdata (filter : MetaFilter) (s : Session) : List WorkRow :=
  appendAll ((regularFiles filter s).map fun f => (UInt64.ofNat f.1.val, f.2)) []

section Batch
variable {file : Text} {maxfilesize : Nat} {object : List ObjectCols} {paths : List (Oid × Text)}

/-- The filter selects the right files of a batch, and the workdata file lists
those that it selected and that are not empty, each once. -/
structure ExtractionOk (file : Text) (maxfilesize : Nat) (object : List ObjectCols)
    (paths : List (Oid × Text)) (s : Session) : Prop where
  selects : ∀ c ∈ object, ∀ f ∈ paths, f.1 = c.oid →
    Selects file maxfilesize f.2 c.stMode c.stSize
  workdata : ∃ sel : List (Oid × Text),
    (builderWorkdata ⟨extfilterGet file, maxfilesize⟩ s).map (fun r => (r.pid.toUInt64, r.path)) =
        sel.map (fun f => (UInt64.ofNat f.1.val, f.2)) ∧
      sel.Nodup ∧ ∀ f, f ∈ sel ↔ f ∈ paths ∧ ∃ c ∈ object, c.oid = f.1 ∧ 0 < c.stSize ∧
        metaExtract ⟨extfilterGet file, maxfilesize⟩ f.2 c.stMode c.stSize = some true

/-- The files that the builder takes. -/
theorem mem_regularFiles {filter : MetaFilter} {s : Session} (hobj : s.object = some object)
    (hfile : s.file = some paths) {f : Oid × Text} : f ∈ regularFiles filter s ↔
      f ∈ paths ∧ ∃ c ∈ object, c.oid = f.1 ∧ 0 < c.stSize ∧
        builderFilterMetaExtract filter f.2 c.stMode c.stSize = true := by
  simp only [regularFiles, hobj, hfile, Option.getD_some, List.mem_flatMap, List.mem_filter,
    decide_eq_true_eq]
  constructor
  · rintro ⟨c, ⟨hc, hsize⟩, hf, hoid, hsel⟩
    exact ⟨hf, c, hc, hoid.symm, hsize, hsel⟩
  · rintro ⟨hf, c, hc, hoid, hsize, hsel⟩
    exact ⟨c, ⟨hc, hsize⟩, hf, hoid.symm, hsel⟩

/-- No file is taken twice. -/
theorem nodup_regularFiles {filter : MetaFilter} {s : Session} (hobj : s.object = some object)
    (hfile : s.file = some paths) (hn : (object.map ObjectCols.oid).Nodup)
    (hp : (paths.map Prod.fst).Nodup) : (regularFiles filter s).Nodup := by
  rw [regularFiles, hobj, hfile, Option.getD_some, Option.getD_some, List.nodup_flatMap]
  refine ⟨fun c _ => (hp.of_map _).filter _, ?_⟩
  refine ((List.pairwise_map.mp hn).filter _).imp fun {c d} hne => ?_
  intro f hc hd
  have hcf := of_decide_eq_true (List.mem_filter.mp hc).2
  have hdf := of_decide_eq_true (List.mem_filter.mp hd).2
  exact hne (hcf.1.symm.trans hdf.1)

/-- **Extraction**: the files of a batch are handed on as the whitelist says
exactly if no file's extension is the beginning of a whitelisted one only. -/
theorem extraction_iff {s : Session} (hobj : s.object = some object) (hfile : s.file = some paths)
    (hn : (object.map ObjectCols.oid).Nodup) (hp : (paths.map Prod.fst).Nodup) :
    ExtractionOk file maxfilesize object paths s ↔ ∀ c ∈ object, ∀ f ∈ paths, f.1 = c.oid →
      ExtensionClear file maxfilesize f.2 c.stMode c.stSize := by
  constructor
  · exact fun h c hc f hf hfc => (selects_iff ..).mp (h.selects c hc f hf hfc)
  · intro h
    have hsel : ∀ c ∈ object, ∀ f ∈ paths, f.1 = c.oid →
        Selects file maxfilesize f.2 c.stMode c.stSize := fun c hc f hf hfc =>
      (selects_iff ..).mpr (h c hc f hf hfc)
    refine ⟨hsel, regularFiles ⟨extfilterGet file, maxfilesize⟩ s, ?_,
      nodup_regularFiles hobj hfile hn hp, fun f => ?_⟩
    · have hrows := congrArg (List.map fun p : Int64 × Text => (p.1.toUInt64, p.2))
        (map_appendAll ((regularFiles ⟨extfilterGet file, maxfilesize⟩ s).map
          fun f => (UInt64.ofNat f.1.val, f.2)) [])
      simpa [builderWorkdata, List.map_map, Function.comp_def] using hrows
    · rw [mem_regularFiles hobj hfile]
      refine and_congr_right fun hf => exists_congr fun c => and_congr_right fun hc =>
        and_congr_right fun hoid => and_congr_right fun _ => ?_
      obtain ⟨b, hb, _⟩ := hsel c hc f hf hoid.symm
      rw [hb, ← eq_of_metaExtract hb, Option.some.injEq]

end Batch

/-- A whitelist with one extension. -/
def docFilter : Text := "# documents\ndoc\n".toList

/-- The tables of a batch with one regular file of ten bytes. -/
def oneFileSession (path : Text) : Session where
  db := {}
  object := some [{ fileTenCols with stSize := 10 }]
  file := some [(.of 10, path)]

/-- With `doc` in the whitelist, a file `b.do` is selected. -/
theorem prefix_of_extension_selected : ¬ ∀ (file : Text) (maxfilesize : Nat)
    (object : List ObjectCols) (paths : List (Oid × Text)) (s : Session),
      s.object = some object → s.file = some paths → (object.map ObjectCols.oid).Nodup →
        (paths.map Prod.fst).Nodup → ExtractionOk file maxfilesize object paths s := by
  intro h
  have hok := h docFilter 100 _ _ (oneFileSession "/a/b.do".toList) rfl rfl (by decide) (by decide)
  obtain ⟨b, hb, hiff⟩ := hok.selects _ List.mem_cons_self _ List.mem_cons_self rfl
  obtain rfl : b = true := (eq_of_metaExtract hb).trans (by decide +kernel)
  obtain ⟨ext, hext, hmem⟩ := (hiff.mp rfl).extension
  have hdo : extensionOf "/a/b.do".toList = some "do".toList := by decide +kernel
  obtain rfl := Option.some.inj (hdo.symm.trans (extensionOf_eq_some_iff.mpr hext))
  exact absurd hmem (by decide +kernel)

/-- A file in capital letters. -/
theorem extraction_iff_docFile :
    (oneFileSession "/a/b.DOC".toList).object = some [{ fileTenCols with stSize := 10 }] ∧
      (oneFileSession "/a/b.DOC".toList).file = some [(.of 10, "/a/b.DOC".toList)] ∧
      (ExtractionOk docFilter 100 [{ fileTenCols with stSize := 10 }] [(.of 10, "/a/b.DOC".toList)]
          (oneFileSession "/a/b.DOC".toList) ↔
        ∀ c ∈ [{ fileTenCols with stSize := 10 }], ∀ f ∈ [(Oid.of 10, "/a/b.DOC".toList)],
          f.1 = c.oid → ExtensionClear docFilter 100 f.2 c.stMode c.stSize) :=
  ⟨rfl, rfl, extraction_iff rfl rfl (by decide) (by decide)⟩

end Hpssix
