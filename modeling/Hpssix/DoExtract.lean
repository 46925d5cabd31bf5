import Hpssix.Base.Fate
import Hpssix.Base.Rel
import Hpssix.Workdata

/-!
# Hpssix.DoExtract

What becomes of the text of one object (`do_extract` in
`tools/extractor/src/hpssix-extractor.c`, the two requests in
`hpssix-extractor-tika.c`, and `hpssix_db_index_tsv`).

A request that fails leaves a null pointer in `data`, and so does an empty
document.  The metadata decide whether the object is indexed; a null content is
then stored as `''`.

* `doExtract_snd` — the table and the counter after `do_extract`.
* `storedText_extractObjects` — where that is so for each object, a worker leaves no
  other texts.
* `keepsText_iff` — when a stored text is replaced by completed responses only.
-/

namespace Hpssix

open CText Fate Rel

/-! ## the table -/

/-- A row of `hpssix_attr_document`, with the columns that are written; a text may be NULL. -/
structure TextRow where
  oid : UInt64
  metadata : Text
  text : Option Text
deriving DecidableEq

/-- `hpssix_attr_document`, with its `UNIQUE (oid)`. -/
structure DocumentTable where
  rows : List TextRow
  unique : (rows.map TextRow.oid).Nodup

namespace DocumentTable

/-- `DO UPDATE SET meta = EXCLUDED.meta, text = EXCLUDED.text` -/
def setExcluded (r excluded : TextRow) : TextRow :=
  { r with metadata := excluded.metadata, text := excluded.text }

theorem setExcluded_oid (r excluded : TextRow) : (setExcluded r excluded).oid = r.oid := rfl

theorem id_oid (row : TextRow) : (id row).oid = row.oid := rfl

theorem nodup_singleton (row : TextRow) : ([row].map TextRow.oid).Nodup :=
  List.nodup_singleton row.oid

/-- `INSERT … ON CONFLICT (oid) DO UPDATE …` -/
def insert (row : TextRow) (t : DocumentTable) : DocumentTable where
  rows := upsert TextRow.oid TextRow.oid setExcluded id [row] t.rows
  unique := nodup_upsert setExcluded_oid id_oid (nodup_singleton row) t.unique

/-- The stored text of an object, if it has a row. -/
def storedText (t : DocumentTable) (oid : UInt64) : Option (Option Text) :=
  ((rowsAt TextRow.oid oid t.rows).map TextRow.text).head?

@[simp] theorem storedText_insert_self (row : TextRow) (t : DocumentTable) :
    (t.insert row).storedText row.oid = some row.text := by
  have hrows := rowsAt_upsert_of_mem setExcluded_oid id_oid (nodup_singleton row)
    (List.mem_singleton_self row) t.rows
  rw [storedText, insert, hrows]
  split
  · rfl
  · next h =>
      obtain ⟨r, rs, hr⟩ := List.exists_cons_of_ne_nil h
      rw [hr]
      rfl

/-- The texts of other objects stay. -/
theorem storedText_insert_of_ne {row : TextRow} {oid : UInt64} (h : oid ≠ row.oid)
    (t : DocumentTable) : (t.insert row).storedText oid = t.storedText oid := by
  have hrows := rowsAt_upsert_of_notMem setExcluded_oid id_oid (nodup_singleton row)
    (by simpa using h : oid ∉ [row].map TextRow.oid) t.rows
  rw [storedText, insert, hrows, storedText]

end DocumentTable

/-! ## the requests -/

/-- How a request to Tika goes: the last `curl_easy_setopt`, `curl_easy_perform`, the response
in the temporary file, the memory for it, whether it can be read back, and the `errno` that
is found after `fread`. -/
structure Request where
  setopt : Bool := true
  perform : Bool := true
  body : Text
  calloc : Bool := true
  fread : Bool := true
  errno : Int := 0
deriving DecidableEq

/-- `fread(buf, datalen, 1, tmpfp)`: an item of no bytes is never counted. -/
def Request.freadItems (r : Request) : Nat := if r.body.length = 0 ∨ !r.fread then 0 else 1

/-- `hpssix_extractor_get_meta`: the return value (`EIO` is 5, `ENOMEM` 12, `EINVAL` 22), and
`data->meta`. -/
def hpssixExtractorGetMeta (r : Request) : Int × Option Text :=
  if !r.setopt then (5, none)
  else if !r.perform then (5, none)
  else if 0 < r.body.length then
    if !r.calloc then (12, none)
    else if r.freadItems ≠ 1 then (r.errno, none)
    else (0, some r.body)
  else (22, none)

/-- `hpssix_extractor_get_content`: the return value, and `data->content`. -/
def hpssixExtractorGetContent (r : Request) : Int × Option Text :=
  if !r.setopt then (5, none)
  else if !r.perform then (5, none)
  else if !r.calloc then (12, none)
  else if r.freadItems ≠ 1 then (r.errno, none)
  else (0, some r.body)

/-! ## the statement -/

/-- Which strings `PQescapeLiteral` finds memory for, and which rows the server takes. -/
structure IndexEnv where
  escapes : Text → Bool := fun _ => true
  takes : TextRow → Bool := fun _ => true

/-- `hpssix_db_index_tsv`: a null text is stored as `''`. -/
def hpssixDbIndexTsv (env : IndexEnv) (objectId : UInt64) (metadata text : Option Text)
    (t : DocumentTable) : Int × DocumentTable :=
  match metadata with
  | none => (22, t)
  | some metadata =>
    if !env.escapes (cString metadata) then (12, t)
    else if text.any fun text => !env.escapes (cString text) then (12, t)
    else
      let row : TextRow := ⟨objectId, cString metadata, some ((text.map cString).getD [])⟩
      if !env.takes row then (5, t) else (0, t.insert row)

/-! ## do_extract -/

/-- What `do_extract` meets: the `errno` of the file operation that fails, the two requests,
whether what the messages of a failed request read for the argument that they are not given
is a string, and the database. -/
structure ExtractEnv where
  stat : Option Int := none
  fopen : Option Int := none
  tmpfile : Option Int := none
  metadata : Request
  content : Request
  printable : Bool := true
  index : IndexEnv := {}

/-- The table, and `n_extracted`. -/
structure ExtractState where
  document : DocumentTable
  nExtracted : UInt64

/-- `"… failed (%d:%s)\n"`, with an argument for the `%d` only. -/
def ExtractEnv.printFailed (env : ExtractEnv) : Fate Unit :=
  if env.printable then done () else crash

/-- The two requests: `ret`, `data.meta` and `data.content` at `out`. -/
def ExtractEnv.request (env : ExtractEnv) (verbose : Bool) :
    Fate (Int × Option Text × Option Text) := do
  let (ret, metadata) := hpssixExtractorGetMeta env.metadata
  if ret ≠ 0 ∧ verbose then
    if ret ≠ 22 then env.printFailed
    pure (ret, metadata, none)
  else
    let (ret, content) := hpssixExtractorGetContent env.content
    if ret ≠ 0 ∧ verbose then env.printFailed
    pure (ret, metadata, content)

/-- What follows `out`. -/
def ExtractEnv.indexData (env : ExtractEnv) (object : WorkObject) (s : ExtractState) :
    Int × Option Text × Option Text → Int × ExtractState
  | (ret, none, _) => (ret, s)
  | (_, some metadata, content) =>
    let (ret, document) :=
      hpssixDbIndexTsv env.index object.objectId (some metadata) content s.document
    (ret, ⟨document, if ret = 0 then s.nExtracted + 1 else s.nExtracted⟩)

/-- `do_extract`, with the state that it leaves also where the process dies. -/
def doExtract (env : ExtractEnv) (verbose : Bool) (object : WorkObject) (s : ExtractState) :
    Fate Int × ExtractState :=
  match env.stat <|> env.fopen <|> env.tmpfile with
  | some errno => (done errno, s)
  | none =>
    match env.request verbose with
    | done data => (done (env.indexData object s data).1, (env.indexData object s data).2)
    | crash => (crash, s)
    | hang => (hang, s)

/-! ## a request, and a stored text -/

/-- The request fails with a transfer, memory or read error. -/
def Request.Fails (r : Request) : Prop :=
  r.setopt = false ∨ r.perform = false ∨ r.calloc = false ∨ (r.body ≠ [] ∧ r.fread = false)

/-- The request completes with a response that is not empty. -/
def Request.Fetches (r : Request) : Prop := ¬ r.Fails ∧ r.body ≠ []

instance (r : Request) : Decidable r.Fails := inferInstanceAs (Decidable (_ ∨ _ ∨ _ ∨ _))

instance (r : Request) : Decidable r.Fetches := inferInstanceAs (Decidable (_ ∧ _))

/-- The file and the temporary file are opened. -/
def ExtractEnv.Opens (env : ExtractEnv) : Prop :=
  env.stat = none ∧ env.fopen = none ∧ env.tmpfile = none

/-- The server takes these metadata for the object with an empty text. -/
def ExtractEnv.TakesEmpty (env : ExtractEnv) (object : WorkObject) : Prop :=
  env.index.escapes (cString env.metadata.body) = true ∧
    env.index.takes ⟨object.objectId, cString env.metadata.body, some []⟩ = true

instance (env : ExtractEnv) (object : WorkObject) : Decidable (env.TakesEmpty object) :=
  inferInstanceAs (Decidable (_ ∧ _))

/-- A content request that fails leaves the stored text of the object and the counter as they
are, the stored text changes to that of a completed response only, and messages change
nothing. -/
structure KeepsText (env : ExtractEnv) (object : WorkObject) (s : ExtractState) : Prop where
  failed : env.content.Fails → ∀ verbose,
    (doExtract env verbose object s).2.document.storedText object.objectId =
        s.document.storedText object.objectId ∧
      (doExtract env verbose object s).2.nExtracted = s.nExtracted
  replaced : ∀ verbose,
    (doExtract env verbose object s).2.document.storedText object.objectId ≠
        s.document.storedText object.objectId →
      ¬ env.content.Fails ∧
        (doExtract env verbose object s).2.document.storedText object.objectId =
          some (some (cString env.content.body))
  verbose : (doExtract env true object s).2 = (doExtract env false object s).2

/-! ## the requests -/

section Requests
variable {r : Request}

/-- `fread` returns 1 exactly if there is a body and it can be read. -/
theorem Request.freadItems_eq_one : r.freadItems = 1 ↔ r.body ≠ [] ∧ r.fread = true := by
  simp only [Request.freadItems, List.length_eq_zero_iff]
  cases r.fread <;> by_cases hbody : r.body = [] <;> simp [hbody]

/-- An empty response is no failure, but its item is not counted either. -/
theorem Request.fetches_iff : r.Fetches ↔
    r.setopt = true ∧ r.perform = true ∧ r.calloc = true ∧ r.freadItems = 1 := by
  simp only [Request.Fetches, Request.Fails, Request.freadItems_eq_one, not_or, not_and,
    Bool.not_eq_false]
  tauto

/-- A content request that completes returns the body. -/
theorem hpssixExtractorGetContent_of_fetches (h : r.Fetches) :
    hpssixExtractorGetContent r = (0, some r.body) := by
  obtain ⟨hsetopt, hperform, hcalloc, hitem⟩ := Request.fetches_iff.mp h
  simp [hpssixExtractorGetContent, hsetopt, hperform, hcalloc, hitem]

/-- The content is null if the request fails, and if the response is empty. -/
theorem hpssixExtractorGetContent_of_not_fetches (h : ¬ r.Fetches) :
    (hpssixExtractorGetContent r).2 = none := by
  rw [Request.fetches_iff] at h
  rw [hpssixExtractorGetContent]
  split_ifs <;> simp_all

/-- A metadata request that completes returns the body. -/
theorem hpssixExtractorGetMeta_of_fetches (h : r.Fetches) :
    hpssixExtractorGetMeta r = (0, some r.body) := by
  have hlen : 0 < r.body.length := List.length_pos_iff.mpr h.2
  obtain ⟨hsetopt, hperform, hcalloc, hitem⟩ := Request.fetches_iff.mp h
  simp [hpssixExtractorGetMeta, hsetopt, hperform, hcalloc, hitem, hlen]

/-- One that does not complete returns no data. -/
theorem hpssixExtractorGetMeta_of_not_fetches (h : ¬ r.Fetches) :
    (hpssixExtractorGetMeta r).2 = none := by
  rw [Request.fetches_iff] at h
  rw [hpssixExtractorGetMeta]
  split_ifs <;> simp_all

end Requests

/-! ## the effect of do_extract -/

/-- What the content request leaves: its response, if it is not empty. -/
def ExtractEnv.fetched (env : ExtractEnv) : Option Text :=
  if env.content.Fetches then some env.content.body else none

/-- The process survives the message about the content request. -/
def ExtractEnv.Survives (env : ExtractEnv) (verbose : Bool) : Prop :=
  verbose = true → (hpssixExtractorGetContent env.content).1 = 0 ∨ env.printable = true

instance (env : ExtractEnv) (verbose : Bool) : Decidable (env.Survives verbose) :=
  inferInstanceAs (Decidable (_ → _))

section Effect
variable {env : ExtractEnv} {verbose : Bool} {object : WorkObject} {s : ExtractState}

/-- The data of a content request are what was fetched. -/
theorem content_snd : (hpssixExtractorGetContent env.content).2 = env.fetched := by
  rw [ExtractEnv.fetched]
  split
  · next h => rw [hpssixExtractorGetContent_of_fetches h]
  · next h => exact hpssixExtractorGetContent_of_not_fetches h

/-- With metadata, the content request is made, and only its message can end the process. -/
theorem request_of_fetches (h : env.metadata.Fetches) :
    env.request verbose = if env.Survives verbose then
      done ((hpssixExtractorGetContent env.content).1, some env.metadata.body, env.fetched)
    else crash := by
  rw [ExtractEnv.request, hpssixExtractorGetMeta_of_fetches h, ← content_snd]
  cases verbose with
  | false => simp [ExtractEnv.Survives]
  | true =>
      by_cases hret : (hpssixExtractorGetContent env.content).1 = 0
      · simp [ExtractEnv.Survives, hret]
      · by_cases hprint : env.printable = true
        · simp [ExtractEnv.Survives, ExtractEnv.printFailed, hret, hprint]
        · simp [ExtractEnv.Survives, ExtractEnv.printFailed, hret, hprint]

/-- Without metadata there is nothing to index. -/
theorem request_of_not_fetches (h : ¬ env.metadata.Fetches) :
    env.request verbose = crash ∨ ∃ ret content, env.request verbose = done (ret, none, content) := by
  have hnull := hpssixExtractorGetMeta_of_not_fetches h
  cases hmeta : hpssixExtractorGetMeta env.metadata with
  | mk ret metadata =>
      rw [hmeta] at hnull
      obtain rfl : metadata = none := hnull
      simp only [ExtractEnv.request, ExtractEnv.printFailed, hmeta]
      split_ifs <;> simp

/-- The files are open exactly if no call has failed. -/
theorem opens_iff : env.Opens ↔ (env.stat <|> env.fopen <|> env.tmpfile) = none := by
  rw [ExtractEnv.Opens]
  cases env.stat <;> cases env.fopen <;> cases env.tmpfile <;> simp

/-- An object that is not opened, or has no metadata, leaves everything as it is. -/
theorem doExtract_snd_of_not (h : ¬ (env.Opens ∧ env.metadata.Fetches)) :
    (doExtract env verbose object s).2 = s := by
  rw [doExtract]
  split
  · rfl
  · next hopen =>
      have hmeta : ¬ env.metadata.Fetches := fun hmeta => h ⟨opens_iff.mpr hopen, hmeta⟩
      obtain hreq | ⟨ret, content, hreq⟩ := @request_of_not_fetches env verbose hmeta
      · rw [hreq]
      · rw [hreq]
        rfl

/-- With metadata, the object is indexed unless the process dies before. -/
theorem doExtract_snd (hopens : env.Opens) (hmeta : env.metadata.Fetches) :
    (doExtract env verbose object s).2 = if env.Survives verbose then
      (env.indexData object s (0, some env.metadata.body, env.fetched)).2 else s := by
  rw [doExtract, opens_iff.mp hopens, request_of_fetches hmeta]
  by_cases h : env.Survives verbose
  · rw [if_pos h, if_pos h]
    rfl
  · rw [if_neg h, if_neg h]

/-- A null content is indexed as an empty text. -/
theorem indexData_none :
    (env.indexData object s (0, some env.metadata.body, none)).2 =
      if env.TakesEmpty object then
        ⟨s.document.insert ⟨object.objectId, cString env.metadata.body, some []⟩, s.nExtracted + 1⟩
      else s := by
  simp only [ExtractEnv.indexData, hpssixDbIndexTsv, ExtractEnv.TakesEmpty, Option.any_none,
    Option.map_none, Option.getD_none]
  by_cases hescapes : env.index.escapes (cString env.metadata.body) = true
  · by_cases htakes :
        env.index.takes ⟨object.objectId, cString env.metadata.body, some []⟩ = true
    · simp [hescapes, htakes]
    · simp [hescapes, htakes]
  · simp [hescapes]

/-- The statement succeeds, or the table stays as it is. -/
theorem hpssixDbIndexTsv_cases (index : IndexEnv) (objectId : UInt64) (metadata : Text)
    (text : Option Text) (t : DocumentTable) :
    hpssixDbIndexTsv index objectId (some metadata) text t = (0, t.insert
        ⟨objectId, cString metadata, some ((text.map cString).getD [])⟩) ∨
      ∃ ret ≠ 0, hpssixDbIndexTsv index objectId (some metadata) text t = (ret, t) := by
  simp only [hpssixDbIndexTsv]
  split_ifs <;> simp

/-- A response that is not empty is indexed as it is, or not at all. -/
theorem indexData_some (text : Text) :
    (env.indexData object s (0, some env.metadata.body, some text)).2 = s ∨
    (env.indexData object s (0, some env.metadata.body, some text)).2 =
      ⟨s.document.insert ⟨object.objectId, cString env.metadata.body, some (cString text)⟩,
        s.nExtracted + 1⟩ := by
  rw [ExtractEnv.indexData]
  obtain h | ⟨ret, hret, h⟩ := hpssixDbIndexTsv_cases env.index object.objectId env.metadata.body
    (some text) s.document
  · rw [h]
    exact .inr rfl
  · rw [h]
    exact .inl (by simp [hret])

/-! ## the text of the object -/

/-- Nothing is fetched exactly if the request does not complete. -/
theorem fetched_eq_none : env.fetched = none ↔ ¬ env.content.Fetches := by
  simp [ExtractEnv.fetched]

theorem ne_add_one (n : UInt64) : n + 1 ≠ n := by simp

/-- Where nothing is indexed, every property holds. -/
theorem keepsText_of_eq (h : ∀ verbose, (doExtract env verbose object s).2 = s) :
    KeepsText env object s where
  failed _ verbose := by simp [h verbose]
  replaced verbose hne := by simp [h verbose] at hne
  verbose := by rw [h true, h false]

/-- A completed response that is not empty replaces the text, or nothing does. -/
theorem keepsText_of_fetches (hopens : env.Opens) (hmeta : env.metadata.Fetches)
    (hcontent : env.content.Fetches) : KeepsText env object s := by
  have hstate (verbose : Bool) : (doExtract env verbose object s).2 =
      (env.indexData object s (0, some env.metadata.body, some env.content.body)).2 := by
    rw [doExtract_snd hopens hmeta, if_pos, ExtractEnv.fetched, if_pos hcontent]
    intro _
    rw [hpssixExtractorGetContent_of_fetches hcontent]
    exact .inl rfl
  obtain hindex | hindex := @indexData_some env object s env.content.body
  · exact keepsText_of_eq fun verbose => (hstate verbose).trans hindex
  · refine ⟨fun hfails => absurd hfails hcontent.1, fun verbose _ => ⟨hcontent.1, ?_⟩, ?_⟩
    · rw [hstate, hindex]
      exact DocumentTable.storedText_insert_self ..
    · rw [hstate, hstate]

/-- A null content is indexed as an empty text, if the process comes to it. -/
theorem doExtract_snd_of_not_fetches (hopens : env.Opens) (hmeta : env.metadata.Fetches)
    (hcontent : ¬ env.content.Fetches) :
    (doExtract env verbose object s).2 =
      if env.Survives verbose ∧ env.TakesEmpty object then
        ⟨s.document.insert ⟨object.objectId, cString env.metadata.body, some []⟩, s.nExtracted + 1⟩
      else s := by
  rw [doExtract_snd hopens hmeta, fetched_eq_none.mpr hcontent, indexData_none, ite_and]

/-- Without messages no process dies. -/
theorem survives_false : env.Survives false := fun h => nomatch h

/-- With messages, one about an empty body has to be printable. -/
theorem survives_true_iff (hfails : ¬ env.content.Fails) (hbody : env.content.body = []) :
    env.Survives true ↔ env.content.errno = 0 ∨ env.printable = true := by
  simp only [Request.Fails, not_or, Bool.not_eq_false] at hfails
  obtain ⟨hsetopt, hperform, hcalloc, -⟩ := hfails
  simp [ExtractEnv.Survives, hpssixExtractorGetContent, hsetopt, hperform, hcalloc,
    Request.freadItems, hbody]

/-- With a null content that is indexed, the response has to be a completed and empty one, and
its message must not end the process. -/
theorem keepsText_iff_of_takesEmpty (hopens : env.Opens) (hmeta : env.metadata.Fetches)
    (hcontent : ¬ env.content.Fetches) (htakes : env.TakesEmpty object) :
    KeepsText env object s ↔
      ¬ env.content.Fails ∧ (env.content.errno = 0 ∨ env.printable = true) := by
  have hindexed (verbose : Bool) (h : env.Survives verbose) :
      (doExtract env verbose object s).2 =
        ⟨s.document.insert ⟨object.objectId, cString env.metadata.body, some []⟩,
          s.nExtracted + 1⟩ := by
    rw [doExtract_snd_of_not_fetches hopens hmeta hcontent, if_pos ⟨h, htakes⟩]
  constructor
  · intro hkeeps
    have hfails : ¬ env.content.Fails := by
      intro hfails
      have hcount := (hkeeps.failed hfails false).2
      rw [hindexed false survives_false] at hcount
      exact ne_add_one _ hcount
    have hbody : env.content.body = [] := by_contra fun hbody => hcontent ⟨hfails, hbody⟩
    refine ⟨hfails, (survives_true_iff hfails hbody).mp ?_⟩
    by_contra hdies
    -- the silent run counts the object
    have hsame := hkeeps.verbose
    rw [doExtract_snd_of_not_fetches hopens hmeta hcontent, if_neg fun h => hdies h.1,
      hindexed false survives_false] at hsame
    exact ne_add_one _ (congrArg ExtractState.nExtracted hsame).symm
  · rintro ⟨hfails, hprint⟩
    have hbody : env.content.body = [] := by_contra fun hbody => hcontent ⟨hfails, hbody⟩
    have hsurvives : ∀ verbose, env.Survives verbose := by
      intro verbose
      cases verbose with
      | false => exact survives_false
      | true => exact (survives_true_iff hfails hbody).mpr hprint
    refine ⟨fun h => absurd h hfails, fun verbose _ => ⟨hfails, ?_⟩, ?_⟩
    · rw [hindexed verbose (hsurvives verbose), hbody]
      exact DocumentTable.storedText_insert_self ..
    · rw [hindexed true (hsurvives true), hindexed false (hsurvives false)]

/-- An object leaves the texts of the others as they are. -/
theorem storedText_doExtract_of_ne {oid : UInt64} (h : oid ≠ object.objectId) :
    (doExtract env verbose object s).2.document.storedText oid = s.document.storedText oid := by
  by_cases hindexes : env.Opens ∧ env.metadata.Fetches
  · rw [doExtract_snd hindexes.1 hindexes.2, apply_ite ExtractState.document]
    split
    · obtain hindex | ⟨ret, -, hindex⟩ := hpssixDbIndexTsv_cases env.index object.objectId
        env.metadata.body env.fetched s.document
      · simp only [ExtractEnv.indexData, hindex]
        exact DocumentTable.storedText_insert_of_ne h ..
      · simp only [ExtractEnv.indexData, hindex]
    · rfl
  · rw [doExtract_snd_of_not hindexes]

end Effect

/-! ## a worker -/

/-- The loop of `extractor_worker_func` over its objects, each with what it meets: it goes on
whatever `do_extract` returns. -/
def extractObjects (verbose : Bool) :
    List (ExtractEnv × WorkObject) → ExtractState → Fate Unit × ExtractState
  | [], s => (done (), s)
  | (env, object) :: rest, s =>
    match doExtract env verbose object s with
    | (done _, s') => extractObjects verbose rest s'
    | (crash, s') => (crash, s')
    | (hang, s') => (hang, s')

/-- One object: its own text is replaced by a completed response, and no other text is. -/
theorem storedText_doExtract {env : ExtractEnv} {object : WorkObject} {s : ExtractState}
    (h : KeepsText env object s) (verbose : Bool) (oid : UInt64) :
    (doExtract env verbose object s).2.document.storedText oid = s.document.storedText oid ∨
      object.objectId = oid ∧ ¬ env.content.Fails ∧
        (doExtract env verbose object s).2.document.storedText oid =
          some (some (cString env.content.body)) := by
  by_cases hoid : object.objectId = oid
  · subst hoid
    by_cases hsame : (doExtract env verbose object s).2.document.storedText object.objectId =
        s.document.storedText object.objectId
    · exact .inl hsame
    · exact .inr ⟨rfl, h.replaced verbose hsame⟩
  · exact .inl (storedText_doExtract_of_ne (Ne.symm hoid))

/-- **A worker** that meets nothing else leaves the texts of completed responses, and those
that were there. -/
theorem storedText_extractObjects {verbose : Bool} {steps : List (ExtractEnv × WorkObject)}
    (h : ∀ x ∈ steps, ∀ s, KeepsText x.1 x.2 s) (s : ExtractState) (oid : UInt64) :
    (extractObjects verbose steps s).2.document.storedText oid = s.document.storedText oid ∨
      ∃ x ∈ steps, x.2.objectId = oid ∧ ¬ x.1.content.Fails ∧
        (extractObjects verbose steps s).2.document.storedText oid =
          some (some (cString x.1.content.body)) := by
  induction steps generalizing s with
  | nil => exact .inl rfl
  | cons x steps ih =>
      obtain ⟨env, object⟩ := x
      have hstep := storedText_doExtract (h _ List.mem_cons_self s) verbose oid
      -- the process may end with this object
      have hends : ∀ {t : Option (Option Text)}, t = s.document.storedText oid ∨
          object.objectId = oid ∧ ¬ env.content.Fails ∧ t = some (some (cString env.content.body)) →
          t = s.document.storedText oid ∨ ∃ x ∈ (env, object) :: steps, x.2.objectId = oid ∧
            ¬ x.1.content.Fails ∧ t = some (some (cString x.1.content.body)) := by
        intro t ht
        obtain ht | ht := ht
        · exact .inl ht
        · exact .inr ⟨(env, object), List.mem_cons_self, ht⟩
      rw [extractObjects]
      cases hdo : doExtract env verbose object s with
      | mk ret s' =>
          rw [hdo] at hstep
          cases ret with
          | crash => exact hends hstep
          | hang => exact hends hstep
          | done ret =>
              obtain hrest | ⟨x, hx, hreplaced⟩ :=
                ih (fun x hx => h x (List.mem_cons_of_mem _ hx)) s'
              · simp only [hrest]
                exact hends hstep
              · exact .inr ⟨x, List.mem_cons_of_mem _ hx, hreplaced⟩

/-! ## when texts are kept -/

/-- **A failed content request**: the stored text is kept unless an object with metadata is
indexed and its content request fails; and the messages change nothing unless an empty
response comes with an `errno` that is printed without its argument. -/
theorem keepsText_iff (env : ExtractEnv) (object : WorkObject) (s : ExtractState) :
    KeepsText env object s ↔
      ¬ env.Opens ∨ ¬ env.metadata.Fetches ∨ ¬ env.TakesEmpty object ∨
        (¬ env.content.Fails ∧
          (env.content.body ≠ [] ∨ env.content.errno = 0 ∨ env.printable = true)) := by
  by_cases hindexes : env.Opens ∧ env.metadata.Fetches
  · obtain ⟨hopens, hmeta⟩ := hindexes
    by_cases hcontent : env.content.Fetches
    · exact iff_of_true (keepsText_of_fetches hopens hmeta hcontent)
        (.inr (.inr (.inr ⟨hcontent.1, .inl hcontent.2⟩)))
    · by_cases htakes : env.TakesEmpty object
      · rw [keepsText_iff_of_takesEmpty hopens hmeta hcontent htakes]
        simp only [Request.Fetches, not_and] at hcontent
        tauto
      · refine iff_of_true (keepsText_of_eq fun verbose => ?_) (.inr (.inr (.inl htakes)))
        rw [doExtract_snd_of_not_fetches hopens hmeta hcontent, if_neg fun h => htakes h.2]
  · refine iff_of_true (keepsText_of_eq fun verbose => doExtract_snd_of_not hindexes) ?_
    tauto

/-- Tika is gone when it is asked for the content, and the text `old` becomes `''`. -/
theorem failed_content_erases_text :
    let env : ExtractEnv :=
      { metadata := { body := [ '{', '}' ] }, content := { perform := false, body := [] } }
    let object : WorkObject := ⟨7, [ '/', 'a' ]⟩
    let s : ExtractState := ⟨⟨[⟨7, [ '{', '}' ], some [ 'o', 'l', 'd' ]⟩], by decide⟩, 0⟩
    ¬ KeepsText env object s ∧ env.content.Fails ∧
      (doExtract env false object s).2.document.storedText 7 = some (some []) ∧
      (doExtract env false object s).2.nExtracted = 1 := by
  refine ⟨?_, by decide, by decide, by decide⟩
  intro h
  exact absurd (h.failed (by decide) false).2 (by decide)

end Hpssix
