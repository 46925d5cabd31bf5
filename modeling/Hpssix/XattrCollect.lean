import Hpssix.XattrPipeline
import Mathlib.Data.List.TakeWhile

/-!
# Hpssix.XattrCollect

`builder_collect_xattrs` of `hpssix-builder-utils.c` with its array: a pass that
counts the lines with a document, a pass that fills an array of that size, and the
loop that is to release the array when a line cannot be read.

* `collectXattrs_eq_array_iff` — where the function returns, it is
  `builderCollectXattrs`;
* `all_or_nothing_iff` — when it returns what the lines say, or NULL.
-/

namespace Hpssix

open CText Fate

/-! ## the function -/

/-- A tag list with its object id. -/
abbrev XattrEntry := Nat × List (Text × Option Text)

/-- A pointer to an array. -/
inductive XattrArray where
  | null
  | allocated (xattrs : List (Option XattrEntry))
  | released

/-- The lines of the file, as `fgets` hands them to the builder. -/
def xattrLines (file : Text) : List Text := (fgets (builderXattrBufsize - 1) file).map cString

/-- The first pass. -/
def countXattrs (lines : List Text) : Nat :=
  lines.foldl (fun count linebuf => if (strstr xattrMark linebuf).isSome then count + 1 else count) 0

/-- `xattrs[i] = current`, within the array. -/
def storeXattr (xattrs : List (Option XattrEntry)) (i : Nat) (current : XattrEntry) :
    Fate (List (Option XattrEntry)) :=
  if i < xattrs.length then pure (xattrs.set i (some current)) else crash

section Collect
variable (xmlParse : Text → Option XmlNode)

/-- The second pass; false where it goes to `out_free_all`. -/
def fillXattrs : List Text → Nat → List (Option XattrEntry) →
    Fate (Bool × Nat × List (Option XattrEntry))
  | [], i, xattrs => pure (true, i, xattrs)
  | linebuf :: lines, i, xattrs =>
      match strstr xattrMark linebuf with
      | none => fillXattrs lines i xattrs
      | some pos => do
          match ← collectLine xmlParse linebuf pos with
          | none => pure (false, i, xattrs)
          | some current => do
              let xattrs ← storeXattr xattrs i current
              fillXattrs lines (i + 1) xattrs

/-- The loop at `out_free_all`, for a number of rounds. -/
def freeXattrs (xattrs : List (Option XattrEntry)) : Nat → UInt64 → Fate Unit
  | 0, _ => hang
  | rounds + 1, i =>
      if 0 ≤ i then do
        let _ ← deref xattrs[i.toNat]?
        freeXattrs xattrs rounds (i - 1)
      else pure ()

/-- `builder_collect_xattrs`, with what it leaves in `out_count`; the last loop is
watched for a number of rounds. -/
def collectXattrs (rounds : Nat) (file : Option Text) (outCount : Nat) : Fate (XattrArray × Nat) :=
  match file with
  | none => pure (.null, outCount)
  | some file => do
      let lines := xattrLines file
      let count := countXattrs lines
      let (filled, i, xattrs) ← fillXattrs xmlParse lines 0 (List.replicate count none)
      if filled then pure (.allocated xattrs, count)
      else do
        freeXattrs xattrs rounds (UInt64.ofNat i)
        pure (.released, outCount)

/-! ## what the lines say -/

/-- The number in front of the first comma. -/
def leadingNumber (line : Text) : Option Int :=
  match number line with
  | some (n, ',' :: _) => some n
  | _ => none

/-- The document in a line. -/
def lineDocument (line : Text) : Text := cutQuote ((strstr xattrMark line).getD [])

/-- The lines with a document. -/
def markedLines (file : Text) : List Text :=
  (xattrLines file).filter fun line => (strstr xattrMark line).isSome

/-- The name and the value of an element. -/
def XmlNode.tag? : XmlNode → Option (Text × Option Text)
  | .element name children => some (name, xmlNodeListGetString children)
  | _ => none

/-- What a line says: its object, and the elements below `fs` in their order. -/
structure LineSays (line : Text) (entry : XattrEntry) : Prop where
  number : leadingNumber line = some (entry.1 : Int)
  document : ∃ nodes rest, xmlParse (lineDocument line) =
    some (.element "hpss".toList (.element "fs".toList nodes :: rest)) ∧
      nodes.filterMap XmlNode.tag? = entry.2

/-- All or nothing: the function returns an array with what the lines say, or NULL where
a line has no number or no document. -/
def AllOrNothing (file : Text) : Prop :=
  ∃ rounds,
    (∃ entries, List.Forall₂ (LineSays xmlParse) (markedLines file) entries ∧
      collectXattrs xmlParse rounds (some file) 0 =
        done (.allocated (entries.map some), entries.length)) ∨
    (collectXattrs xmlParse rounds (some file) 0 = done (.null, 0) ∧
      ∃ line ∈ markedLines file, leadingNumber line = none ∨ xmlParse (lineDocument line) = none)

/-- A line that the builder reads: a number of 64 bits, and a document with elements
and nothing else below `fs`. -/
structure LineReadable (line : Text) : Prop where
  number : ∃ n : Nat, leadingNumber line = some (n : Int) ∧ n < 2 ^ 64
  document : ∃ nodes rest, xmlParse (lineDocument line) =
    some (.element "hpss".toList (.element "fs".toList nodes :: rest)) ∧
      nodes ≠ [] ∧ ∀ node ∈ nodes, node.tag?.isSome

end Collect

/-! ## the passes -/

theorem countXattrs_eq (lines : List Text) :
    countXattrs lines = lines.countP fun linebuf => (strstr xattrMark linebuf).isSome := by
  have hfrom : ∀ n, lines.foldl (fun count linebuf =>
      if (strstr xattrMark linebuf).isSome then count + 1 else count) n =
        n + lines.countP fun linebuf => (strstr xattrMark linebuf).isSome := by
    intro n
    induction lines generalizing n with
    | nil => rfl
    | cons l lines ih =>
        rw [List.foldl_cons, ih, List.countP_cons]
        split <;> omega
  rw [countXattrs, hfrom, Nat.zero_add]

/-- The unsigned index never fails the test of the loop. -/
theorem freeXattrs_ne_done (xattrs : List (Option XattrEntry)) (rounds : Nat) (i : UInt64) :
    freeXattrs xattrs rounds i ≠ done () := by
  induction rounds generalizing i with
  | zero => simp [freeXattrs]
  | succ rounds ih =>
      rw [freeXattrs, if_pos (by simp)]
      intro h
      obtain ⟨_, -, hnext⟩ := bind_eq_done.mp h
      exact ih _ hnext

/-- A round within the array. -/
theorem freeXattrs_succ {xattrs : List (Option XattrEntry)} {i : UInt64}
    (hi : i.toNat < xattrs.length) (rounds : Nat) :
    freeXattrs xattrs (rounds + 1) i = freeXattrs xattrs rounds (i - 1) := by
  rw [freeXattrs, if_pos (by simp), List.getElem?_eq_getElem hi]
  rfl

/-- After the first entry it reads in front of the array. -/
theorem freeXattrs_eq_crash {xattrs : List (Option XattrEntry)} (hsize : xattrs.length < 2 ^ 64)
    {i : Nat} (hi : i < xattrs.length) (rounds : Nat) :
    freeXattrs xattrs (i + 2 + rounds) (UInt64.ofNat i) = crash := by
  have hindex : (UInt64.ofNat i).toNat = i := UInt64.toNat_ofNat_of_lt' (hi.trans hsize)
  induction i with
  | zero =>
      have hwrap : ((UInt64.ofNat 0 : UInt64) - 1).toNat = 2 ^ 64 - 1 := by decide
      have hout : xattrs[((UInt64.ofNat 0 : UInt64) - 1).toNat]? = none := by
        rw [hwrap, List.getElem?_eq_none_iff]
        omega
      rw [show 0 + 2 + rounds = rounds + 1 + 1 by omega, freeXattrs_succ (by rwa [hindex]),
        freeXattrs, if_pos (by simp), hout]
      rfl
  | succ i ih =>
      have hprev : UInt64.ofNat (i + 1) - 1 = UInt64.ofNat i := by
        rw [UInt64.ofNat_add]
        exact UInt64.add_sub_cancel _ _
      rw [show i + 1 + 2 + rounds = i + 2 + rounds + 1 by omega, freeXattrs_succ (by rwa [hindex]),
        hprev]
      exact ih (Nat.lt_of_succ_lt hi) (UInt64.toNat_ofNat_of_lt' ((Nat.lt_of_succ_lt hi).trans hsize))

/-- The array, with some entries filled in. -/
def filledXattrs (entries : List XattrEntry) (room : Nat) : List (Option XattrEntry) :=
  entries.map some ++ List.replicate room none

theorem storeXattr_filledXattrs (entries : List XattrEntry) (room : Nat) (current : XattrEntry) :
    storeXattr (filledXattrs entries (room + 1)) entries.length current =
      done (filledXattrs (entries ++ [current]) room) := by
  have hroom : entries.length < (filledXattrs entries (room + 1)).length := by
    simp [filledXattrs]
  rw [storeXattr, if_pos hroom, filledXattrs, filledXattrs, List.replicate_succ,
    List.set_append_right _ _ (by simp)]
  simp

section Collect
variable {xmlParse : Text → Option XmlNode}

/-- The entry of a marked line. -/
def Collected (xmlParse : Text → Option XmlNode) (line : Text) (entry : XattrEntry) : Prop :=
  collectLine xmlParse line ((strstr xattrMark line).getD []) = done (some entry)

/-- Lines without a document are skipped. -/
theorem fillXattrs_filter (lines : List Text) (i : Nat) (xattrs : List (Option XattrEntry)) :
    fillXattrs xmlParse lines i xattrs =
      fillXattrs xmlParse (lines.filter fun l => (strstr xattrMark l).isSome) i xattrs := by
  induction lines generalizing i xattrs with
  | nil => rfl
  | cons l lines ih =>
      cases hpos : strstr xattrMark l with
      | none =>
          rw [List.filter_cons_of_neg (by simp [hpos]), fillXattrs, hpos]
          exact ih i xattrs
      | some pos =>
          rw [List.filter_cons_of_pos (by simp [hpos]), fillXattrs, fillXattrs, hpos]
          simp only [ih]

/-- A marked line that is read adds its entry. -/
theorem fillXattrs_cons {l : Text} {e : XattrEntry} (hmark : (strstr xattrMark l).isSome)
    (h : Collected xmlParse l e) (lines : List Text) (entries : List XattrEntry) (room : Nat) :
    fillXattrs xmlParse (l :: lines) entries.length (filledXattrs entries (room + 1)) =
      fillXattrs xmlParse lines (entries ++ [e]).length (filledXattrs (entries ++ [e]) room) := by
  obtain ⟨pos, hpos⟩ := Option.isSome_iff_exists.mp hmark
  rw [Collected, hpos, Option.getD_some] at h
  rw [fillXattrs, hpos]
  show (collectLine xmlParse l pos >>= _) = _
  rw [h, done_bind]
  show (storeXattr _ _ e >>= _) = _
  rw [storeXattr_filledXattrs, done_bind, List.length_append, List.length_singleton]

/-- **The second pass** over marked lines that are read, one after the other. -/
theorem fillXattrs_append {lines : List Text} {more : List XattrEntry}
    (h : List.Forall₂ (Collected xmlParse) lines more)
    (hmark : ∀ l ∈ lines, (strstr xattrMark l).isSome) (rest : List Text)
    (entries : List XattrEntry) (room : Nat) :
    fillXattrs xmlParse (lines ++ rest) entries.length (filledXattrs entries (lines.length + room)) =
      fillXattrs xmlParse rest (entries ++ more).length (filledXattrs (entries ++ more) room) := by
  induction h generalizing entries with
  | nil => simp
  | @cons l e lines more hl _ ih =>
      rw [List.cons_append, List.length_cons, Nat.add_right_comm,
        fillXattrs_cons (hmark l List.mem_cons_self) hl,
        ih fun l' hl' => hmark l' (List.mem_cons_of_mem l hl'), List.append_assoc]
      rfl

/-- A marked line that is not read ends the pass. -/
theorem fillXattrs_ne_done {l : Text} (hmark : (strstr xattrMark l).isSome)
    (h : ∀ e, ¬ Collected xmlParse l e) (lines : List Text) (i j : Nat)
    (xattrs xattrs' : List (Option XattrEntry)) :
    fillXattrs xmlParse (l :: lines) i xattrs ≠ done (true, j, xattrs') := by
  obtain ⟨pos, hpos⟩ := Option.isSome_iff_exists.mp hmark
  simp only [Collected, hpos, Option.getD_some] at h
  rw [fillXattrs, hpos]
  intro hdone
  obtain ⟨entry, hentry, hrest⟩ := bind_eq_done.mp hdone
  cases entry with
  | none => simp at hrest
  | some e => exact h e hentry

/-- Marked lines are read up to a first one that is not. -/
theorem collected_or_first (xmlParse : Text → Option XmlNode) (lines : List Text) :
    (∃ more, List.Forall₂ (Collected xmlParse) lines more) ∨
      ∃ before l after more, lines = before ++ l :: after ∧
        List.Forall₂ (Collected xmlParse) before more ∧ ∀ e, ¬ Collected xmlParse l e := by
  induction lines with
  | nil => exact .inl ⟨[], .nil⟩
  | cons l lines ih =>
      by_cases hl : ∃ e, Collected xmlParse l e
      · obtain ⟨e, he⟩ := hl
        obtain ⟨more, hmore⟩ | ⟨before, l', after, more, rfl, hmore, hl'⟩ := ih
        · exact .inl ⟨e :: more, .cons he hmore⟩
        · exact .inr ⟨l :: before, l', after, e :: more, rfl, .cons he hmore, hl'⟩
      · exact .inr ⟨[], l, lines, [], rfl, .nil, not_exists.mp hl⟩

theorem mem_markedLines_isSome {file : Text} :
    ∀ l ∈ markedLines file, (strstr xattrMark l).isSome := fun _ hl => (List.mem_filter.mp hl).2

/-- The second pass over the file, behind marked lines that are read. -/
theorem fillXattrs_file {file : Text} {before after : List Text} {more : List XattrEntry}
    (hsplit : markedLines file = before ++ after)
    (h : List.Forall₂ (Collected xmlParse) before more) :
    fillXattrs xmlParse (xattrLines file) 0 (List.replicate (countXattrs (xattrLines file)) none) =
      fillXattrs xmlParse after more.length (filledXattrs more after.length) := by
  have hmark : ∀ l ∈ before, (strstr xattrMark l).isSome := fun l hl =>
    mem_markedLines_isSome l (hsplit ▸ List.mem_append_left after hl)
  have hrun := fillXattrs_append h hmark after [] after.length
  rw [← List.length_append, ← hsplit] at hrun
  rw [fillXattrs_filter, countXattrs_eq, List.countP_eq_length_filter]
  exact hrun

/-- **The function** returns exactly if every marked line is read, and then an array of
all entries. -/
theorem collectXattrs_eq_done_iff {rounds outCount : Nat} {file : Text} {r : XattrArray × Nat} :
    collectXattrs xmlParse rounds (some file) outCount = done r ↔
      ∃ entries, List.Forall₂ (Collected xmlParse) (markedLines file) entries ∧
        r = (.allocated (entries.map some), entries.length) := by
  have hread : ∀ {entries : List XattrEntry},
      List.Forall₂ (Collected xmlParse) (markedLines file) entries →
        collectXattrs xmlParse rounds (some file) outCount =
          done (.allocated (entries.map some), entries.length) := by
    intro entries hentries
    have hpass := fillXattrs_file (List.append_nil _).symm hentries
    have hcount : countXattrs (xattrLines file) = entries.length := by
      rw [countXattrs_eq, List.countP_eq_length_filter]
      exact hentries.length_eq
    rw [collectXattrs, hpass, hcount, fillXattrs, filledXattrs, List.length_nil, List.replicate_zero,
      List.append_nil]
    rfl
  constructor
  · intro h
    obtain ⟨entries, hentries⟩ | ⟨before, l, after, more, hsplit, hmore, hl⟩ :=
      collected_or_first xmlParse (markedLines file)
    · rw [hread hentries] at h
      injection h with h
      exact ⟨entries, hentries, h.symm⟩
    · obtain ⟨⟨filled, i, xattrs⟩, hpass, hend⟩ := bind_eq_done.mp h
      cases filled with
      | true =>
          have hmark := mem_markedLines_isSome l (hsplit ▸ List.mem_append_right before List.mem_cons_self)
          rw [fillXattrs_file hsplit hmore] at hpass
          exact absurd hpass (fillXattrs_ne_done hmark hl _ _ _ _ _)
      | false =>
          obtain ⟨_, hfree, -⟩ := bind_eq_done.mp hend
          exact absurd hfree (freeXattrs_ne_done _ _ _)
  · rintro ⟨entries, hentries, rfl⟩
    exact hread hentries

/-- A line without a number or a document, at any position, makes the builder read in
front of its array. -/
theorem collectXattrs_eq_crash {file : Text} {before after : List Text} {l : Text}
    {more : List XattrEntry} (hsplit : markedLines file = before ++ l :: after)
    (hmore : List.Forall₂ (Collected xmlParse) before more)
    (hl : collectLine xmlParse l ((strstr xattrMark l).getD []) = done none)
    (hsize : (markedLines file).length < 2 ^ 64) (rounds outCount : Nat) :
    collectXattrs xmlParse (before.length + 2 + rounds) (some file) outCount = crash := by
  have hmark := mem_markedLines_isSome l (hsplit ▸ List.mem_append_right before List.mem_cons_self)
  obtain ⟨pos, hpos⟩ := Option.isSome_iff_exists.mp hmark
  rw [hpos, Option.getD_some] at hl
  have hpass : fillXattrs xmlParse (l :: after) more.length (filledXattrs more (l :: after).length) =
      done (false, more.length, filledXattrs more (l :: after).length) := by
    rw [fillXattrs, hpos]
    show (collectLine xmlParse l pos >>= _) = _
    rw [hl, done_bind]
    rfl
  have hlength : (filledXattrs more (l :: after).length).length = (markedLines file).length := by
    rw [filledXattrs, hsplit, List.length_append, List.length_append, List.length_map,
      List.length_replicate, hmore.length_eq]
  have hindex : more.length < (filledXattrs more (l :: after).length).length := by
    simp [filledXattrs]
  rw [collectXattrs, fillXattrs_file hsplit hmore, hpass, done_bind, hmore.length_eq]
  show (freeXattrs _ _ _ >>= _) = _
  rw [freeXattrs_eq_crash (hlength ▸ hsize) hindex]
  rfl

/-! ## a line -/

/-- The tags of a document: nothing but elements has a tag. -/
theorem mapM_parseTag {nodes : List XmlNode} (h : ∀ node ∈ nodes, node.tag?.isSome) :
    nodes.mapM parseTag = done (nodes.filterMap XmlNode.tag?) := by
  induction nodes with
  | nil => rfl
  | cons node nodes ih =>
      rw [List.mapM_cons, ih fun n hn => h n (List.mem_cons_of_mem node hn)]
      cases node with
      | element name children => rfl
      | _ => exact absurd (h _ List.mem_cons_self) (by simp [XmlNode.tag?])

/-- What `parse_xattr` makes of a document. -/
theorem parseXattr_document {xmlstr : Text} {nodes rest : List XmlNode}
    (h : xmlParse xmlstr = some (.element "hpss".toList (.element "fs".toList nodes :: rest)))
    {tags : List (Text × Option Text)} :
    parseXattr xmlParse xmlstr = done (some tags) ↔ nodes ≠ [] ∧ nodes.mapM parseTag = done tags := by
  rw [parseXattr, h]
  by_cases hnil : nodes = []
  · simp [XmlNode.children, XmlNode.name, hnil]
  · simp [XmlNode.children, XmlNode.name, hnil, bind_eq_done]

/-- The leading number is what `strtoull` reads. -/
theorem strtoull_of_leadingNumber {line : Text} {n : Nat} (h : leadingNumber line = some (n : Int))
    (hn : n < 2 ^ 64) : strtoull line = n ∧ (strtoullEnd line).head? = some ',' := by
  unfold leadingNumber at h
  split at h
  · next m rest hnumber =>
      obtain rfl : m = n := Option.some.inj h
      obtain ⟨hvalue, hend⟩ := strtoull_number hnumber hn
      exact ⟨hvalue, by rw [hend]; rfl⟩
  · contradiction

/-- A line is read as it should be exactly if it is readable. -/
theorem collected_says_iff (line : Text) :
    (∃ entry, Collected xmlParse line entry ∧ LineSays xmlParse line entry) ↔
      LineReadable xmlParse line := by
  constructor
  · rintro ⟨⟨n, tags⟩, hcollected, hnumber, nodes, rest, hdoc, htags⟩
    unfold Collected collectLine at hcollected
    split at hcollected
    · obtain ⟨current, hparse, hcurrent⟩ := bind_eq_done.mp hcollected
      injection hcurrent with hcurrent
      obtain ⟨tags', rfl, hentry⟩ := Option.map_eq_some_iff.mp hcurrent
      obtain ⟨rfl, rfl⟩ := Prod.mk.inj hentry
      obtain ⟨hne, hmap⟩ := (parseXattr_document hdoc).mp hparse
      have hlength : (nodes.filterMap XmlNode.tag?).length = nodes.length := by
        rw [htags]
        exact (mapM_eq_done.mp hmap).length_eq.symm
      rw [List.length_filterMap_eq_countP, List.countP_eq_length] at hlength
      exact ⟨⟨_, hnumber, strtoull_lt line⟩, nodes, rest, hdoc, hne, hlength⟩
    · injection hcollected
      contradiction
  · rintro ⟨⟨n, hnumber, hn⟩, nodes, rest, hdoc, hne, htag⟩
    obtain ⟨hvalue, hcomma⟩ := strtoull_of_leadingNumber hnumber hn
    refine ⟨(n, nodes.filterMap XmlNode.tag?), ?_, hnumber, nodes, rest, hdoc, rfl⟩
    have hparse := (parseXattr_document hdoc).mpr ⟨hne, mapM_parseTag htag⟩
    rw [lineDocument] at hparse
    rw [Collected, collectLine, if_pos hcomma, hparse, hvalue]
    rfl

/-! ## the file -/

/-- The lines with a document are those with the mark in them. -/
theorem mem_markedLines {file line : Text} :
    line ∈ markedLines file ↔ line ∈ xattrLines file ∧ xattrMark <:+: line := by
  rw [markedLines, List.mem_filter, isSome_strstr]

/-- Lines that fit the buffer are read as they are. -/
theorem xattrLines_lines {ls : List Text} (h : ∀ l ∈ ls, '\n' ∉ l ∧ l.length < xattrRoom)
    (hnul : ∀ l ∈ ls, Char.ofNat 0 ∉ l) :
    xattrLines (ls.flatMap (· ++ ['\n'])) = ls.map (· ++ ['\n']) := by
  have hfits : ∀ l ∈ ls, '\n' ∉ l ∧ l.length + 1 < builderXattrBufsize - 1 := by
    intro l hl
    obtain ⟨hnewline, hlength⟩ := h l hl
    rw [xattrRoom] at hlength
    exact ⟨hnewline, by omega⟩
  rw [xattrLines, fgets_lines hfits]
  refine (List.map_congr_left fun l hl => ?_).trans (List.map_id _)
  obtain ⟨body, hbody, rfl⟩ := List.mem_map.mp hl
  refine cString_eq_self fun hmem => ?_
  obtain hmem | hmem := List.mem_append.mp hmem
  · exact hnul body hbody hmem
  · exact absurd hmem (by decide)

/-- **Refinement**: where the function returns, it is `builderCollectXattrs`. -/
theorem collectXattrs_eq_array_iff {file : Text} (hnul : Char.ofNat 0 ∉ file)
    {rounds outCount : Nat} {entries : List XattrEntry} :
    collectXattrs xmlParse rounds (some file) outCount =
        done (.allocated (entries.map some), entries.length) ↔
      builderCollectXattrs xmlParse file = some entries := by
  have hlines : xattrLines file = fgets (builderXattrBufsize - 1) file := by
    refine (List.map_congr_left fun l hl => ?_).trans (List.map_id _)
    refine cString_eq_self fun hmem => hnul ?_
    have hflatten : Char.ofNat 0 ∈ (fgets (builderXattrBufsize - 1) file).flatten :=
      List.mem_flatten_of_mem hl hmem
    rwa [fgets, flatten_fgetsFrom, List.nil_append] at hflatten
  have hpairs : ∀ lines : List Text, (lines.filterMap fun linebuf =>
      (strstr xattrMark linebuf).map (linebuf, ·)) =
        (lines.filter fun l => (strstr xattrMark l).isSome).map fun l =>
          (l, (strstr xattrMark l).getD []) := by
    intro lines
    induction lines with
    | nil => rfl
    | cons l lines ih =>
        cases hpos : strstr xattrMark l with
        | none => simp [hpos, ih]
        | some pos => simp [hpos, ih]
  have hreturned : builderCollectXattrs xmlParse file = some entries ↔
      List.Forall₂ (Collected xmlParse) (markedLines file) entries := by
    rw [builderCollectXattrs, hpairs, ← hlines, Rel.mapM_eq_some, ← List.forall₂_eq_eq_eq,
      List.forall₂_map_left_iff, List.forall₂_map_left_iff, List.forall₂_map_right_iff]
    simp only [returned_eq_some]
    rfl
  rw [hreturned, collectXattrs_eq_done_iff]
  constructor
  · rintro ⟨entries', hentries, heq⟩
    injection heq with hsome
    injection hsome with hsome
    obtain rfl := List.map_injective_iff.mpr (Option.some_injective _) hsome
    exact hentries
  · intro hentries
    exact ⟨entries, hentries, rfl⟩

/-! ## the main theorem -/

/-- What is returned is what the lines say only if every line is readable. -/
theorem readable_of_allOrNothing {file : Text} (h : AllOrNothing xmlParse file) :
    ∀ line ∈ markedLines file, LineReadable xmlParse line := by
  obtain ⟨rounds, ⟨entries, hsays, hdone⟩ | ⟨hdone, -⟩⟩ := h
  · obtain ⟨entries', hcollected, heq⟩ := collectXattrs_eq_done_iff.mp hdone
    obtain ⟨hsome, -⟩ := Prod.mk.inj heq
    injection hsome with hsome
    obtain rfl := List.map_injective_iff.mpr (Option.some_injective _) hsome
    intro line hline
    obtain ⟨entry, -, hentry⟩ := Rel.exists_of_forall₂_left
      (hcollected.mp (fun _ _ hc hs => And.intro hc hs) hsays) hline
    exact (collected_says_iff line).mp ⟨entry, hentry⟩
  · obtain ⟨entries, -, heq⟩ := collectXattrs_eq_done_iff.mp hdone
    injection heq with hnull
    contradiction

/-- **All or nothing** holds exactly if every line with a document is readable. -/
theorem all_or_nothing_iff (xmlParse : Text → Option XmlNode) (file : Text) :
    AllOrNothing xmlParse file ↔ ∀ line ∈ markedLines file, LineReadable xmlParse line := by
  refine ⟨readable_of_allOrNothing, fun hall => ?_⟩
  obtain ⟨entries, hentries⟩ := Rel.exists_forall₂_iff.mpr fun line hline =>
    (collected_says_iff line).mpr (hall line hline)
  refine ⟨0, .inl ⟨entries, hentries.imp fun _ _ h => h.2, ?_⟩⟩
  exact collectXattrs_eq_done_iff.mpr ⟨entries, hentries.imp fun _ _ h => h.1, rfl⟩

end Collect

/-- A line whose number is missing. -/
def unnumberedLine : Text := "x,".toList ++ xmlText [("color".toList, "red".toList)] ++ ['\n']

/-- The number is missing in the only line, but NULL is not returned. -/
theorem unnumbered_not_all_or_nothing :
    ¬ ∀ (xmlParse : Text → Option XmlNode) (file : Text), AllOrNothing xmlParse file := by
  intro h
  have hmarked : unnumberedLine ∈ markedLines unnumberedLine := by decide +kernel
  obtain ⟨n, hnumber, -⟩ := (readable_of_allOrNothing
    (h (readsOnly [("color".toList, "red".toList)]) unnumberedLine) _ hmarked).number
  have hnone : leadingNumber unnumberedLine = none := by decide +kernel
  rw [hnone] at hnumber
  contradiction

end Hpssix
