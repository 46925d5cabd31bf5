import Hpssix.Base.Fate
import Hpssix.Index
import Hpssix.Base.Sql
import Hpssix.Base.Csv

/-!
# Hpssix.XattrPipeline

The third stage of the builder, from the bytes of the xattr export to the rows
of `hpssix_attr_val`: `sql_xattr` of `hpssix-db2-scan.sh.in`,
`builder_collect_xattrs` and `parse_xattr` of `hpssix-builder-utils.c`,
`hpssix_builder_process_xattrs`.

A value is XML text in a DEL record on the way in, and an SQL literal that
`COPY` takes for a quoted CSV field on the way out.  The double quotes of the
DEL format stay doubled, an escape literal keeps its `E`, a newline ends the
record, and an empty value is a null pointer.

* `processXattrsFile_exportXattr` — on what the scan writes, the stage is
  `processXattrs` with the transport `xattrTransport`;
* `tag_value_survives_iff` — which values arrive.
-/

namespace Hpssix

open CText Fate Rel Sql Doubling

/-! ## the export -/

/-- A character of a text as `xmlserialize` writes it. -/
def xmlEscapeChar (c : Char) : Text :=
  if c = '&' then "&amp;".toList
  else if c = '<' then "&lt;".toList
  else if c = '>' then "&gt;".toList
  else if c = '\r' then "&#xD;".toList
  else [c]

/-- The text of an attribute. -/
def xmlElement (a : Text × Text) : Text :=
  '<' :: a.1 ++ '>' :: a.2.flatMap xmlEscapeChar ++ '<' :: '/' :: a.1 ++ ['>']

/-- The mark by which the builder finds the document in a line. -/
def xattrMark : Text := "<hpss><fs>".toList

/-- The text of an attribute document. -/
def xmlText (attrs : Attrs) : Text :=
  xattrMark ++ attrs.flatMap xmlElement ++ "</fs></hpss>".toList

/-- A record of `sql_xattr` in the DEL format, which doubles the quotes. -/
def delRecord (r : Oid × Attrs) : Text :=
  delHead r.1 ++ double (· = delQuote) (xmlText r.2) ++ [delQuote, '\n']

/-- The file that `sql_xattr` writes. -/
def exportXattr (xattr : List (Oid × Attrs)) : Text := xattr.flatMap delRecord

/-! ## the parser -/

/-- A node of the tree that libxml2 makes. -/
inductive XmlNode where
  | text (content : Text)
  | cdata (content : Text)
  | comment (content : Text)
  | instruction (target content : Text)
  | element (name : Text) (children : List XmlNode)

namespace XmlNode

/-- `node->name`: NULL for a CDATA section. -/
def name : XmlNode → Option Text
  | .text _ => some "text".toList
  | .cdata _ => none
  | .comment _ => some "comment".toList
  | .instruction target _ => some target
  | .element name _ => some name

/-- `node->xmlChildrenNode`. -/
def children : XmlNode → List XmlNode
  | .element _ children => children
  | _ => []

/-- The text of a text node or a CDATA section. -/
def content : XmlNode → Option Text
  | .text content => some content
  | .cdata content => some content
  | _ => none

end XmlNode

/-- `xmlNodeListGetString`: NULL for a list without text. -/
def xmlNodeListGetString (nodes : List XmlNode) : Option Text :=
  if (nodes.filterMap XmlNode.content).isEmpty then none
  else some (nodes.filterMap XmlNode.content).flatten

/-- The root of the tree of an attribute document. -/
def xmlTree (attrs : Attrs) : XmlNode :=
  .element "hpss".toList [.element "fs".toList
    (attrs.map fun a => .element a.1 (if a.2 = [] then [] else [.text a.2]))]

section Builder
variable (xmlParse : Text → Option XmlNode) (rval : Text → Option Float8)

/-- The body of the loop in `parse_xattr`: `strdup` does not return from a null
pointer. -/
def parseTag (node : XmlNode) : Fate (Text × Option Text) := do
  let name ← deref node.name
  pure (name, xmlNodeListGetString node.children)

/-- `parse_xattr`: the tags below `fs`, each with its name and its text; NULL if there
are none. -/
def parseXattr (xmlstr : Text) : Fate (Option (List (Text × Option Text))) :=
  match xmlParse xmlstr with
  | none => pure none
  | some node =>
    match node.children.head? with
    | none => pure none
    | some fsnode =>
      if node.name = some "hpss".toList ∧ fsnode.name = some "fs".toList ∧
          fsnode.children ≠ [] then do
        pure (some (← fsnode.children.mapM parseTag))
      else pure none

/-! ## reading the export -/

/-- The size of the buffer that `builder_collect_xattrs` allocates. -/
def builderXattrBufsize : Nat := 50 * 2 ^ 20

/-- The document without the quote that ends the record: the string is cut at
its last character but one, if a quote stands there. -/
def cutQuote (pos : Text) : Text :=
  if pos[pos.length - 2]? = some delQuote then pos.take (pos.length - 2) else pos

/-- What `builder_collect_xattrs` makes of a line with a document in it. -/
def collectLine (linebuf pos : Text) : Fate (Option (Nat × List (Text × Option Text))) :=
  -- the cut is behind the mark, where the number cannot reach
  if (strtoullEnd linebuf).head? = some ',' then do
    let current ← parseXattr xmlParse (cutQuote pos)
    pure (current.map (strtoull linebuf, ·))
  else pure none

/-- `builder_collect_xattrs`: lines without the mark are skipped, and a line that
cannot be read ends the builder, whose loop over what it has read so far does not
end. -/
def builderCollectXattrs (file : Text) : Option (List (Nat × List (Text × Option Text))) :=
  ((fgets (builderXattrBufsize - 1) file).filterMap fun linebuf =>
    (strstr xattrMark linebuf).map (linebuf, ·)).mapM fun line =>
      (collectLine xmlParse line.1 line.2).returned

/-! ## writing the rows -/

/-- `hpssix_db_populate_xattr_keys`, on tags of any values. -/
def populateKeys {ι ν : Type} (tags : List (ι × Text × ν)) (db : Db) :
    List (ι × Nat × ν) × Db :=
  collect (fun t db => let (kid, db) := attrKeyPop t.2.1 db; ((t.1, kid, t.2.2), db)) tags db

/-- `hpssix_db_escape_literal`: `strlen` does not return from a null pointer. -/
def escapeLiteral (val : Option Text) : Option Text := val.map pqEscapeLiteral

/-- The formatted row of a tag. -/
def attrValLine (oid kid : Nat) (eval : Text) : Text :=
  decimal oid ++ ',' :: decimal kid ++ ',' :: eval ++ ['\n']

/-- The row as `sprintf` leaves it in `linebuf`, unless it overruns it. -/
def putAttrVal (tag : Nat × Nat × Option Text) : Option Text := do
  let eval ← escapeLiteral tag.2.2
  let linebuf := attrValLine tag.1 tag.2.1 eval
  if linebuf.length < lineMax then pure linebuf else none

/-- A number in a field. -/
def numberField (field : Option Text) : Option Nat := do
  let digits ← field
  if digits ≠ [] ∧ digits.all Char.isDigit then pure (digitsVal 10 digits) else none

/-- A row of `COPY hpssix_attr_val (oid, kid, sval)`, with the trigger. -/
def attrValOf (fields : List (Option Text)) : Option AttrValRow :=
  match fields with
  | [oid, kid, sval] => do
      let oid ← int8 (← numberField oid)
      let kid ← numberField kid
      pure { oid, kid, rval := sval.bind rval, sval }
  | _ => none

/-- The rows are added if the constraints of `hpssix_attr_val` hold. -/
def insertAttrVal (rows : List AttrValRow) (db : Db) : Option Db :=
  let after := db.attrVal ++ rows
  if (after.map fun v => (v.oid, v.kid)).Nodup ∧ ∀ v ∈ rows, db.HasObject v.oid then
    some { db with attrVal := after }
  else none

/-- `hpssix_builder_process_xattrs`, on the bytes of the export. -/
def processXattrsFile (file : Text) (db : Db) : Option Db := do
  let xattrs ← builderCollectXattrs xmlParse file
  let cleared := { db with attrVal := db.attrVal.filter fun v => v.oid.val ∉ xattrs.map Prod.fst }
  let (tags, db) := populateKeys (xattrs.flatMap fun x => x.2.map fun a => (x.1, a)) cleared
  let lines ← tags.mapM putAttrVal
  let rows ← Csv.rows ',' quoteChar lines.flatten
  insertAttrVal (← rows.mapM (attrValOf rval)) db

end Builder

/-! ## the export is read back -/

/-- The attributes as the DEL format leaves them. -/
def delAttrs (attrs : Attrs) : Attrs := attrs.map fun a => (a.1, double (· = delQuote) a.2)

/-- The names of XML elements have neither quotes nor newlines in them. -/
def XmlNames (attrs : Attrs) : Prop := ∀ a ∈ attrs, delQuote ∉ a.1 ∧ '\n' ∉ a.1

/-- What libxml2 makes of a document, and of a document that is cut off or
followed by a quote. -/
structure XmlReads (xmlParse : Text → Option XmlNode) (attrs : Attrs) : Prop where
  whole : xmlParse (xmlText attrs) = some (xmlTree attrs)
  cut : ∀ t, t <+: xmlText attrs ++ [delQuote] → t ≠ xmlText attrs → xmlParse t = none

/-- The head of a record has at most 21 characters. -/
theorem length_delHead (o : Oid) : (delHead o).length ≤ 21 := by
  have h : (decimal o.val).length ≤ 19 :=
    (Nat.length_toDigits_le_iff (by decide) (by decide)).mpr (o.isLt.trans (by decide))
  rw [delHead, List.length_append]
  exact Nat.add_le_add_right h 2

/-- The head of a record has no character of the mark and no newline. -/
theorem not_mem_delHead {c : Char} (o : Oid) (h : c = '<' ∨ c = '\n') : c ∉ delHead o := by
  rw [delHead, List.mem_append, not_or]
  obtain rfl | rfl := h
  · exact ⟨not_mem_decimal o.val rfl, by decide⟩
  · exact ⟨not_mem_decimal o.val rfl, by decide⟩

/-- Escaping concerns neither quotes nor newlines. -/
theorem mem_xmlEscapeChar {c d : Char} (h : c = delQuote ∨ c = '\n') :
    c ∈ xmlEscapeChar d ↔ c = d := by
  unfold xmlEscapeChar
  split_ifs with h₁ h₂ h₃ h₄
  · subst h₁; obtain rfl | rfl := h <;> decide
  · subst h₂; obtain rfl | rfl := h <;> decide
  · subst h₃; obtain rfl | rfl := h <;> decide
  · subst h₄; obtain rfl | rfl := h <;> decide
  · simp

/-- Quotes may be doubled before or after the text is escaped. -/
theorem double_xmlEscapeChar (s : Text) :
    double (· = delQuote) (s.flatMap xmlEscapeChar) =
      (double (· = delQuote) s).flatMap xmlEscapeChar := by
  induction s with
  | nil => rfl
  | cons c s ih =>
      rw [List.flatMap_cons, double_append, ih, double_cons, List.flatMap_append]
      congr 1
      by_cases hc : c = delQuote
      · subst hc; decide
      · rw [double_of_forall fun d hd => ?_, if_neg hc, List.flatMap_singleton]
        rintro rfl
        exact hc ((mem_xmlEscapeChar (.inl rfl)).mp hd).symm

/-- The DEL format doubles the quotes in the values. -/
theorem double_xmlText {attrs : Attrs} (h : XmlNames attrs) :
    double (· = delQuote) (xmlText attrs) = xmlText (delAttrs attrs) := by
  have hplain : ∀ s : Text, delQuote ∉ s → double (· = delQuote) s = s := fun s hs =>
    double_of_forall fun c hc hq => hs (hq ▸ hc)
  have helements : double (· = delQuote) (attrs.flatMap xmlElement) =
      (delAttrs attrs).flatMap xmlElement := by
    induction attrs with
    | nil => rfl
    | cons a attrs ih =>
        have hname := (h a List.mem_cons_self).1
        have hopen : delQuote ∉ '<' :: a.1 := by
          rw [List.mem_cons, not_or]
          exact ⟨by decide, hname⟩
        have hclose : delQuote ∉ '<' :: '/' :: a.1 := by
          rw [List.mem_cons, List.mem_cons, not_or, not_or]
          exact ⟨by decide, by decide, hname⟩
        have hvalue : ∀ s : Text, double (· = delQuote) ('>' :: s) = '>' :: double (· = delQuote) s :=
          double_cons_of_neg (by decide)
        rw [List.flatMap_cons, double_append, ih fun b hb => h b (List.mem_cons_of_mem a hb),
          xmlElement, double_append, double_append, double_append, hplain _ hopen, hplain _ hclose,
          hvalue, hvalue, double_xmlEscapeChar]
        rfl
  rw [xmlText, double_append, double_append, helements, hplain xattrMark (by decide),
    hplain "</fs></hpss>".toList (by decide)]
  rfl

/-- A newline in a document is one in a value. -/
theorem newline_mem_xmlText {attrs : Attrs} (h : XmlNames attrs) :
    '\n' ∈ xmlText (delAttrs attrs) ↔ ∃ a ∈ attrs, '\n' ∈ a.2 := by
  have hvalue : ∀ s : Text, '\n' ∈ s.flatMap xmlEscapeChar ↔ '\n' ∈ s := fun s => by
    simp [List.mem_flatMap, mem_xmlEscapeChar]
  have hmark : '\n' ∉ xattrMark := by decide
  have hend : '\n' ∉ "</fs></hpss>".toList := by decide
  simp only [xmlText, List.mem_append, hmark, hend, false_or, or_false, List.mem_flatMap, delAttrs,
    List.mem_map]
  constructor
  · rintro ⟨_, ⟨a, ha, rfl⟩, hmem⟩
    refine ⟨a, ha, ?_⟩
    simpa [xmlElement, (h a ha).2, hvalue] using hmem
  · rintro ⟨a, ha, hmem⟩
    refine ⟨_, ⟨a, ha, rfl⟩, ?_⟩
    simpa [xmlElement, (h a ha).2, hvalue] using hmem

/-- A document ends with `s>`. -/
theorem xmlText_eq_append (attrs : Attrs) : ∃ t, xmlText attrs = xattrMark ++ t ++ ['s', '>'] :=
  ⟨attrs.flatMap xmlElement ++ "</fs></hps".toList, by
    rw [xmlText, ← List.append_assoc, List.append_assoc _ _ ['s', '>']]
    rfl⟩

/-! ## reading a record -/

/-- The closing quote and the newline of a record are cut off. -/
theorem cutQuote_record (d : Text) : cutQuote (d ++ [delQuote, '\n']) = d := by
  simp [cutQuote]

/-- A document has no quote to cut off. -/
theorem cutQuote_document (attrs : Attrs) : cutQuote (xmlText attrs) = xmlText attrs := by
  obtain ⟨t, ht⟩ := xmlText_eq_append attrs
  have hlast : (xmlText attrs)[(xmlText attrs).length - 2]? = some 's' := by
    rw [ht, List.length_append]
    simp
  rw [cutQuote, if_neg]
  rw [hlast]
  decide

/-- A cut of a record that is not the document is not made into it. -/
theorem cutQuote_cut {d pos : Text} (hd : d ≠ []) (h : pos <+: d ++ [delQuote]) (hne : pos ≠ d) :
    cutQuote pos <+: d ++ [delQuote] ∧ cutQuote pos ≠ d := by
  have hlen := h.length_le
  rw [List.length_append, List.length_singleton] at hlen
  unfold cutQuote
  split
  · refine ⟨(List.take_prefix ..).trans h, fun he => ?_⟩
    have hpos := List.length_pos_of_ne_nil hd
    have htake := congrArg List.length he
    rw [List.length_take] at htake
    omega
  · exact ⟨h, hne⟩

/-- The tags of a document that is read. -/
def tagsRead (attrs : Attrs) : List (Text × Option Text) :=
  attrs.map fun a => (a.1, if a.2 = [] then none else some a.2)

/-- A document that is whole is read as the tags it was made of. -/
theorem parseXattr_whole {xmlParse : Text → Option XmlNode} {attrs : Attrs}
    (hxml : XmlReads xmlParse attrs) (hne : attrs ≠ []) :
    parseXattr xmlParse (xmlText attrs) = done (some (tagsRead attrs)) := by
  have hstring : ∀ v : Text, xmlNodeListGetString (if v = [] then [] else [.text v]) =
      if v = [] then none else some v := fun v => by
    by_cases h : v = []
    · simp [xmlNodeListGetString, h]
    · simp [xmlNodeListGetString, XmlNode.content, h]
  have htags : (attrs.map fun a => XmlNode.element a.1 (if a.2 = [] then [] else [.text a.2])).mapM
      parseTag = done (tagsRead attrs) := by
    rw [mapM_eq_done, tagsRead, List.forall₂_map_left_iff, List.forall₂_map_right_iff,
      List.forall₂_same]
    intro a _
    simp [parseTag, XmlNode.name, XmlNode.children, hstring]
  rw [parseXattr, hxml.whole]
  simp [xmlTree, XmlNode.name, XmlNode.children, hne, htags]

/-- A document that is cut off is not read. -/
theorem parseXattr_cut {xmlParse : Text → Option XmlNode} {attrs : Attrs}
    (hxml : XmlReads xmlParse attrs) {t : Text} (h : t <+: xmlText attrs ++ [delQuote])
    (hne : t ≠ xmlText attrs) : parseXattr xmlParse t = done none := by
  rw [parseXattr, hxml.cut t h hne]
  rfl

/-- The number before the document is read. -/
theorem collectLine_delHead (xmlParse : Text → Option XmlNode) (o : Oid) (pos : Text) :
    collectLine xmlParse (delHead o ++ pos) pos =
      parseXattr xmlParse (cutQuote pos) >>= fun current => done (current.map (o.val, ·)) := by
  have hread := strtoull_decimal_append (n := o.val) (o.isLt.trans (by decide)) (x := ',')
    (delQuote :: pos) rfl (by decide)
  rw [collectLine, delHead, List.append_assoc, List.cons_append, List.singleton_append, hread.1,
    hread.2]
  rfl

/-- The first piece of a record has the mark in it. -/
theorem mark_of_piece {o : Oid} {d p rest : Text} {room : Nat} (hroom : 32 ≤ room)
    (hd : xattrMark <+: d) (hsplit : delHead o ++ d = p ++ rest)
    (hend : rest = [] ∨ p.getLast? = some '\n' ∨ p.length = room) :
    ∃ pos, p = delHead o ++ pos ∧ d = pos ++ rest ∧ xattrMark <+: pos ∧
      strstr xattrMark p = some pos := by
  have hhead : delHead o ++ xattrMark <+: p ++ rest := hsplit ▸ (List.prefix_append_right_inj _).mpr hd
  have hp : delHead o ++ xattrMark <+: p := by
    obtain rfl | hend := hend
    · simpa using hhead
    · obtain hpre | hpre := List.prefix_or_prefix_of_prefix hhead (List.prefix_append p rest)
      · exact hpre
      · exfalso
        obtain hlast | hlen := hend
        · have hmem := hpre.subset (List.mem_of_getLast? hlast)
          obtain hmem | hmem := List.mem_append.mp hmem
          · exact not_mem_delHead o (.inr rfl) hmem
          · exact absurd hmem (by decide)
        · have hle := hpre.length_le
          have hhd := length_delHead o
          rw [List.length_append, show xattrMark.length = 10 from rfl] at hle
          omega
  obtain ⟨u, rfl⟩ := hp
  refine ⟨xattrMark ++ u, List.append_assoc .., ?_, List.prefix_append .., ?_⟩
  · rw [List.append_assoc, List.append_assoc] at hsplit
    rw [List.append_cancel_left hsplit, List.append_assoc]
  · exact strstr_append (not_mem_delHead o (.inl rfl)) u

/-- A record fits the buffer with its newline, or just without the quote before
it. -/
def RecordFits (room : Nat) (r : Oid × Attrs) : Prop :=
  (delRecord r).length ≤ room ∨ (delRecord r).length = room + 2

instance (room : Nat) (r : Oid × Attrs) : Decidable (RecordFits room r) :=
  inferInstanceAs (Decidable (_ ∨ _))

/-- The first piece of a record is the record, or ends with the document, or
holds a cut of the document. -/
theorem piece_cases {head d pos rest : Text} {room : Nat} (hhead : '\n' ∉ head)
    (hd : d.getLast? = some '>') (hsplit : d ++ [delQuote, '\n'] = pos ++ rest)
    (hlen : (head ++ pos).length ≤ room) (hnl : '\n' ∉ (head ++ pos).dropLast)
    (hend : rest = [] ∨ (head ++ pos).getLast? = some '\n' ∨ (head ++ pos).length = room) :
    pos = d ++ [delQuote, '\n'] ∧ rest = [] ∧
        '\n' ∉ d ∧ (head ++ d ++ [delQuote, '\n']).length ≤ room ∨
      pos = d ∧ rest = [delQuote, '\n'] ∧
        '\n' ∉ d ∧ (head ++ d ++ [delQuote, '\n']).length = room + 2 ∨
      pos <+: d ++ [delQuote] ∧ pos ≠ d ∧
        ¬ (((head ++ d ++ [delQuote, '\n']).length ≤ room ∨
          (head ++ d ++ [delQuote, '\n']).length = room + 2) ∧ '\n' ∉ d) := by
  have hquote : '\n' ≠ delQuote := by decide
  simp only [List.length_append] at hlen hend ⊢
  rcases List.eq_nil_or_concat rest with rfl | ⟨rest, x, rfl⟩
  · rw [List.append_nil] at hsplit
    subst hsplit
    refine .inl ⟨rfl, rfl, ?_, by simpa [Nat.add_assoc] using hlen⟩
    rw [show head ++ (d ++ [delQuote, '\n']) = (head ++ d ++ [delQuote]) ++ ['\n'] by simp,
      List.dropLast_concat] at hnl
    simp only [List.mem_append, not_or] at hnl
    exact hnl.1.2
  · have hsplit' : d ++ [delQuote] ++ ['\n'] = pos ++ rest ++ [x] := by simpa using hsplit
    obtain ⟨hpre, hx⟩ := List.append_inj' hsplit' rfl
    rw [List.concat_eq_append] at hend hsplit ⊢
    have hpos : pos <+: d ++ [delQuote] := ⟨rest, hpre.symm⟩
    -- a piece without a newline fills the buffer
    have hfull : '\n' ∉ head ++ pos → head.length + pos.length = room := fun hmem => by
      obtain hnil | hlast | hfull := hend
      · simp at hnil
      · exact absurd (List.mem_of_getLast? hlast) hmem
      · exact hfull
    by_cases hdoc : pos = d
    · subst hdoc
      have hlast : (head ++ pos).getLast? = some '>' := by rw [List.getLast?_append, hd]; rfl
      have hmem : '\n' ∉ head ++ pos := by
        rw [← List.dropLast_append_getLast? _ hlast, List.mem_append, not_or]
        exact ⟨hnl, by decide⟩
      refine .inr (.inl ⟨rfl, (List.append_cancel_left hsplit).symm, ?_, ?_⟩)
      · exact fun h => hmem (List.mem_append_right head h)
      · rw [hfull hmem]
        rfl
    · refine .inr (.inr ⟨hpos, hdoc, ?_⟩)
      rintro ⟨hfits, hd'⟩
      have hmem : '\n' ∉ head ++ pos := by
        rw [List.mem_append, not_or]
        refine ⟨hhead, fun h => ?_⟩
        have := hpos.subset h
        simp [hd', hquote] at this
      have hle := hpos.length_le
      have hroom := hfull hmem
      simp only [List.length_append, List.length_cons, List.length_nil] at hle hfits
      obtain hfits | hfits := hfits
      · omega
      · have hlen : pos.length = d.length := by omega
        have hpre' := List.prefix_of_prefix_length_le hpos (List.prefix_append d [delQuote]) hlen.le
        exact hdoc (hpre'.eq_of_length hlen)

/-- **A record**: it is read whole if it is one line that fits, and not at all
otherwise. -/
theorem collect_delRecord {xmlParse : Text → Option XmlNode} {r : Oid × Attrs} {room : Nat}
    (hroom : 32 ≤ room) (hnames : XmlNames r.2) (hne : r.2 ≠ [])
    (hxml : XmlReads xmlParse (delAttrs r.2)) :
    (((fgetsFrom room [] room (delRecord r)).filterMap fun linebuf =>
        (strstr xattrMark linebuf).map (linebuf, ·)).mapM fun line =>
          (collectLine xmlParse line.1 line.2).returned) =
      if RecordFits room r ∧ '\n' ∉ xmlText (delAttrs r.2) then
        some [(r.1.val, tagsRead (delAttrs r.2))] else none := by
  have hrecord : delRecord r = delHead r.1 ++ xmlText (delAttrs r.2) ++ [delQuote, '\n'] := by
    rw [delRecord, double_xmlText hnames]
  have hne' : delAttrs r.2 ≠ [] := by simpa [delAttrs] using hne
  have hcut := @cutQuote_document (delAttrs r.2)
  have hread := parseXattr_whole hxml hne'
  have hunread := @parseXattr_cut _ _ hxml
  obtain ⟨t, ht⟩ := xmlText_eq_append (delAttrs r.2)
  have hmark : xattrMark <+: xmlText (delAttrs r.2) ++ [delQuote, '\n'] := by
    rw [ht, List.append_assoc, List.append_assoc]
    exact List.prefix_append ..
  have hlast : (xmlText (delAttrs r.2)).getLast? = some '>' := by rw [ht]; simp
  have hdoc : xmlText (delAttrs r.2) ≠ [] := fun h => by simp [h] at hlast
  have hfit : RecordFits room r ↔
      (delHead r.1 ++ xmlText (delAttrs r.2) ++ [delQuote, '\n']).length ≤ room ∨
        (delHead r.1 ++ xmlText (delAttrs r.2) ++ [delQuote, '\n']).length = room + 2 := by
    rw [RecordFits, hrecord]
  rw [hrecord]
  generalize xmlText (delAttrs r.2) = d at *
  obtain ⟨p, rest, hp, hsplit, -, hlen, hnl, hend⟩ := fgetsFrom_cons room []
    (show 0 < room by omega) (show delHead r.1 ++ d ++ [delQuote, '\n'] ≠ [] by simp)
  rw [List.append_assoc] at hsplit
  obtain ⟨pos, rfl, hsplit, -, hstr⟩ := mark_of_piece hroom hmark hsplit hend
  have hfirst := collectLine_delHead xmlParse r.1 pos
  rw [hp, List.nil_append, List.filterMap_cons, hstr, Option.map_some, List.mapM_cons, hfirst]
  obtain ⟨rfl, rfl, hno, hfits⟩ | ⟨rfl, rfl, hno, hfits⟩ | ⟨hpre, hneq, hnot⟩ :=
    piece_cases (not_mem_delHead r.1 (.inr rfl)) hlast hsplit hlen hnl hend
  · -- the record is one piece
    rw [if_pos ⟨hfit.mpr (.inl hfits), hno⟩, cutQuote_record, hread]
    rfl
  · -- the quote and the newline are a piece of their own
    have hquote : fgetsFrom room [] room [delQuote, '\n'] = [[delQuote, '\n']] := by
      have h₁ : ¬ (delQuote = '\n' ∨ room ≤ 1) := by
        rw [not_or]
        exact ⟨by decide, by omega⟩
      simp [fgetsFrom, h₁]
    have hskip : strstr xattrMark [delQuote, '\n'] = none := by decide
    rw [if_pos ⟨hfit.mpr (.inr hfits), hno⟩, hcut, hread, hquote, List.filterMap_cons, hskip]
    rfl
  · rw [if_neg fun h => hnot ⟨hfit.mp h.1, h.2⟩, hunread (cutQuote_cut hdoc hpre hneq).1 (cutQuote_cut hdoc hpre hneq).2]
    rfl

/-- Each record begins a piece. -/
theorem fgetsFrom_exportXattr (room : Nat) (xattr : List (Oid × Attrs)) :
    fgetsFrom room [] room (exportXattr xattr) =
      xattr.flatMap fun r => fgetsFrom room [] room (delRecord r) := by
  induction xattr with
  | nil => rfl
  | cons r xattr ih =>
      have hr : ∀ s, delRecord r ++ s =
          (delHead r.1 ++ double (· = delQuote) (xmlText r.2) ++ [delQuote]) ++ '\n' :: s := fun s => by
        simp [delRecord]
      have hnil := hr []
      rw [List.append_nil] at hnil
      rw [exportXattr, List.flatMap_cons, List.flatMap_cons, hr, fgetsFrom_append, ← hnil,
        ← exportXattr, ih]

section Export
variable {xmlParse : Text → Option XmlNode} {rval : Text → Option Float8}
  {xattr : List (Oid × Attrs)} {db : Db}

/-- An export of attribute documents that libxml2 reads: one document for an
object, one element for a key. -/
structure XattrExport (xmlParse : Text → Option XmlNode) (xattr : List (Oid × Attrs)) : Prop where
  objects : (xattr.map Prod.fst).Nodup
  keys : ∀ r ∈ xattr, (r.2.map Prod.fst).Nodup
  nonempty : ∀ r ∈ xattr, r.2 ≠ []
  names : ∀ r ∈ xattr, XmlNames r.2
  reads : ∀ r ∈ xattr, XmlReads xmlParse (delAttrs r.2)

/-- How many characters of a line the builder reads at once. -/
def xattrRoom : Nat := builderXattrBufsize - 2

/-- The export is collected exactly if each record fits the buffer, without a newline in it. -/
theorem builderCollectXattrs_exportXattr (h : XattrExport xmlParse xattr) :
    builderCollectXattrs xmlParse (exportXattr xattr) =
      if ∀ r ∈ xattr, RecordFits xattrRoom r ∧ '\n' ∉ xmlText (delAttrs r.2) then
        some (xattr.map fun r => (r.1.val, tagsRead (delAttrs r.2))) else none := by
  have hroom : 32 ≤ xattrRoom := by decide
  rw [builderCollectXattrs, fgets, show builderXattrBufsize - 1 - 1 = xattrRoom from rfl,
    fgetsFrom_exportXattr, List.filterMap_flatMap, mapM_flatMap,
    mapM_eq_ite fun r hr => collect_delRecord hroom (h.names r hr) (h.nonempty r hr) (h.reads r hr)]
  split
  · rw [Option.map_some, ← List.flatMap_def, ← List.map_eq_flatMap]
  · rfl


/-! ## the rows are read back -/

/-- What `COPY` reads where the builder wrote a literal. -/
def storedSval (w : Text) : Text :=
  if escapeChar ∈ w then ' ' :: 'E' :: double (· = escapeChar) w else w

/-- **A row**: the literal is taken for a quoted field. -/
theorem rows_attrValLine (oid kid : Nat) (w rest : Text) :
    Csv.rows ',' quoteChar (attrValLine oid kid (pqEscapeLiteral w) ++ rest) =
      (Csv.rows ',' quoteChar rest).map fun rows =>
        [some (decimal oid), some (decimal kid), some (storedSval w)] :: rows := by
  have hdigit : ∀ n, ∀ c ∈ decimal n, c ≠ quoteChar ∧ c ≠ ',' ∧ c ≠ '\n' := fun n c hc => by
    have hd := isDigit_of_mem_decimal hc
    refine ⟨?_, ?_, ?_⟩ <;> (rintro rfl; exact absurd hd (by decide))
  have hne : ∀ n, decimal n ≠ [] := fun n => Nat.toDigits_ne_nil
  have hliteral : ∀ (s : Text) (u rest : Text), (∀ c ∈ s, c ≠ quoteChar ∧ c ≠ ',' ∧ c ≠ '\n') →
      Csv.rows ',' quoteChar (decimal oid ++ ',' :: (decimal kid ++ ',' ::
          (s ++ quoteChar :: (double (· = quoteChar) u ++ quoteChar :: '\n' :: rest)))) =
        (Csv.rows ',' quoteChar rest).map fun rows =>
          [some (decimal oid), some (decimal kid), some (s ++ u)] :: rows := fun s u rest hs => by
    rw [Csv.rows, Csv.rowsFrom_field (hdigit oid) (hne oid) (by decide),
      Csv.rowsFrom_field (hdigit kid) (hne kid) (by decide),
      Csv.rowsFrom_literal hs (by decide) (by decide)]
    rfl
  unfold pqEscapeLiteral storedSval
  split
  · have h := hliteral [' ', 'E'] (double (· = escapeChar) w) rest (by simp; decide)
    simpa [attrValLine, quote_eq] using h
  · have h := hliteral [] w rest (by simp)
    simpa [attrValLine, quote_eq] using h

/-- The rows of a batch. -/
theorem rows_attrValLines (tags : List (Nat × Nat × Text)) :
    Csv.rows ',' quoteChar
        (tags.map fun t => attrValLine t.1 t.2.1 (pqEscapeLiteral t.2.2)).flatten =
      some (tags.map fun t =>
        [some (decimal t.1), some (decimal t.2.1), some (storedSval t.2.2)]) := by
  induction tags with
  | nil => rfl
  | cons t tags ih => rw [List.map_cons, List.flatten_cons, rows_attrValLine, ih]; rfl

/-- A decimal number is read back. -/
theorem numberField_decimal (n : Nat) : numberField (some (decimal n)) = some n := by
  have hne : decimal n ≠ [] := Nat.toDigits_ne_nil
  simp only [numberField, Option.bind_eq_bind, Option.bind_some, List.all_eq_true,
    digitsVal_decimal]
  exact if_pos ⟨hne, fun c hc => isDigit_of_mem_decimal hc⟩

/-- The fields of a line are the values of its row. -/
theorem attrValOf_fields (o : Oid) (kid : Nat) (sval : Text) :
    attrValOf rval [some (decimal o.val), some (decimal kid), some sval] =
      some { oid := o, kid, rval := rval sval, sval := some sval } := by
  simp [attrValOf, numberField_decimal, int8_val]

/-! ## the stage -/

/-- Looking keys up does not depend on the objects and the values. -/
theorem populateKeys_map {ι ι' ν ν' : Type} (f : ι → ι') (g : ν → ν') (tags : List (ι × Text × ν))
    (db : Db) :
    populateKeys (tags.map fun t => (f t.1, t.2.1, g t.2.2)) db =
      ((populateKeys tags db).1.map fun t => (f t.1, t.2.1, g t.2.2), (populateKeys tags db).2) := by
  unfold populateKeys
  induction tags generalizing db with
  | nil => rfl
  | cons t tags ih =>
      rw [List.map_cons, collect_cons, collect_cons]
      simp only [ih, List.map_cons]

/-- The values stay. -/
theorem populateKeys_values {ι ν : Type} (tags : List (ι × Text × ν)) (db : Db) :
    (populateKeys tags db).1.map (fun t => t.2.2) = tags.map fun t => t.2.2 := by
  unfold populateKeys
  induction tags generalizing db with
  | nil => rfl
  | cons t tags ih =>
      rw [collect_cons]
      simp only [ih, List.map_cons]

/-- What the stage makes of a value. -/
def xattrTransport (rval : Text → Option Float8) : Transport where
  sval v := if v = [] ∨ '\n' ∈ v then none else some (storedSval (double (· = delQuote) v))
  rval := rval

/-- Every formatted row fits `linebuf`. -/
def RowsFit (xattr : List (Oid × Attrs)) (db : Db) : Prop :=
  ∀ t ∈ (populateXattrKeys xattr (deleteXattrs xattr db)).1,
    (attrValLine t.1.val t.2.1 (pqEscapeLiteral (double (· = delQuote) t.2.2))).length < lineMax

/-- The value of a tag as the parser hands it over. -/
def parsedVal (v : Text) : Option Text := if v = [] then none else some (double (· = delQuote) v)

/-- The tags that were read, object by object, are those of the export. -/
theorem flatMap_tagsRead (xattr : List (Oid × Attrs)) :
    ((xattr.map fun r => (r.1.val, tagsRead (delAttrs r.2))).flatMap
        fun x => x.2.map fun a => (x.1, a)) =
      (xattrTags xattr).map fun t => (t.1.val, t.2.1, parsedVal t.2.2) := by
  simp [xattrTags, tagsRead, delAttrs, List.flatMap_map, List.map_flatMap, parsedVal,
    Function.comp_def]

/-- A tag of the export is one of a record. -/
theorem mem_xattrTags {t : Oid × Text × Text} :
    t ∈ xattrTags xattr ↔ ∃ r ∈ xattr, r.1 = t.1 ∧ t.2 ∈ r.2 := by
  obtain ⟨o, k, v⟩ := t
  simp only [xattrTags, List.mem_flatMap, List.mem_map, Prod.mk.injEq]
  constructor
  · rintro ⟨r, hr, a, ha, rfl, rfl⟩
    exact ⟨r, hr, rfl, ha⟩
  · rintro ⟨r, hr, rfl, ha⟩
    exact ⟨r, hr, (k, v), ha, rfl, rfl⟩

/-- The rows that go are those of the objects in the export. -/
theorem deleteXattrs_eq (xattr : List (Oid × Attrs)) (db : Db) :
    { db with attrVal := db.attrVal.filter fun v =>
        v.oid.val ∉ (xattr.map fun r => (r.1.val, tagsRead (delAttrs r.2))).map Prod.fst } =
      deleteXattrs xattr db := by
  have hmem : ∀ o : Oid, o.val ∉ (xattr.map fun r => (r.1.val, tagsRead (delAttrs r.2))).map
      Prod.fst ↔ o ∉ xattr.map Prod.fst := fun o => by
    simp [Fin.val_inj]
  simp only [deleteXattrs, hmem]

theorem populateXattrKeys_eq (xattr : List (Oid × Attrs)) (db : Db) :
    populateXattrKeys xattr db = populateKeys (xattrTags xattr) db := rfl

theorem processXattrs_eq (tr : Transport) (xattr : List (Oid × Attrs)) (db : Db) :
    processXattrs tr xattr db =
      ((populateXattrKeys xattr (deleteXattrs xattr db)).1.mapM (attrValRow tr)).bind fun rows =>
        insertAttrVal rows (populateXattrKeys xattr (deleteXattrs xattr db)).2 := rfl

/-- **The rows of a batch**: what is printed for the tags is read as their
rows. -/
theorem mapM_putAttrVal {tags : List (Oid × Nat × Text)} (hnl : ∀ t ∈ tags, '\n' ∉ t.2.2)
    (hfit : ∀ t ∈ tags,
      (attrValLine t.1.val t.2.1 (pqEscapeLiteral (double (· = delQuote) t.2.2))).length < lineMax) :
    (((tags.map fun t => (t.1.val, t.2.1, parsedVal t.2.2)).mapM putAttrVal).bind fun lines =>
        (Csv.rows ',' quoteChar lines.flatten).bind fun rows => rows.mapM (attrValOf rval)) =
      tags.mapM (attrValRow (xattrTransport rval)) := by
  have hput : ∀ t ∈ tags, putAttrVal (t.1.val, t.2.1, parsedVal t.2.2) =
      if t.2.2 ≠ [] then
        some (attrValLine t.1.val t.2.1 (pqEscapeLiteral (double (· = delQuote) t.2.2)))
      else none := fun t ht => by
    by_cases hv : t.2.2 = []
    · simp [putAttrVal, escapeLiteral, parsedVal, hv]
    · simp [putAttrVal, escapeLiteral, parsedVal, hv, hfit t ht]
  have hrow : ∀ t ∈ tags, attrValRow (xattrTransport rval) t =
      if t.2.2 ≠ [] then
        some { oid := t.1, kid := t.2.1, rval := rval (storedSval (double (· = delQuote) t.2.2)),
               sval := some (storedSval (double (· = delQuote) t.2.2)) }
      else none := fun t ht => by
    by_cases hv : t.2.2 = []
    · simp [attrValRow, xattrTransport, hv]
    · simp [attrValRow, xattrTransport, hv, hnl t ht]
  have hlines := mapM_eq_ite
    (f := putAttrVal ∘ fun t : Oid × Nat × Text => (t.1.val, t.2.1, parsedVal t.2.2)) hput
  rw [List.mapM_map, hlines, mapM_eq_ite hrow]
  split
  · have hrows := rows_attrValLines
      (tags.map fun t => (t.1.val, t.2.1, double (· = delQuote) t.2.2))
    simp only [List.map_map, Function.comp_def] at hrows
    rw [Option.bind_some, hrows, Option.bind_some, mapM_eq_some, List.map_map, List.map_map]
    exact List.map_congr_left fun t _ => attrValOf_fields t.1 t.2.1 _
  · rfl

/-- The documents are single lines if the values are. -/
theorem newline_notMem_iff (h : ∀ r ∈ xattr, XmlNames r.2) (db : Db) :
    (∀ t ∈ (populateKeys (xattrTags xattr) db).1, '\n' ∉ t.2.2) ↔
      ∀ r ∈ xattr, '\n' ∉ xmlText (delAttrs r.2) := by
  have hvalues : ∀ v, v ∈ (populateKeys (xattrTags xattr) db).1.map (fun t => t.2.2) ↔
      v ∈ (xattrTags xattr).map fun t => t.2.2 := fun v => by rw [populateKeys_values]
  constructor
  · intro hall r hr hmem
    obtain ⟨a, ha, hv⟩ := (newline_mem_xmlText (h r hr)).mp hmem
    have htag : (r.1, a) ∈ xattrTags xattr := mem_xattrTags.mpr ⟨r, hr, rfl, ha⟩
    obtain ⟨t, ht, hta⟩ := List.mem_map.mp ((hvalues a.2).mpr (List.mem_map.mpr ⟨_, htag, rfl⟩))
    exact hall t ht (hta ▸ hv)
  · intro hall t ht hv
    obtain ⟨t', ht', hta⟩ := List.mem_map.mp ((hvalues t.2.2).mp (List.mem_map_of_mem ht))
    obtain ⟨r, hr, -, ha⟩ := mem_xattrTags.mp ht'
    exact hall r hr ((newline_mem_xmlText (h r hr)).mpr ⟨t'.2, ha, hta ▸ hv⟩)

/-- **The stage on an export**: the statements of the stage with the transport, if
every record fits the buffer. -/
theorem processXattrsFile_exportXattr (h : XattrExport xmlParse xattr) (hfit : RowsFit xattr db) :
    processXattrsFile xmlParse rval (exportXattr xattr) db =
      if ∀ r ∈ xattr, RecordFits xattrRoom r then processXattrs (xattrTransport rval) xattr db
      else none := by
  have hnl := newline_notMem_iff h.names (deleteXattrs xattr db)
  rw [processXattrsFile, builderCollectXattrs_exportXattr h, processXattrs_eq, populateXattrKeys_eq]
  by_cases hfits : ∀ r ∈ xattr, RecordFits xattrRoom r
  · rw [if_pos hfits]
    by_cases hlines : ∀ r ∈ xattr, '\n' ∉ xmlText (delAttrs r.2)
    · rw [if_pos fun r hr => ⟨hfits r hr, hlines r hr⟩, ← mapM_putAttrVal (hnl.mpr hlines) hfit]
      simp only [Option.bind_eq_bind, Option.bind_some, Option.bind_assoc]
      rw [flatMap_tagsRead, deleteXattrs_eq, populateKeys_map Fin.val parsedVal]
    · rw [if_neg fun hall => hlines fun r hr => (hall r hr).2]
      have hnone : (populateKeys (xattrTags xattr) (deleteXattrs xattr db)).1.mapM
          (attrValRow (xattrTransport rval)) = none := by
        rw [← Option.not_isSome_iff_eq_none, isSome_mapM_iff]
        refine fun hall => hlines (hnl.mp fun t ht hv => ?_)
        have := hall t ht
        simp [attrValRow, xattrTransport, hv] at this
      rw [hnone]
      rfl
  · rw [if_neg hfits, if_neg fun hall => hfits fun r hr => (hall r hr).1]
    rfl

/-! ## which values arrive -/

/-- Object and key of the tags of a batch. -/
theorem nodup_xattrTags (hn : (xattr.map Prod.fst).Nodup)
    (hkeys : ∀ r ∈ xattr, (r.2.map Prod.fst).Nodup) :
    ((xattrTags xattr).map fun t => (t.1, t.2.1)).Nodup := by
  rw [xattrTags, List.map_flatMap, List.nodup_flatMap]
  constructor
  · intro r hr
    rw [List.map_map, show ((fun t : Oid × Text × Text => (t.1, t.2.1)) ∘ fun a => (r.1, a)) =
      (fun k => (r.1, k)) ∘ Prod.fst from rfl, ← List.map_map]
    exact (hkeys r hr).map fun k k' hk => (Prod.mk.inj hk).2
  · refine (List.pairwise_map.mp hn).imp fun {r r'} hne => ?_
    intro t ht ht'
    obtain ⟨t₁, ht₁, rfl⟩ := List.mem_map.mp ht
    obtain ⟨a, -, rfl⟩ := List.mem_map.mp ht₁
    obtain ⟨t₂, ht₂, heq⟩ := List.mem_map.mp ht'
    obtain ⟨a', -, rfl⟩ := List.mem_map.mp ht₂
    exact hne (Prod.mk.inj heq).1.symm

/-- The new rows break no constraint. -/
theorem insertAttrVal_of_stored {tr : Transport} {d : Db} {rows : List AttrValRow}
    (hrows : (d.attrVal.map fun v => (v.oid, v.kid)).Nodup)
    (hold : ∀ v ∈ d.attrVal, v.oid ∉ xattr.map Prod.fst)
    (hobj : ∀ r ∈ xattr, d.HasObject r.1) (hn : (xattr.map Prod.fst).Nodup)
    (hkeys : ∀ r ∈ xattr, (r.2.map Prod.fst).Nodup)
    (hstored : List.Forall₂ (Stored tr d) (xattrTags xattr) rows) :
    (insertAttrVal rows d).isSome := by
  have hnames : (rows.map fun v => (v.oid, d.keyName v.kid)) =
      (xattrTags xattr).map fun t => (t.1, some t.2.1) := by
    rw [eq_comm, ← List.forall₂_eq_eq_eq, List.forall₂_map_left_iff, List.forall₂_map_right_iff]
    exact hstored.imp fun t v hv => by rw [hv.1, hv.2.1]
  have hoid : ∀ v ∈ rows, v.oid ∈ xattr.map Prod.fst := fun v hv => by
    have hmem := List.mem_map_of_mem (f := fun v => (v.oid, d.keyName v.kid)) hv
    rw [hnames] at hmem
    obtain ⟨t, ht, heq⟩ := List.mem_map.mp hmem
    obtain ⟨r, hr, hrt, -⟩ := mem_xattrTags.mp ht
    exact List.mem_map.mpr ⟨r, hr, hrt.trans (Prod.mk.inj heq).1⟩
  have hnew : (rows.map fun v => (v.oid, v.kid)).Nodup := by
    -- different names have different ids
    refine List.Nodup.of_map (fun x => (x.1, d.keyName x.2)) ?_
    rw [List.map_map]
    refine Eq.mpr (congrArg List.Nodup hnames) ?_
    have htags := (nodup_xattrTags hn hkeys).map
      (f := fun x : Oid × Text => (x.1, some x.2)) fun x y hxy => by simpa [Prod.ext_iff] using hxy
    rwa [List.map_map] at htags
  rw [insertAttrVal, if_pos]
  · rfl
  · refine ⟨?_, fun v hv => ?_⟩
    · rw [List.map_append]
      refine hrows.append hnew fun x hx hx' => ?_
      obtain ⟨v, hv, rfl⟩ := List.mem_map.mp hx
      obtain ⟨v', hv', heq⟩ := List.mem_map.mp hx'
      exact hold v hv ((Prod.mk.inj heq).1 ▸ hoid v' hv')
    · obtain ⟨r, hr, hro⟩ := List.mem_map.mp (hoid v hv)
      exact hro ▸ hobj r hr

/-- A batch of attributes is stored if every value has a string. -/
theorem isSome_processXattrs_iff {tr : Transport} (hk : db.KeysOk)
    (hrows : (db.attrVal.map fun v => (v.oid, v.kid)).Nodup)
    (hobj : ∀ r ∈ xattr, db.HasObject r.1) (hn : (xattr.map Prod.fst).Nodup)
    (hkeys : ∀ r ∈ xattr, (r.2.map Prod.fst).Nodup) :
    (processXattrs tr xattr db).isSome ↔ ∀ t ∈ xattrTags xattr, (tr.sval t.2.2).isSome := by
  obtain ⟨hg, -, hout⟩ := populateXattrKeys_spec xattr
    (show (deleteXattrs xattr db).KeysOk from ⟨hk.sorted, hk.below⟩)
  have hvalues := populateKeys_values (xattrTags xattr) (deleteXattrs xattr db)
  rw [← populateXattrKeys_eq] at hvalues
  rw [processXattrs_eq]
  generalize populateXattrKeys xattr (deleteXattrs xattr db) = p at *
  have hsvals : (∀ t ∈ p.1, (attrValRow tr t).isSome) ↔
      ∀ t ∈ xattrTags xattr, (tr.sval t.2.2).isSome := by
    have h := List.forall_mem_map (l := p.1) (f := fun t => t.2.2) (P := fun v => (tr.sval v).isSome)
    rw [hvalues, List.forall_mem_map] at h
    simpa [attrValRow] using h.symm
  rw [← hsvals, ← isSome_mapM_iff]
  cases hmap : p.1.mapM (attrValRow tr) with
  | none => simp
  | some rows =>
      have hstored : List.Forall₂ (Stored tr p.2) (xattrTags xattr) rows :=
        (forall₂_comp hout (forall₂_of_mapM hmap)).imp
          fun t v hv => hv.elim fun y hy => stored_of_attrValRow hy.1 hy.2
      refine iff_of_true (insertAttrVal_of_stored ?_ ?_ ?_ hn hkeys hstored) rfl
      · rw [hg.attrVal]
        exact hrows.sublist (List.filter_sublist.map _)
      · intro v hv
        rw [hg.attrVal] at hv
        exact of_decide_eq_true (List.mem_filter.mp hv).2
      · intro r hr
        rw [Db.HasObject, hg.object]
        exact hobj r hr

/-- The index before the stage: its constraints hold, the objects of the export
are there, and the rows are short enough. -/
structure ReadyFor (xattr : List (Oid × Attrs)) (db : Db) : Prop where
  keys : db.KeysOk
  unique : (db.attrVal.map fun v => (v.oid, v.kid)).Nodup
  objects : ∀ r ∈ xattr, db.HasObject r.1
  fit : RowsFit xattr db

/-- The stored value of a tag, or none where its line is broken. -/
theorem sval_eq (v : Text) : (xattrTransport rval).sval v =
    if v = [] ∨ '\n' ∈ v then none else some (storedSval (double (· = delQuote) v)) := rfl

/-- A value is stored as it is if neither encoding has a character to double. -/
theorem sval_xattrTransport_iff {v : Text} :
    (xattrTransport rval).sval v = some v ↔
      (v ≠ [] ∧ '\n' ∉ v) ∧ delQuote ∉ v ∧ escapeChar ∉ v := by
  have hstored : storedSval (double (· = delQuote) v) = v ↔ delQuote ∉ v ∧ escapeChar ∉ v := by
    by_cases hesc : escapeChar ∈ v
    · refine iff_of_false (fun h => ?_) fun h => h.2 hesc
      have hlen := congrArg List.length h
      rw [storedSval, if_pos (mem_double.mpr hesc)] at hlen
      simp only [List.length_cons, length_double] at hlen
      omega
    · rw [storedSval, if_neg (mt mem_double.mp hesc), double_eq_self_iff]
      exact ⟨fun h => ⟨fun hq => h _ hq rfl, hesc⟩, fun h c hc hq => h.1 (hq ▸ hc)⟩
  rw [← hstored, sval_eq]
  by_cases hv : v = [] ∨ '\n' ∈ v
  · rw [if_pos hv]
    exact iff_of_false (by simp) fun h => hv.elim h.1.1 h.1.2
  · rw [if_neg hv, Option.some_inj, and_iff_right (not_or.mp hv)]

/-- **Which values arrive**: those without double quotes and backslashes, when no
value of the export is empty or has a newline in it. -/
theorem tag_value_survives_iff (h : XattrExport xmlParse xattr) (hdb : ReadyFor xattr db) {o : Oid}
    {attrs : Attrs} (ho : (o, attrs) ∈ xattr) {k v : Text} (hv : (k, v) ∈ attrs) :
    (∃ db', processXattrsFile xmlParse rval (exportXattr xattr) db = some db' ∧
        (some k, some v) ∈ db'.tags o) ↔
      (∀ r ∈ xattr, RecordFits xattrRoom r) ∧
        (∀ t ∈ xattrTags xattr, t.2.2 ≠ [] ∧ '\n' ∉ t.2.2) ∧ delQuote ∉ v ∧ escapeChar ∉ v := by
  have hsome : (processXattrs (xattrTransport rval) xattr db).isSome ↔
      ∀ t ∈ xattrTags xattr, ((xattrTransport rval).sval t.2.2).isSome :=
    isSome_processXattrs_iff hdb.keys hdb.unique hdb.objects h.objects h.keys
  have hstring : ∀ u : Text, ((xattrTransport rval).sval u).isSome ↔ u ≠ [] ∧ '\n' ∉ u := fun u => by
    rw [sval_eq]
    by_cases hu : u = [] ∨ '\n' ∈ u
    · simp [hu, ← not_or]
    · simp [hu, ← not_or]
  have htag : (o, k, v) ∈ xattrTags xattr := mem_xattrTags.mpr ⟨_, ho, rfl, hv⟩
  simp only [hstring] at hsome
  rw [processXattrsFile_exportXattr h hdb.fit]
  by_cases hfits : ∀ r ∈ xattr, RecordFits xattrRoom r
  · rw [if_pos hfits, and_iff_right hfits]
    constructor
    · rintro ⟨db', hdb', hmem⟩
      obtain ⟨-, -, -, -, htags, -⟩ := processXattrs_spec hdb' hdb.keys h.objects
      rw [htags _ ho] at hmem
      obtain ⟨a, ha, hak⟩ := List.mem_map.mp hmem
      obtain ⟨hkey, hval⟩ := Prod.mk.inj hak
      obtain rfl := List.inj_on_of_nodup_map (h.keys _ ho) ha hv (Option.some.inj hkey)
      exact ⟨hsome.mp (Option.isSome_of_eq_some hdb'), (sval_xattrTransport_iff.mp hval).2⟩
    · rintro ⟨hall, hclean⟩
      obtain ⟨db', hdb'⟩ := Option.isSome_iff_exists.mp (hsome.mpr hall)
      refine ⟨db', hdb', ?_⟩
      obtain ⟨-, -, -, -, htags, -⟩ := processXattrs_spec hdb' hdb.keys h.objects
      have hval : (xattrTransport rval).sval v = some v :=
        sval_xattrTransport_iff.mpr ⟨hall _ htag, hclean⟩
      rw [htags _ ho]
      exact List.mem_map.mpr ⟨_, hv, by rw [hval]⟩
  · rw [if_neg hfits]
    refine iff_of_false ?_ fun hall => hfits hall.1
    rintro ⟨_, hdb', _⟩
    contradiction

end Export

/-- A parser that reads one document. -/
def readsOnly (attrs : Attrs) (t : Text) : Option XmlNode :=
  if t = xmlText attrs then some (xmlTree attrs) else none

theorem xmlReads_readsOnly (attrs : Attrs) : XmlReads (readsOnly attrs) attrs where
  whole := if_pos rfl
  cut _ _ hne := if_neg hne

/-- An export of one object with one attribute. -/
def colorXattr (v : String) : List (Oid × Attrs) := [(.of 10, [("color".toList, v.toList)])]

/-- An object with one tag is an export. -/
theorem xattrExport_colorXattr (v : String) :
    XattrExport (readsOnly (delAttrs [("color".toList, v.toList)])) (colorXattr v) where
  objects := by simp [colorXattr]
  keys := by simp [colorXattr]
  nonempty := by simp [colorXattr]
  names := by
    simp only [colorXattr, List.mem_singleton, forall_eq, XmlNames]
    decide
  reads := by
    simp only [colorXattr, List.mem_singleton, forall_eq]
    exact xmlReads_readsOnly _

/-- A tag that fits the line can be stored. -/
theorem readyFor_colorXattr {v : String}
    (h : (attrValLine 10 1 (pqEscapeLiteral (double (· = delQuote) v.toList))).length < lineMax) :
    ReadyFor (colorXattr v) (tenDb true) where
  keys := ⟨List.Pairwise.nil, fun _ hk => absurd hk List.not_mem_nil⟩
  unique := List.Pairwise.nil
  objects := by
    simp only [colorXattr, List.mem_singleton, forall_eq]
    decide
  fit t ht := by
    obtain rfl : t = (Oid.of 10, 1, v.toList) := List.mem_singleton.mp ht
    exact h

/-- The tag `color` with the value `red`. -/
theorem tag_value_survives_iff_colorXattr :
    ∃ db', processXattrsFile (readsOnly (delAttrs [("color".toList, "red".toList)])) (fun _ => none)
        (exportXattr (colorXattr "red")) (tenDb true) = some db' ∧
      (some "color".toList, some "red".toList) ∈ db'.tags (.of 10) := by
  refine (tag_value_survives_iff (xattrExport_colorXattr "red") (readyFor_colorXattr ?_)
    (List.mem_singleton.mpr rfl) (List.mem_singleton.mpr rfl)).mpr ⟨?_, ?_, ?_, ?_⟩
  all_goals decide +kernel

/-- **A value with a double quote in it** is stored with two. -/
theorem quoted_value_doubled :
    XattrExport (readsOnly (delAttrs [("color".toList, "a\"b".toList)])) (colorXattr "a\"b") ∧
      ReadyFor (colorXattr "a\"b") (tenDb true) ∧
      ¬ ∃ db', processXattrsFile (readsOnly (delAttrs [("color".toList, "a\"b".toList)]))
          (fun _ => none) (exportXattr (colorXattr "a\"b")) (tenDb true) = some db' ∧
        (some "color".toList, some "a\"b".toList) ∈ db'.tags (.of 10) := by
  refine ⟨xattrExport_colorXattr _, readyFor_colorXattr (by decide +kernel), ?_⟩
  rintro ⟨db', hdb', hmem⟩
  have htags : (processXattrsFile (readsOnly (delAttrs [("color".toList, "a\"b".toList)]))
      (fun _ => none) (exportXattr (colorXattr "a\"b")) (tenDb true)).map
        (fun db => db.tags (.of 10)) = some [(some "color".toList, some "a\"\"b".toList)] := by
    decide +kernel
  rw [hdb', Option.map_some, Option.some_inj] at htags
  rw [htags] at hmem
  exact absurd hmem (by decide)

/-- An empty value ends the stage. -/
example : processXattrsFile (readsOnly (delAttrs [("color".toList, [])])) (fun _ => none)
    (exportXattr (colorXattr "")) (tenDb true) = none := by
  decide +kernel

end Hpssix
