import Hpssix.Base.CText
import Hpssix.Base.Rel
import Hpssix.Schema

/-!
# Hpssix.KeyDictionary

The dictionary of attribute keys (`hpssix_db_populate_xattr_keys` in
`libhpssix/src/hpssix-db.c` and the function `hpssix_attr_key_pop` of the schema):
every tag of every batch gets the id of its key, which is entered if it is new.

The identity column draws its ids from a supply of distinct positive values; the
counter of `Schema` is one (`pop_attrKeyPop`).  An id travels as text: the column
is printed in decimal and read by `strtoul`.

* `key_dictionary_bijection` — over any sequence of batches ids and keys
  correspond: every tag carries the id of the row of its key, and a row once entered
  stays.
-/

namespace Hpssix

open CText Rel

/-! ## the tables -/

/-- `hpssix_tag_t`, without the number that the C code does not fill in. -/
structure XattrTag where
  kid : UInt64 := 0
  key : Text
  val : Option Text := none
deriving DecidableEq

/-- `hpssix_xattr_t`. -/
structure Xattr where
  oid : UInt64
  tags : List XattrTag
deriving DecidableEq

/-- The table `hpssix_attr_key`, and the values that its identity column has yet to
yield. -/
structure KeyTable where
  rows : List AttrKeyRow := []
  supply : List Nat
deriving DecidableEq

/-- `hpssix_attr_key_pop`; it fails when the identity column is used up. -/
def KeyTable.pop (name : Text) (s : KeyTable) : Option (Nat × KeyTable) :=
  match s.rows.find? fun k => k.name = name with
  | some k => some (k.kid, s)
  | none =>
    match s.supply with
    | [] => none
    | id :: supply => some (id, { rows := s.rows ++ [⟨id, name⟩], supply })

/-! ## the operation -/

/-- The body of the inner loop: the id comes back as text. -/
def populateTag (tag : XattrTag) (s : KeyTable) : Option (XattrTag × KeyTable) := do
  let (id, s) ← s.pop tag.key
  pure ({ tag with kid := UInt64.ofNat (strtoull (decimal id)) }, s)

/-- The inner loop. -/
def populateXattr (x : Xattr) (s : KeyTable) : Option (Xattr × KeyTable) := do
  let (tags, s) ← collectM populateTag x.tags s
  pure ({ x with tags }, s)

/-- `hpssix_db_populate_xattr_keys`; `none` if a query fails. -/
def dbPopulateXattrKeys (xattrs : List Xattr) (s : KeyTable) : Option (List Xattr × KeyTable) :=
  collectM populateXattr xattrs s

/-- A sequence of calls. -/
def populateBatches (batches : List (List Xattr)) (s : KeyTable) :
    Option (List (List Xattr) × KeyTable) :=
  collectM dbPopulateXattrKeys batches s

/-- The function of the schema draws from a counter. -/
theorem pop_attrKeyPop (name : Text) (db : Db) (n : Nat) :
    ∃ m, KeyTable.pop name ⟨db.attrKey, List.range' db.nextKid (n + 1)⟩ =
      some ((attrKeyPop name db).1,
        ⟨(attrKeyPop name db).2.attrKey, List.range' (attrKeyPop name db).2.nextKid m⟩) := by
  unfold KeyTable.pop attrKeyPop
  cases db.attrKey.find? fun k => k.name = name with
  | some k => exact ⟨n + 1, rfl⟩
  | none => exact ⟨n, rfl⟩

/-! ## what a call does -/

/-- Ids are distinct, in the table and still to come, and positive `BIGINT`s; names are
distinct. -/
structure KeyTable.Ok (s : KeyTable) : Prop where
  ids : (s.rows.map AttrKeyRow.kid ++ s.supply).Nodup
  range : ∀ id ∈ s.rows.map AttrKeyRow.kid ++ s.supply, 0 < id ∧ id < 2 ^ 63
  names : (s.rows.map AttrKeyRow.name).Nodup

/-- Rows were added at the end, for some of these keys. -/
structure KeysAdded (keys : List Text) (s t : KeyTable) : Prop where
  rows : s.rows <+: t.rows
  added : ∀ r ∈ t.rows, r ∈ s.rows ∨ r.name ∈ keys

/-- No key is added by no call. -/
theorem KeysAdded.refl (s : KeyTable) : KeysAdded [] s s := ⟨List.prefix_rfl, fun _ => .inl⟩

/-- Calls one after the other add the keys of both. -/
theorem KeysAdded.trans {keys keys' : List Text} {s t u : KeyTable} (h : KeysAdded keys s t)
    (h' : KeysAdded keys' t u) : KeysAdded (keys ++ keys') s u where
  rows := h.rows.trans h'.rows
  added := by
    intro r hr
    obtain hr | hr := h'.added r hr
    · exact (h.added r hr).imp_right (List.mem_append_left keys')
    · exact .inr (List.mem_append_right keys hr)

/-- The tag has the id that the table has for its key. -/
structure TagKeyed (s : KeyTable) (tag tag' : XattrTag) : Prop where
  key : tag'.key = tag.key
  val : tag'.val = tag.val
  row : ⟨tag'.kid.toNat, tag.key⟩ ∈ s.rows

/-- All tags of an object have. -/
def XattrKeyed (s : KeyTable) (x x' : Xattr) : Prop :=
  x'.oid = x.oid ∧ List.Forall₂ (TagKeyed s) x.tags x'.tags

/-- A tag keeps its key in a table that grows. -/
theorem TagKeyed.mono {keys : List Text} {s t : KeyTable} {tag tag' : XattrTag}
    (hgrow : KeysAdded keys s t) (h : TagKeyed s tag tag') : TagKeyed t tag tag' :=
  { h with row := hgrow.rows.subset h.row }

/-- So do the tags of an object. -/
theorem XattrKeyed.mono {keys : List Text} {s t : KeyTable} {x x' : Xattr}
    (hgrow : KeysAdded keys s t) (h : XattrKeyed s x x') : XattrKeyed t x x' :=
  ⟨h.1, h.2.imp fun _ _ => TagKeyed.mono hgrow⟩

section Spec
variable {s t : KeyTable}

/-- **Get or create**: the id belongs to the name. -/
theorem pop_spec (hs : s.Ok) {name : Text} {id : Nat} (h : s.pop name = some (id, t)) :
    KeysAdded [name] s t ∧ t.Ok ∧ ⟨id, name⟩ ∈ t.rows := by
  unfold KeyTable.pop at h
  cases hf : s.rows.find? fun k => k.name = name with
  | some k =>
      rw [hf] at h
      obtain ⟨rfl, rfl⟩ : k.kid = id ∧ s = t := by simpa using h
      have hname : k.name = name := by simpa using List.find?_some hf
      exact ⟨⟨List.prefix_rfl, fun _ => .inl⟩, hs, hname ▸ List.mem_of_find?_eq_some hf⟩
  | none =>
      have hnew : name ∉ s.rows.map AttrKeyRow.name := by
        intro hmem
        obtain ⟨k, hk, hname⟩ := List.mem_map.mp hmem
        simpa [hname] using List.find?_eq_none.mp hf k hk
      cases hsupply : s.supply with
      | nil => simp [hf, hsupply] at h
      | cons next supply =>
          simp only [hf, hsupply, Option.some.injEq, Prod.mk.injEq] at h
          obtain ⟨rfl, rfl⟩ := h
          -- the id moves from the supply to the end of the table
          have hmoved : (s.rows ++ [(⟨next, name⟩ : AttrKeyRow)]).map AttrKeyRow.kid ++ supply =
              s.rows.map AttrKeyRow.kid ++ s.supply := by
            rw [hsupply, List.map_append, List.append_assoc]
            rfl
          refine ⟨⟨List.prefix_append .., fun r hr => ?_⟩, ⟨?_, ?_, ?_⟩, by simp⟩
          · exact (List.mem_append.mp hr).imp_right fun hr => by simp [List.mem_singleton.mp hr]
          · exact hmoved ▸ hs.ids
          · exact hmoved ▸ hs.range
          · rw [List.map_append, List.nodup_append]
            refine ⟨hs.names, List.nodup_singleton _, fun a ha b hb hab => hnew ?_⟩
            obtain rfl : b = name := List.mem_singleton.mp hb
            exact hab ▸ ha

/-- Ids are positive, and fit a `BIGINT`. -/
theorem KeyTable.Ok.mem_range (hs : s.Ok) {r : AttrKeyRow} (hr : r ∈ s.rows) :
    0 < r.kid ∧ r.kid < 2 ^ 63 :=
  hs.range r.kid (List.mem_append_left _ (List.mem_map_of_mem hr))

/-- One tag gets the id of its key. -/
theorem populateTag_spec (hs : s.Ok) {tag tag' : XattrTag} (h : populateTag tag s = some (tag', t)) :
    KeysAdded [tag.key] s t ∧ t.Ok ∧ TagKeyed t tag tag' := by
  simp only [populateTag, Option.bind_eq_bind, Option.bind_eq_some_iff, Option.pure_def,
    Option.some.injEq, Prod.mk.injEq] at h
  obtain ⟨⟨id, t'⟩, hpop, rfl, rfl⟩ := h
  obtain ⟨hadded, hok, hrow⟩ := pop_spec hs hpop
  have hid : id < 2 ^ 64 := Nat.lt_trans (hok.mem_range hrow).2 (by decide)
  have hkid : (UInt64.ofNat (strtoull (decimal id))).toNat = id := by
    rw [strtoull_decimal_nil hid]
    exact UInt64.toNat_ofNat_of_lt hid
  exact ⟨hadded, hok, rfl, rfl, by simpa only [hkid] using hrow⟩

/-- So does every tag of an object. -/
theorem populateXattr_spec (hs : s.Ok) {x x' : Xattr} (h : populateXattr x s = some (x', t)) :
    KeysAdded (x.tags.flatMap fun tag => [tag.key]) s t ∧ t.Ok ∧ XattrKeyed t x x' := by
  simp only [populateXattr, Option.bind_eq_bind, Option.bind_eq_some_iff, Option.pure_def,
    Option.some.injEq, Prod.mk.injEq] at h
  obtain ⟨⟨tags, t'⟩, htags, rfl, rfl⟩ := h
  have hspec := @collectM_spec _ _ _ _ populateTag (fun tag => [tag.key]) KeyTable.Ok KeysAdded
    TagKeyed KeysAdded.refl KeysAdded.trans TagKeyed.mono fun hs h => populateTag_spec hs h
  obtain ⟨hadded, hok, hkeyed⟩ := hspec hs htags
  exact ⟨hadded, hok, rfl, hkeyed⟩

/-- Every tag of a call gets the id of its key. -/
theorem dbPopulateXattrKeys_spec (hs : s.Ok) {xattrs xattrs' : List Xattr}
    (h : dbPopulateXattrKeys xattrs s = some (xattrs', t)) :
    KeysAdded (xattrs.flatMap fun x => x.tags.flatMap fun tag => [tag.key]) s t ∧ t.Ok ∧
      List.Forall₂ (XattrKeyed t) xattrs xattrs' :=
  @collectM_spec _ _ _ _ populateXattr (fun x => x.tags.flatMap fun tag => [tag.key]) KeyTable.Ok
    KeysAdded XattrKeyed KeysAdded.refl KeysAdded.trans XattrKeyed.mono
    (fun hs h => populateXattr_spec hs h) _ _ _ _ hs h

/-- Every tag of a history gets the id of its key. -/
theorem populateBatches_spec (hs : s.Ok) {batches out : List (List Xattr)}
    (h : populateBatches batches s = some (out, t)) :
    KeysAdded (batches.flatMap fun b => b.flatMap fun x => x.tags.flatMap fun tag => [tag.key]) s t ∧
      t.Ok ∧ List.Forall₂ (List.Forall₂ (XattrKeyed t)) batches out :=
  @collectM_spec _ _ _ _ dbPopulateXattrKeys
    (fun b => b.flatMap fun x => x.tags.flatMap fun tag => [tag.key]) KeyTable.Ok KeysAdded
    (fun t => List.Forall₂ (XattrKeyed t)) KeysAdded.refl KeysAdded.trans
    (fun hgrow h => h.imp fun _ _ => XattrKeyed.mono hgrow)
    (fun hs h => dbPopulateXattrKeys_spec hs h) _ _ _ _ hs h

/-- The table has one id for a key, and one key for an id. -/
theorem TagKeyed.kid_eq_iff (ht : t.Ok) {tag tag' tag₁ tag₁' : XattrTag} (h : TagKeyed t tag tag')
    (h₁ : TagKeyed t tag₁ tag₁') : tag'.kid = tag₁'.kid ↔ tag'.key = tag₁'.key := by
  rw [h.key, h₁.key]
  constructor
  · intro hkid
    have hids : (t.rows.map AttrKeyRow.kid).Nodup := (List.nodup_append.mp ht.ids).1
    have hrow := List.inj_on_of_nodup_map hids h.row h₁.row (congrArg UInt64.toNat hkid)
    exact congrArg AttrKeyRow.name hrow
  · intro hkey
    have hrow := List.inj_on_of_nodup_map ht.names h.row h₁.row hkey
    exact UInt64.toNat_inj.mp (congrArg AttrKeyRow.kid hrow)

end Spec

/-! ## a history -/

/-- The tags of a history, one after the other. -/
def allTags (batches : List (List Xattr)) : List XattrTag := batches.flatten.flatMap Xattr.tags

/-- **The dictionary is a stable bijection**: after any sequence of calls that
succeed, on an empty table whose identity column yields distinct positive ids,
every tag carries the id of the row that the table has for its key, two tags of the
whole history carry the same id exactly if their keys are equal, the table has one
row for each key seen, and the rows that it had after an earlier call are still
there, as they were. -/
theorem key_dictionary_bijection {supply : List Nat} (hdistinct : supply.Nodup)
    (hrange : ∀ id ∈ supply, 0 < id ∧ id < 2 ^ 63) {batches out : List (List Xattr)} {t : KeyTable}
    (hrun : populateBatches batches { supply } = some (out, t)) :
    (allTags out).map (fun tag => (tag.key, tag.val)) =
        (allTags batches).map (fun tag => (tag.key, tag.val)) ∧
      (∀ tag ∈ allTags out, tag.kid ≠ 0 ∧ ⟨tag.kid.toNat, tag.key⟩ ∈ t.rows) ∧
      (∀ tag ∈ allTags out, ∀ tag' ∈ allTags out, tag.kid = tag'.kid ↔ tag.key = tag'.key) ∧
      (t.rows.map AttrKeyRow.name).Nodup ∧
      (∀ name, name ∈ t.rows.map AttrKeyRow.name ↔ ∃ tag ∈ allTags batches, tag.key = name) ∧
      ∀ n, ∃ s, populateBatches (batches.take n) { supply } = some (out.take n, s) ∧
        s.rows <+: t.rows := by
  have hok : KeyTable.Ok { supply } := ⟨hdistinct, hrange, List.nodup_nil⟩
  obtain ⟨hadded, ht, hbatches⟩ := populateBatches_spec hok hrun
  have htags : List.Forall₂ (TagKeyed t) (allTags batches) (allTags out) :=
    List.rel_flatMap (List.rel_flatten hbatches) fun _ _ hx => hx.2
  have hrow : ∀ tag' ∈ allTags out, ∃ tag ∈ allTags batches, TagKeyed t tag tag' :=
    fun tag' hmem => exists_of_forall₂_right htags hmem
  refine ⟨?_, ?_, ?_, ht.names, fun name => ⟨?_, ?_⟩, fun n => ?_⟩
  · rw [← List.forall₂_eq_eq_eq, List.forall₂_map_left_iff, List.forall₂_map_right_iff]
    exact htags.flip.imp fun _ _ h => by rw [h.key, h.val]
  · intro tag' hmem
    obtain ⟨tag, _, h⟩ := hrow tag' hmem
    refine ⟨fun h0 => ?_, h.key ▸ h.row⟩
    have := (ht.mem_range h.row).1
    simp [h0] at this
  · intro tag' hmem tag₁' hmem₁
    obtain ⟨tag, _, h⟩ := hrow tag' hmem
    obtain ⟨tag₁, _, h₁⟩ := hrow tag₁' hmem₁
    exact h.kid_eq_iff ht h₁
  · intro hname
    obtain ⟨r, hr, rfl⟩ := List.mem_map.mp hname
    obtain hr | hkey := hadded.added r hr
    · contradiction
    · simp only [List.mem_flatMap, List.mem_singleton] at hkey
      obtain ⟨b, hb, x, hx, tag, htag, hkey⟩ := hkey
      exact ⟨tag, List.mem_flatMap.mpr ⟨x, List.mem_flatten.mpr ⟨b, hb, hx⟩, htag⟩, hkey.symm⟩
  · rintro ⟨tag, hmem, rfl⟩
    obtain ⟨tag', _, h⟩ := exists_of_forall₂_left htags hmem
    exact List.mem_map_of_mem h.row
  · obtain ⟨s, hfirst, hrest⟩ := collectM_take hrun n
    exact ⟨s, hfirst, (populateBatches_spec (populateBatches_spec hok hfirst).2.1 hrest).1.rows⟩

/-- Two batches that share a key. -/
def twoBatches (kid kid' kid'' : UInt64) : List (List Xattr) :=
  [[⟨7, [{ kid, key := ['a'] }, { kid := kid', key := ['b'] }]⟩],
    [⟨8, [{ kid := kid'', key := ['b'] }]⟩]]

/-- The key of both batches keeps the number that it got in the first. -/
theorem key_dictionary_bijection_two :
    (allTags (twoBatches 3 9 9)).map (fun tag => (tag.key, tag.val)) =
        (allTags (twoBatches 0 0 0)).map (fun tag => (tag.key, tag.val)) ∧
      (∀ tag ∈ allTags (twoBatches 3 9 9), tag.kid ≠ 0 ∧
        ⟨tag.kid.toNat, tag.key⟩ ∈ [(⟨3, ['a']⟩ : AttrKeyRow), ⟨9, ['b']⟩]) ∧
      (∀ tag ∈ allTags (twoBatches 3 9 9), ∀ tag' ∈ allTags (twoBatches 3 9 9),
        tag.kid = tag'.kid ↔ tag.key = tag'.key) ∧
      ([⟨3, ['a']⟩, ⟨9, ['b']⟩].map AttrKeyRow.name).Nodup ∧
      (∀ name, name ∈ [⟨3, ['a']⟩, ⟨9, ['b']⟩].map AttrKeyRow.name ↔
        ∃ tag ∈ allTags (twoBatches 0 0 0), tag.key = name) ∧
      ∀ n, ∃ s, populateBatches ((twoBatches 0 0 0).take n) { supply := [3, 9, 4] } =
          some ((twoBatches 3 9 9).take n, s) ∧ s.rows <+: [⟨3, ['a']⟩, ⟨9, ['b']⟩] :=
  @key_dictionary_bijection [3, 9, 4] (by decide) (by decide) (twoBatches 0 0 0) (twoBatches 3 9 9)
    ⟨[⟨3, ['a']⟩, ⟨9, ['b']⟩], [4]⟩ rfl

end Hpssix
