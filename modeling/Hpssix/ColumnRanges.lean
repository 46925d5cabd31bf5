import Hpssix.Builder

/-!
# Hpssix.ColumnRanges

Which scanned records `hpssix_object` can hold.  The builder reads a record into
64-bit and unsigned 32-bit numbers and prints them as they are; all columns but
the object id are `INTEGER`, which ends at 2³¹ - 1.

* `storable_iff` — a record is stored, and spoils no batch, exactly if its link
  count, owner, size and times are below 2³¹;
* `large_file_not_storable` — a file of 3 GiB is not.
-/

namespace Hpssix

open Rel

/-! ## the columns -/

/-- The thirteen values are in the ranges of their columns. -/
structure ColumnsFit (sb : Stat) : Prop where
  oid : sb.stIno.toNat < 2 ^ 63
  stDev : sb.stDev.toNat < 2 ^ 31
  stMode : sb.stMode.toNat < 2 ^ 31
  stNlink : sb.stNlink.toNat < 2 ^ 31
  stUid : sb.stUid.toNat < 2 ^ 31
  stGid : sb.stGid.toNat < 2 ^ 31
  stRdev : sb.stRdev.toNat < 2 ^ 31
  stSize : sb.stSize.toNat < 2 ^ 31
  stBlksize : sb.stBlksize.toNat < 2 ^ 31
  stBlocks : sb.stBlocks.toNat < 2 ^ 31
  stAtime : sb.stAtime.toNat < 2 ^ 31
  stMtime : sb.stMtime.toNat < 2 ^ 31
  stCtime : sb.stCtime.toNat < 2 ^ 31

theorem isSome_int4_bind {α : Type} {n : Nat} {f : Nat → Option α} :
    (int4 n >>= f).isSome ↔ n < 2 ^ 31 ∧ (f n).isSome := by
  unfold int4
  by_cases h : n < 2 ^ 31
  · rw [if_pos h, Option.bind_eq_bind, Option.bind_some, and_iff_right h]
  · rw [if_neg h, Option.bind_eq_bind, Option.bind_none]
    exact iff_of_false Bool.false_ne_true fun hn => h hn.1

theorem isSome_int8_bind {α : Type} {n : Nat} {f : Oid → Option α} :
    (int8 n >>= f).isSome ↔ ∃ h : n < 2 ^ 63, (f ⟨n, h⟩).isSome := by
  unfold int8
  by_cases h : n < 2 ^ 63
  · rw [dif_pos h, Option.bind_eq_bind, Option.bind_some, exists_prop_of_true h]
  · rw [dif_neg h, Option.bind_eq_bind, Option.bind_none]
    exact iff_of_false Bool.false_ne_true fun hn => h hn.1

/-- `COPY` accepts a line exactly if every value is in its range. -/
theorem isSome_copyObject_iff (sb : Stat) : (copyObject sb).isSome ↔ ColumnsFit sb := by
  unfold copyObject
  rw [isSome_int8_bind]
  constructor
  · rintro ⟨h, hcols⟩
    iterate 12 rw [isSome_int4_bind] at hcols
    obtain ⟨h₁, h₂, h₃, h₄, h₅, h₆, h₇, h₈, h₉, h₁₀, h₁₁, h₁₂, -⟩ := hcols
    exact ⟨h, h₁, h₂, h₃, h₄, h₅, h₆, h₇, h₈, h₉, h₁₀, h₁₁, h₁₂⟩
  · rintro ⟨h, h₁, h₂, h₃, h₄, h₅, h₆, h₇, h₈, h₉, h₁₀, h₁₁, h₁₂⟩
    refine ⟨h, ?_⟩
    iterate 12 rw [isSome_int4_bind]
    exact ⟨h₁, h₂, h₃, h₄, h₅, h₆, h₇, h₈, h₉, h₁₀, h₁₁, h₁₂, rfl⟩

/-- The values that a record brings into `INTEGER` columns are below 2³¹. -/
structure FattrRecord.Fits (r : FattrRecord) : Prop where
  nlink : r.nlink.toNat < 2 ^ 31
  uid : r.uid.toNat < 2 ^ 31
  gid : r.gid.toNat < 2 ^ 31
  size : r.size.toNat < 2 ^ 31
  atime : r.atime.toNat < 2 ^ 31
  mtime : r.mtime.toNat < 2 ^ 31
  ctime : r.ctime.toNat < 2 ^ 31

theorem toNat_ceiling {size : UInt64} (h : size.toNat < 2 ^ 31) :
    (ceiling size 512).toNat = (size.toNat + 511) / 512 := by
  simp [ceiling, UInt64.toNat_div, UInt64.toNat_sub, UInt64.toNat_add]
  omega

/-- What the builder derives and adds (mode, block count, constants) always fits. -/
theorem columnsFit_iff (r : FattrRecord) : ColumnsFit (builderParseFattr r) ↔ r.Fits := by
  constructor
  · intro h
    exact ⟨h.stNlink, h.stUid, h.stGid, h.stSize, h.stAtime, h.stMtime, h.stCtime⟩
  · intro h
    have hino : (UInt64.ofNat r.objid.val).toNat = r.objid.val :=
      UInt64.toNat_ofNat_of_lt' (r.objid.isLt.trans (by decide))
    have hmode : (getStMode r.type r.uperm r.gperm r.operm).toNat < 2 ^ 31 := by
      obtain ⟨perm, hperm, heq⟩ := getStMode_eq r.type r.uperm r.gperm r.operm
      rw [heq]
      refine Nat.or_lt_two_pow ?_ (hperm.trans (by decide))
      unfold stFmt
      split_ifs <;> decide
    have hblocks : (ceiling r.size 512).toNat < 2 ^ 31 := by
      have hsize := h.size
      rw [toNat_ceiling hsize]
      omega
    have hconst : (44 : UInt64).toNat < 2 ^ 31 ∧ (0 : UInt64).toNat < 2 ^ 31 ∧
        (512 : UInt64).toNat < 2 ^ 31 := by decide
    exact ⟨hino.symm ▸ r.objid.isLt, hconst.1, hmode, h.nlink, h.uid, h.gid, hconst.2.1, h.size,
      hconst.2.2, hblocks, h.atime, h.mtime, h.ctime⟩

/-! ## records and batches -/

/-- A record that can be stored: its values fit, and no batch that succeeds
without it fails because of it. -/
structure FattrRecord.Storable (r : FattrRecord) : Prop where
  columns : ColumnsFit (builderParseFattr r)
  batch : ∀ (pre post : List FattrRecord) (db : Db), (db.object.map (·.oid)).Nodup →
    ((pre ++ r :: post).map FattrRecord.objid).Nodup →
    (processFattr (pre ++ post) db).isSome → (processFattr (pre ++ r :: post) db).isSome

/-- The first stage succeeds exactly if every record fits. -/
theorem isSome_processFattr_iff {fattr : List FattrRecord} {db : Db}
    (hkey : (db.object.map (·.oid)).Nodup) (hdist : (fattr.map FattrRecord.objid).Nodup) :
    (processFattr fattr db).isSome ↔ ∀ r ∈ fattr, r.Fits := by
  have hfit : ∀ r, (fattrCols r).isSome ↔ r.Fits := fun r => by
    rw [fattrCols, isSome_copyObject_iff, columnsFit_iff]
  have hall : (fattr.mapM fattrCols).isSome ↔ ∀ r ∈ fattr, r.Fits := by
    rw [isSome_mapM_iff]
    simp only [hfit]
  rw [← hall]
  cases hcols : fattr.mapM fattrCols with
  | none => simp [processFattr, hcols]
  | some cols =>
      have hn : (cols.map ObjectCols.oid).Nodup := map_of_mapM hcols oid_of_fattrCols ▸ hdist
      have hunique : ((upsert (fun r : ObjectRow => r.oid) ObjectCols.oid fattrUpdate fattrInsert cols
          db.object).map (·.oid)).Nodup := by
        refine nodup_upsert ?_ ?_ hn hkey
        · exact fun _ _ => rfl
        · exact fun _ => rfl
      simp [processFattr, hcols, fattrFini, hunique]

/-- **Storable records**: the values that a record brings into `INTEGER` columns
decide. -/
theorem storable_iff (r : FattrRecord) : r.Storable ↔ r.Fits := by
  constructor
  · intro h
    exact (columnsFit_iff r).mp h.columns
  · intro h
    refine ⟨(columnsFit_iff r).mpr h, fun pre post db hkey hdist hrest => ?_⟩
    have hdist' : ((pre ++ post).map FattrRecord.objid).Nodup :=
      hdist.sublist (((List.sublist_cons_self r post).append_left pre).map _)
    rw [isSome_processFattr_iff hkey hdist'] at hrest
    rw [isSome_processFattr_iff hkey hdist]
    intro x hx
    simp only [List.mem_append, List.mem_cons] at hx hrest
    obtain hx | rfl | hx := hx
    · exact hrest x (.inl hx)
    · exact h
    · exact hrest x (.inr hx)

/-- What the scan can export: a size that is a `BIGINT`, bytes, and 32-bit link
counts and times. -/
structure FattrRecord.Exported (r : FattrRecord) : Prop where
  size : r.size.toNat < 2 ^ 63
  bytes : r.type < 256 ∧ r.uperm < 256 ∧ r.gperm < 256 ∧ r.operm < 256
  nlink : r.nlink.toNat < 2 ^ 32
  times : r.atime.toNat < 2 ^ 32 ∧ r.mtime.toNat < 2 ^ 32 ∧ r.ctime.toNat < 2 ^ 32

/-- A file of 3 GiB cannot be stored. -/
theorem large_file_not_storable : ¬ ∀ r : FattrRecord, r.Exported → r.Storable := by
  intro h
  have hlarge := h { fileTen with size := 3221225472 }
    ⟨by decide, by decide, by decide, by decide⟩
  exact absurd hlarge.columns.stSize (by decide)

end Hpssix
