import Mathlib.Data.Nat.Bitwise
import Hpssix.Builder
import Hpssix.SearchCond

/-!
# Hpssix.FattrSearch

The query that `hpssix-search` generates for its conditions on file attributes
(`utils/hpssix-search/src/hpssix-search-fattr.c` and `fattr_get_sql`), and which
objects it selects.

* `fileTypeFilters_iff` — the two file type filters ask for a bit of the mode,
  and a symbolic link has the bit of a regular file.
-/

namespace Hpssix

open CText

/-! ## conditions -/

/-- `COND_ARG_INODE` to `COND_ARG_CTIME`. -/
inductive CondArg where
  | inode
  | mode
  | uid
  | gid
  | size
  | atime
  | mtime
  | ctime
deriving DecidableEq

/-- All of them, in order. -/
def CondArg.all : List CondArg := [.inode, .mode, .uid, .gid, .size, .atime, .mtime, .ctime]

/-- `fstr`. -/
def fstr : CondArg → Text
  | .inode => "oid".toList
  | .mode => "st_mode".toList
  | .uid => "st_uid".toList
  | .gid => "st_gid".toList
  | .size => "st_size".toList
  | .atime => "st_atime".toList
  | .mtime => "st_mtime".toList
  | .ctime => "st_ctime".toList

/-- The column of that name. -/
def ObjectRow.column (r : ObjectRow) : CondArg → Nat
  | .inode => r.oid.val
  | .mode => r.stMode
  | .uid => r.stUid
  | .gid => r.stGid
  | .size => r.stSize
  | .atime => r.stAtime
  | .mtime => r.stMtime
  | .ctime => r.stCtime

/-- `HPSSIX_OP_EQ` to `HPSSIX_OP_BITAND`. -/
inductive FattrOp where
  | cmp (c : Cmp)
  | between
  | bitand
deriving DecidableEq

/-- `hpssix_search_fattr_cond_t`, stored under its `attr`. -/
structure FattrCond where
  op : FattrOp
  val1 : UInt64
  val2 : UInt64 := 0
deriving DecidableEq

/-- `cond_dir_mode`: `S_IFDIR`. -/
def condDirMode : FattrCond := { op := .bitand, val1 := 0o040000 }

/-- `cond_file_mode`: `S_IFREG`. -/
def condFileMode : FattrCond := { op := .bitand, val1 := 0o100000 }

/-- The options that `fattr_get_sql` looks at; `cond` are the conditions that are
read from the command line. -/
structure FattrOptions where
  cond : CondArg → Option FattrCond := fun _ => none
  directoryOnly : Bool := false
  fileOnly : Bool := false
  removed : Bool := false

/-- The conditions of the query; none if a file type is asked for next to a
condition on the mode. -/
def FattrOptions.conds (o : FattrOptions) : Option (CondArg → Option FattrCond) :=
  if o.directoryOnly || o.fileOnly then
    if (o.cond .mode).isSome then none
    else if o.directoryOnly then some (Function.update o.cond .mode (some condDirMode))
    else some (Function.update o.cond .mode (some condFileMode))
  else some o.cond

/-! ## the query -/

/-- A condition as `get_sql_fattr` prints it. -/
def FattrCond.sql (c : FattrCond) (a : CondArg) : Text :=
  match c.op with
  | .between =>
    " AND ".toList ++ fstr a ++ " BETWEEN ".toList ++ decimal c.val1.toNat ++ " AND ".toList ++
      decimal c.val2.toNat
  | .bitand => " AND ".toList ++ fstr a ++ " & ".toList ++ decimal c.val1.toNat ++ " > 0".toList
  | .cmp op =>
    " AND ".toList ++ fstr a ++ " ".toList ++ opstr op ++ " ".toList ++ decimal c.val1.toNat

/-- What it says about a value; `&` binds tighter than `>`. -/
def FattrCond.holds (c : FattrCond) (v : Nat) : Bool :=
  match c.op with
  | .between => c.val1.toNat ≤ v && v ≤ c.val2.toNat
  | .bitand => 0 < v &&& c.val1.toNat
  | .cmp op => op.holds (fun a b => a < b) v c.val1.toNat

/-- `get_sql_fattr`. -/
def getSqlFattr (removed : Bool) (conds : CondArg → Option FattrCond) : Text :=
  "WITH\n  fattr_oids AS\n    (SELECT oid FROM hpssix_object WHERE valid=".toList ++
    (if removed then "false".toList else "true".toList) ++
    CondArg.all.flatMap (fun a => (conds a).elim [] fun c => c.sql a) ++ ")".toList

/-- `fattr_get_sql`: no text where it exits. -/
def FattrOptions.sql (o : FattrOptions) : Option Text := o.conds.map (getSqlFattr o.removed)

/-- The query selects the row. -/
def FattrOptions.selects (o : FattrOptions) (r : ObjectRow) : Bool :=
  match o.conds with
  | none => false
  | some conds => r.valid = !o.removed &&
    CondArg.all.all fun a => (conds a).all fun c => c.holds (r.column a)

/-- With a file type as the only condition, the mode of the row decides. -/
theorem selects_fileType {o : FattrOptions} {c : FattrCond} {r : ObjectRow}
    (h : o.conds = some (Function.update (fun _ => none) .mode (some c))) :
    o.selects r = (decide (r.valid = !o.removed) && c.holds r.stMode) := by
  simp [FattrOptions.selects, h, CondArg.all, ObjectRow.column]

/-! ## file types -/

/-- For rows with the mode of that type and these permissions, the two filters
select directories and regular files. -/
def FileTypeFilters (type uperm gperm operm : UInt32) : Prop :=
  ∀ r : ObjectRow, r.stMode = (getStMode type uperm gperm operm).toNat → r.valid = true →
    (({ directoryOnly := true : FattrOptions }).selects r = true ↔ type = 0x84) ∧
      (({ fileOnly := true : FattrOptions }).selects r = true ↔ type = 0x81)

/-- A bit above the permissions is a bit of the file type. -/
theorem getStMode_and (type uperm gperm operm : UInt32) {i : Nat} (hi : 9 ≤ i) :
    (getStMode type uperm gperm operm).toNat &&& 2 ^ i = (stFmt type).toNat &&& 2 ^ i := by
  obtain ⟨perm, hperm, h⟩ := getStMode_eq type uperm gperm operm
  have hbit : perm.testBit i = false :=
    Nat.testBit_lt_two_pow (hperm.trans_le (Nat.pow_le_pow_right (by decide) hi))
  rw [h, Nat.and_two_pow, Nat.and_two_pow, Nat.testBit_or, hbit, Bool.or_false]

theorem holds_condDirMode_iff (type uperm gperm operm : UInt32) :
    condDirMode.holds (getStMode type uperm gperm operm).toNat = true ↔ type = 0x84 := by
  have hbit := getStMode_and type uperm gperm operm (i := 14) (by decide)
  show decide (0 < _ &&& 2 ^ 14) = true ↔ _
  rw [hbit, decide_eq_true_iff]
  unfold stFmt
  split_ifs with h₁ h₂ h₃ <;> simp [*]

/-- The bit of a regular file is one of the bits of a symbolic link. -/
theorem holds_condFileMode_iff (type uperm gperm operm : UInt32) :
    condFileMode.holds (getStMode type uperm gperm operm).toNat = true ↔
      type = 0x81 ∨ type = 0x82 := by
  have hbit := getStMode_and type uperm gperm operm (i := 15) (by decide)
  show decide (0 < _ &&& 2 ^ 15) = true ↔ _
  rw [hbit, decide_eq_true_iff]
  unfold stFmt
  split_ifs with h₁ h₂ h₃ <;> simp [*]

/-- **File type filters**: they agree with the type of every object that is not a
symbolic link. -/
theorem fileTypeFilters_iff (type uperm gperm operm : UInt32) :
    FileTypeFilters type uperm gperm operm ↔ type ≠ 0x82 := by
  have hselects : ∀ (r : ObjectRow), r.valid = true →
      ({ directoryOnly := true : FattrOptions }).selects r = condDirMode.holds r.stMode ∧
        ({ fileOnly := true : FattrOptions }).selects r = condFileMode.holds r.stMode := by
    intro r hr
    rw [selects_fileType (c := condDirMode) rfl, selects_fileType (c := condFileMode) rfl, hr]
    exact ⟨Bool.true_and _, Bool.true_and _⟩
  constructor
  · rintro h rfl
    have hfile := (h { toObjectCols := { fileTenCols with
      stMode := (getStMode 0x82 uperm gperm operm).toNat }, valid := true } rfl rfl).2
    rw [(hselects _ rfl).2, holds_condFileMode_iff] at hfile
    exact absurd (hfile.mp (.inr rfl)) (by decide)
  · intro hlink r hmode hvalid
    rw [(hselects r hvalid).1, (hselects r hvalid).2, hmode, holds_condDirMode_iff,
      holds_condFileMode_iff]
    exact ⟨Iff.rfl, or_iff_left hlink⟩

/-- A symbolic link with all permissions. -/
def symlinkRow : ObjectRow :=
  { toObjectCols := { fileTenCols with stMode := 0o120777 }, valid := true }

/-- A symbolic link is found as a regular file. -/
theorem symlink_selected_as_file : ¬ ∀ type uperm gperm operm : UInt32,
    FileTypeFilters type uperm gperm operm := by
  intro h
  have hfile := (h 0x82 0xe0 0xe0 0xe0 symlinkRow (by decide) rfl).2
  exact absurd (hfile.mp (by decide)) (by decide)

end Hpssix
