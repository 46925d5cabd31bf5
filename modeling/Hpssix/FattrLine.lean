import Hpssix.Base.Fate
import Hpssix.Base.Scanf
import Hpssix.Builder

/-!
# Hpssix.FattrLine

A line of the fattr export, as the builder turns it into a line of
`COPY __object` (`builder_fattr_line_processor` in
`tools/builder/src/hpssix-builder-file.c`, `hpssix_builder_parse_fattr` in
`hpssix-builder-utils.c`).

The order of the fields is written down four times: in the format of `sscanf`,
in the assignments to `struct stat`, in the order of the `sprintf` calls and in
the column list of the `COPY`.  `fattr_line_translated` says that they agree.
-/

namespace Hpssix

open CText Fate Scanf

/-! ## the functions -/

/-- The format of `hpssix_builder_parse_fattr`. -/
def fattrFormat : List Directive :=
  [.lu, .u, .u, .u, .u, .lu, .u, .u, .lu, .lu, .lu, .lu, .u].intersperse (.lit ',')

/-- `_sb`, from the fields that were read. -/
def fattrStat (objectId : UInt64) (type uperm gperm operm : UInt32) (nlink : UInt64)
    (uid gid : UInt32) (size atime mtime ctime : UInt64) : Stat where
  stDev := 44
  stIno := objectId
  stMode := getStMode type uperm gperm operm
  stNlink := nlink
  stUid := uid
  stGid := gid
  stRdev := 0
  stSize := size
  stBlksize := 512
  stBlocks := ceiling size 512
  stAtime := atime
  stMtime := mtime
  stCtime := ctime

/-- `hpssix_builder_parse_fattr`.  The format has a thirteenth conversion, for which there
is no pointer. -/
def hpssixBuilderParseFattr (line : Text) : Fate (Except Int Stat) :=
  match (scan fattrFormat line).1 with
  | [objectId, type, uperm, gperm, operm, nlink, uid, gid, size, atime, mtime, ctime] =>
      done (.ok (fattrStat (.ofInt objectId) (.ofInt type) (.ofInt uperm) (.ofInt gperm)
        (.ofInt operm) (.ofInt nlink) (.ofInt uid) (.ofInt gid) (.ofInt size) (.ofInt atime)
        (.ofInt mtime) (.ofInt ctime)))
  | values => if 12 < values.length then crash else done (.error 22)

/-- `if (ret != 12)`: a line is taken exactly if `sscanf` returns 12. -/
theorem hpssixBuilderParseFattr_eq_ok_iff {line : Text} :
    (∃ sb, hpssixBuilderParseFattr line = done (.ok sb)) ↔ sscanf fattrFormat line = 12 := by
  have hret : sscanf fattrFormat line = 12 ↔ (scan fattrFormat line).1.length = 12 := by
    unfold sscanf
    split
    · next heq => simp [heq]
    · next heq =>
        rw [heq]
        exact Nat.cast_inj (n := 12)
  rw [hret]
  unfold hpssixBuilderParseFattr
  split
  · next heq => simp [heq]
  · next hne =>
      refine iff_of_false ?_ fun hlen => ?_
      · rintro ⟨sb, hsb⟩
        split at hsb <;> cases hsb
      · match hvalues : (scan fattrFormat line).1, hlen with
        | [_, _, _, _, _, _, _, _, _, _, _, _], _ => exact hne _ _ _ _ _ _ _ _ _ _ _ _ hvalues

/-- The thirteen numbers that are printed, in order. -/
def printedFields (sb : Stat) : List Nat :=
  [sb.stIno.toNat, sb.stDev.toNat, sb.stMode.toNat, sb.stNlink.toNat, sb.stUid.toNat,
    sb.stGid.toNat, sb.stRdev.toNat, sb.stSize.toNat, sb.stBlksize.toNat, sb.stBlocks.toNat,
    sb.stAtime.toNat, sb.stMtime.toNat, sb.stCtime.toNat]

/-- `builder_fattr_line_processor`: the return value, `out` and `self->n_processed`. -/
def builderFattrLineProcessor (line out : Text) (nProcessed : Nat) : Fate (Int × Text × Nat) := do
  match ← hpssixBuilderParseFattr line with
  | .error _ => pure (-1, out, nProcessed)
  | .ok sb =>
      pure (1, List.intercalate [','] ((printedFields sb).map decimal) ++ ['\n'], nProcessed + 1)

/-! ## the columns -/

/-- The columns of `__object` that are copied. -/
inductive FattrColumn where
  | oid
  | stDev
  | stMode
  | stNlink
  | stUid
  | stGid
  | stRdev
  | stSize
  | stBlksize
  | stBlocks
  | stAtime
  | stMtime
  | stCtime
deriving DecidableEq

/-- The column list of `builder_fattr_copy_stmt`. -/
def builderFattrCopyColumns : List FattrColumn :=
  [.oid, .stDev, .stMode, .stNlink, .stUid, .stGid, .stRdev, .stSize, .stBlksize, .stBlocks,
    .stAtime, .stMtime, .stCtime]

/-- A line of the `COPY`, if it is as many decimal numbers as there are columns. -/
def readCopyLine (line : Text) : Option (List (FattrColumn × Nat)) :=
  match line.getLast? with
  | some '\n' =>
      let fields := line.dropLast.splitOn ','
      if fields.length = builderFattrCopyColumns.length ∧
          ∀ f ∈ fields, f ≠ [] ∧ f.all Char.isDigit then
        some (builderFattrCopyColumns.zip (fields.map (digitsVal 10)))
      else none
  | _ => none

/-- What was printed is read back. -/
theorem readCopyLine_print {values : List Nat} (h : values.length = 13) :
    readCopyLine (List.intercalate [','] (values.map decimal) ++ ['\n']) =
      some (builderFattrCopyColumns.zip values) := by
  have hne : values.map decimal ≠ [] := by
    rintro h0
    simp [List.map_eq_nil_iff.mp h0] at h
  have hcomma : ∀ f ∈ values.map decimal, ',' ∉ f := by
    rintro f hf
    obtain ⟨v, -, rfl⟩ := List.mem_map.mp hf
    exact not_mem_decimal v rfl
  have hdigits : ∀ f ∈ values.map decimal, f ≠ [] ∧ f.all Char.isDigit = true := by
    intro f hf
    obtain ⟨v, -, rfl⟩ := List.mem_map.mp hf
    exact ⟨Nat.toDigits_ne_nil, List.all_eq_true.mpr fun c hc => isDigit_of_mem_decimal hc⟩
  have hback : (values.map decimal).map (digitsVal 10) = values := by
    rw [List.map_map]
    exact (List.map_congr_left fun v _ => digitsVal_decimal v).trans (List.map_id values)
  rw [readCopyLine, List.getLast?_append, List.getLast?_singleton]
  simp only [Option.some_or, List.dropLast_concat, List.splitOn_intercalate ',' hcomma hne]
  rw [if_pos ⟨by rw [List.length_map, h]; rfl, hdigits⟩, hback]

/-! ## the mode -/

/-- The read, write and execute bits of a class of users. -/
def PermBits (mode shift : Nat) (perm : UInt32) : Prop :=
  (mode.testBit (shift + 2) = true ↔ perm &&& 0x20 ≠ 0) ∧
    (mode.testBit (shift + 1) = true ↔ perm &&& 0x40 ≠ 0) ∧
    (mode.testBit shift = true ↔ perm &&& 0x80 ≠ 0)

/-- The bits of a constant that is there or not. -/
theorem testBit_ite (p : Prop) [Decidable p] (c : UInt32) (i : Nat) :
    (if p then c else 0).toNat.testBit i = (decide p && c.toNat.testBit i) := by
  split <;> simp [*]

/-- The file type is above the permissions. -/
theorem testBit_stFmt (type : UInt32) {i : Nat} (hi : i < 9) :
    (stFmt type).toNat.testBit i = false := by
  have hmod : (stFmt type).toNat = 2 ^ 9 * ((stFmt type).toNat / 2 ^ 9) := by
    unfold stFmt
    split_ifs <;> rfl
  rw [hmod, Nat.testBit_two_pow_mul]
  simp [hi]

/-- The permissions are in the mode, each at its place. -/
theorem permBits_getStMode (type uperm gperm operm : UInt32) :
    PermBits (getStMode type uperm gperm operm).toNat 6 uperm ∧
      PermBits (getStMode type uperm gperm operm).toNat 3 gperm ∧
      PermBits (getStMode type uperm gperm operm).toNat 0 operm := by
  have hbits : ∀ i, (getStMode type uperm gperm operm).toNat.testBit i =
      ((stFmt type).toNat.testBit i ||
        (decide (uperm &&& 0x20 ≠ 0) && Nat.testBit 0o400 i) ||
        (decide (uperm &&& 0x40 ≠ 0) && Nat.testBit 0o200 i) ||
        (decide (uperm &&& 0x80 ≠ 0) && Nat.testBit 0o100 i) ||
        (decide (gperm &&& 0x20 ≠ 0) && Nat.testBit 0o040 i) ||
        (decide (gperm &&& 0x40 ≠ 0) && Nat.testBit 0o020 i) ||
        (decide (gperm &&& 0x80 ≠ 0) && Nat.testBit 0o010 i) ||
        (decide (operm &&& 0x20 ≠ 0) && Nat.testBit 0o004 i) ||
        (decide (operm &&& 0x40 ≠ 0) && Nat.testBit 0o002 i) ||
        (decide (operm &&& 0x80 ≠ 0) && Nat.testBit 0o001 i)) := by
    intro i
    unfold getStMode stFmt
    simp only [UInt32.toNat_or, Nat.testBit_or, testBit_ite]
    rfl
  refine ⟨⟨?_, ?_, ?_⟩, ⟨?_, ?_, ?_⟩, ⟨?_, ?_, ?_⟩⟩ <;>
    rw [hbits, testBit_stFmt type (by decide)] <;> simp +decide

/-! ## the translation -/

/-- The fields of a record, in the order of the line. -/
structure FattrInput where
  objid : UInt64
  type : UInt32
  uperm : UInt32
  gperm : UInt32
  operm : UInt32
  nlink : UInt64
  uid : UInt32
  gid : UInt32
  size : UInt64
  atime : UInt64
  mtime : UInt64
  ctime : UInt64

def FattrInput.values (r : FattrInput) : List Nat :=
  [r.objid.toNat, r.type.toNat, r.uperm.toNat, r.gperm.toNat, r.operm.toNat, r.nlink.toNat,
    r.uid.toNat, r.gid.toNat, r.size.toNat, r.atime.toNat, r.mtime.toNat, r.ctime.toNat]

/-- A text that is decimal digits, and their value. -/
def Digits (f : Text) (v : Nat) : Prop :=
  f ≠ [] ∧ (∀ c ∈ f, c.isDigit = true) ∧ digitsVal 10 f = v

theorem digits_of_all {f : Text} {v : Nat}
    (h : f ≠ [] ∧ f.all Char.isDigit = true ∧ digitsVal 10 f = v) : Digits f v :=
  ⟨h.1, List.all_eq_true.mp h.2.1, h.2.2⟩

/-- The stat buffer that a record is parsed to. -/
def FattrInput.stat (r : FattrInput) : Stat :=
  fattrStat r.objid r.type r.uperm r.gperm r.operm r.nlink r.uid r.gid r.size r.atime r.mtime
    r.ctime

section Translate
variable {r : FattrInput} {fs : List Text} {tail : Text}

/-- Fields of digits are stored as the values that they have. -/
theorem zipWith_store {ks : List Directive} {values : List Nat}
    (h : List.Forall₂ Digits fs values) :
    List.zipWith (fun k f => k.store (digitsVal 10 f)) ks fs =
      List.zipWith (fun k (v : Nat) => k.store v) ks values := by
  induction h generalizing ks with
  | nil => simp
  | cons hf _ ih =>
      cases ks with
      | nil => rfl
      | cons k ks => rw [List.zipWith_cons_cons, List.zipWith_cons_cons, hf.2.2, ih]

/-- They consist of digits. -/
theorem Digits.all_of_forall₂ {values : List Nat} (h : List.Forall₂ Digits fs values) :
    ∀ f ∈ fs, f ≠ [] ∧ ∀ c ∈ f, c.isDigit = true := by
  induction h with
  | nil => simp
  | cons hf _ ih => exact List.forall_mem_cons.mpr ⟨⟨hf.1, hf.2.1⟩, ih⟩

/-- A value of 64 bits is kept. -/
theorem ulong_of_lt {v : Nat} (h : v < 2 ^ 64) : ulong v = v := by
  have hle : ¬ ullongMax < (v : Int).natAbs := by
    rw [Int.natAbs_natCast, ullongMax]
    omega
  rw [ulong, if_neg hle]
  omega

/-- `%lu` stores a value of 64 bits. -/
theorem store_lu (v : UInt64) : Directive.lu.store v.toNat = v.toNat := by
  rw [Directive.store, ulong_of_lt v.toNat_lt]

/-- `%u` stores a value of 32 bits. -/
theorem store_u (v : UInt32) : Directive.u.store v.toNat = v.toNat := by
  have hlt := v.toNat_lt
  rw [Directive.store, ulong_of_lt (by omega)]
  omega

theorem ofInt_toNat_64 (v : UInt64) : UInt64.ofInt v.toNat = v := by
  have hlt := v.toNat_lt
  have hmod : ((v.toNat : Int) % 2 ^ 64).toNat = v.toNat := by omega
  rw [UInt64.ofInt, hmod, UInt64.ofNat_toNat]

theorem ofInt_toNat_32 (v : UInt32) : UInt32.ofInt v.toNat = v := by
  have hlt := v.toNat_lt
  have hmod : ((v.toNat : Int) % 2 ^ 32).toNat = v.toNat := by omega
  rw [UInt32.ofInt, hmod, UInt32.ofNat_toNat]

/-- A line with the twelve numbers of a record is read as them. -/
theorem hpssixBuilderParseFattr_record (hfs : List.Forall₂ Digits fs r.values)
    (htail : tail = [] ∨ tail = ['\n']) :
    hpssixBuilderParseFattr (List.intercalate [','] fs ++ tail) = done (.ok r.stat) := by
  have hlen : fs.length = 12 := hfs.length_eq
  have hscan : (scan fattrFormat (List.intercalate [','] fs ++ tail)).1 = _ :=
    scan_commas (by simp [Directive.Plain]) (Digits.all_of_forall₂ hfs) (by rintro rfl; cases hlen)
      (by rw [hlen]; decide) (by obtain rfl | rfl := htail <;> simp)
  rw [zipWith_store hfs] at hscan
  simp only [FattrInput.values, List.zipWith_cons_cons, List.zipWith_nil_right, store_lu,
    store_u] at hscan
  rw [hpssixBuilderParseFattr, hscan]
  simp only [ofInt_toNat_64, ofInt_toNat_32, FattrInput.stat]

/-- A line with fewer numbers is refused. -/
theorem hpssixBuilderParseFattr_short {line : Text}
    (h : leadingNumbers (line.splitOn ',') < 12) :
    hpssixBuilderParseFattr line = done (.error 22) := by
  have hlen : (scan fattrFormat line).1.length < 12 := by
    rw [fattrFormat, length_scan_commas (by simp [Directive.Plain])]
    exact Nat.lt_of_le_of_lt (Nat.min_le_right ..) h
  unfold hpssixBuilderParseFattr
  split
  · next heq => simp [heq] at hlen
  · rw [if_neg (by omega)]

/-- The type bits of the mode. -/
theorem getStMode_type (type uperm gperm operm : UInt32) :
    (getStMode type uperm gperm operm).toNat &&& 0o170000 = (stFmt type).toNat := by
  obtain ⟨perm, hperm, h⟩ := getStMode_eq type uperm gperm operm
  have hzero : perm &&& 0o170000 = 0 := by
    refine Nat.eq_of_testBit_eq fun i => ?_
    rw [Nat.testBit_and, Nat.zero_testBit]
    by_cases hi : i < 9
    · rw [show 0o170000 = 2 ^ 9 * 120 from rfl, Nat.testBit_two_pow_mul]
      simp [hi]
    · rw [Nat.testBit_lt_two_pow (hperm.trans_le (Nat.pow_le_pow_right (by decide) (by omega)))]
      rfl
  rw [h, Nat.and_or_distrib_right, hzero, Nat.or_zero]
  unfold stFmt
  split_ifs <;> rfl

/-- Below 2^63 the number of blocks does not overflow. -/
theorem ceiling_toNat {size : UInt64} (h : size.toNat < 2 ^ 63) :
    (ceiling size 512).toNat = (size.toNat + 511) / 512 := by
  have hsum : (size + 512 - 1).toNat = size.toNat + 511 := by
    rw [UInt64.toNat_sub_of_le, UInt64.toNat_add]
    · simp only [UInt64.reduceToNat]
      omega
    · rw [UInt64.le_iff_toNat_le, UInt64.toNat_add]
      simp only [UInt64.reduceToNat]
      omega
  rw [ceiling, UInt64.toNat_div, hsum]
  rfl

/-- **Fattr record translation**: a record becomes a line of thirteen numbers that stand under
their columns, and a line with fewer than twelve numbers is refused. -/
theorem fattr_line_translated (hfs : List.Forall₂ Digits fs r.values)
    (hsize : r.size.toNat < 2 ^ 63) (htail : tail = [] ∨ tail = ['\n']) {short : Text}
    (hshort : leadingNumbers (short.splitOn ',') < 12) (out : Text) (n : Nat) :
    (∃ line row,
      builderFattrLineProcessor (List.intercalate [','] fs ++ tail) out n = done (1, line, n + 1) ∧
      readCopyLine line = some row ∧ row.length = 13 ∧
      row.lookup .oid = some r.objid.toNat ∧ row.lookup .stDev = some 44 ∧
      row.lookup .stNlink = some r.nlink.toNat ∧ row.lookup .stUid = some r.uid.toNat ∧
      row.lookup .stGid = some r.gid.toNat ∧ row.lookup .stRdev = some 0 ∧
      row.lookup .stSize = some r.size.toNat ∧ row.lookup .stBlksize = some 512 ∧
      row.lookup .stBlocks = some ((r.size.toNat + 511) / 512) ∧
      row.lookup .stAtime = some r.atime.toNat ∧ row.lookup .stMtime = some r.mtime.toNat ∧
      row.lookup .stCtime = some r.ctime.toNat ∧
      ∃ mode, row.lookup .stMode = some mode ∧
        mode &&& 0o170000 = (if r.type = 0x81 then 0o100000 else if r.type = 0x82 then 0o120000
          else if r.type = 0x84 then 0o040000 else 0) ∧
        PermBits mode 6 r.uperm ∧ PermBits mode 3 r.gperm ∧ PermBits mode 0 r.operm) ∧
      builderFattrLineProcessor short out n = done (-1, out, n) := by
  constructor
  · refine ⟨_, builderFattrCopyColumns.zip (printedFields r.stat), ?_,
      readCopyLine_print rfl, rfl, ?_⟩
    · rw [builderFattrLineProcessor, hpssixBuilderParseFattr_record hfs htail]
      rfl
    · obtain ⟨huser, hgroup, hother⟩ := permBits_getStMode r.type r.uperm r.gperm r.operm
      refine ⟨rfl, rfl, rfl, rfl, rfl, rfl, rfl, rfl, ?_, rfl, rfl, rfl, _, rfl, ?_, huser, hgroup,
        hother⟩
      · rw [← ceiling_toNat hsize]
        rfl
      · refine (getStMode_type r.type r.uperm r.gperm r.operm).trans ?_
        unfold stFmt
        split_ifs <;> rfl
  · rw [builderFattrLineProcessor, hpssixBuilderParseFattr_short hshort]
    rfl

end Translate

/-- A regular file of nine blocks, and a line that ends behind its second number. -/
theorem fattr_line_translated_file :
    (List.Forall₂ Digits
        ["7".toList, "129".toList, "0160".toList, "32".toList, "0".toList, "1".toList, "0".toList,
          "100".toList, "4097".toList, "5".toList, "6".toList, "8".toList]
        (FattrInput.values ⟨7, 0x81, 160, 32, 0, 1, 0, 100, 4097, 5, 6, 8⟩)) ∧
      (∃ line row,
        builderFattrLineProcessor (List.intercalate [',']
          ["7".toList, "129".toList, "0160".toList, "32".toList, "0".toList, "1".toList, "0".toList,
            "100".toList, "4097".toList, "5".toList, "6".toList, "8".toList] ++ ['\n']) [] 3 =
          done (1, line, 4) ∧
        readCopyLine line = some row ∧ row.lookup .stSize = some 4097 ∧
        row.lookup .stBlocks = some 9) ∧
      builderFattrLineProcessor "7,129;160".toList [] 3 = done (-1, [], 3) := by
  have hfs : List.Forall₂ Digits
      ["7".toList, "129".toList, "0160".toList, "32".toList, "0".toList, "1".toList, "0".toList,
        "100".toList, "4097".toList, "5".toList, "6".toList, "8".toList]
      (FattrInput.values ⟨7, 0x81, 160, 32, 0, 1, 0, 100, 4097, 5, 6, 8⟩) := by
    unfold FattrInput.values
    repeat' apply List.Forall₂.cons
    all_goals first | exact .nil | exact digits_of_all (by decide)
  have hfew : leadingNumbers ("7,129;160".toList.splitOn ',') < 12 := by decide
  obtain ⟨⟨line, row, hline, hrow, -, -, -, -, -, -, -, hsize, -, hblocks, -⟩, hshort⟩ :=
    fattr_line_translated hfs (by decide) (.inr rfl) hfew [] 3
  exact ⟨hfs, ⟨line, row, hline, hrow, hsize, hblocks⟩, hshort⟩

/-! ## the records of the export -/

/-- The fields of a record of the scanner. -/
def FattrRecord.input (r : FattrRecord) : FattrInput :=
  ⟨UInt64.ofNat r.objid.val, r.type, r.uperm, r.gperm, r.operm, r.nlink, r.uid, r.gid, r.size,
    r.atime, r.mtime, r.ctime⟩

/-- The line of a record of the scanner is read as that record. -/
theorem hpssixBuilderParseFattr_fattrRecord (r : FattrRecord) :
    hpssixBuilderParseFattr (List.intercalate [','] (r.input.values.map decimal) ++ ['\n']) =
      done (.ok (builderParseFattr r)) := by
  refine hpssixBuilderParseFattr_record (r := r.input) ?_ (.inr rfl)
  rw [List.forall₂_map_left_iff, List.forall₂_same]
  exact fun v _ => ⟨Nat.toDigits_ne_nil, fun c hc => isDigit_of_mem_decimal hc, digitsVal_decimal v⟩

end Hpssix
