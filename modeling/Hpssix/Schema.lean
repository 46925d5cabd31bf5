import Mathlib.Data.Rat.Defs
import Hpssix.Hpss

/-!
# Hpssix.Schema

The PostgreSQL tables of the index (`libhpssix/src/hpssix-db-schema.sql`), the
constraints that a statement can violate, and the two triggers and the
function that the schema defines.

The generated columns `fid` and `vid`, which no query reads, are left out.
An `INTEGER` or `BIGINT` column that is only filled from unsigned decimal text
holds a natural number; whether a number fits is checked where it is stored.
-/

namespace Hpssix

open CText Rel

/-! ## hpssix_object -/

/-- The columns of `hpssix_object` that a batch brings. -/
structure ObjectCols where
  oid : Oid
  stDev : Nat
  stMode : Nat
  stNlink : Nat
  stUid : Nat
  stGid : Nat
  stRdev : Nat
  stSize : Nat
  stBlksize : Nat
  stBlocks : Nat
  stAtime : Nat
  stMtime : Nat
  stCtime : Nat
deriving DecidableEq

/-- A row of `hpssix_object`. -/
structure ObjectRow extends ObjectCols where
  valid : Bool
deriving DecidableEq

/-- A value of an `INTEGER` column; a larger number is refused. -/
def int4 (n : Nat) : Option Nat := if n < 2 ^ 31 then some n else none

/-- A value of a `BIGINT` column that holds an object id. -/
def int8 (n : Nat) : Option Oid := if h : n < 2 ^ 63 then some ⟨n, h⟩ else none

theorem int8_val (o : Oid) : int8 o.val = some o := by
  simp [int8]

/-! ## hpssix_file -/

/-- A row of `hpssix_file`. -/
structure FileRow where
  oid : Oid
  path : Text
  name : Text
deriving DecidableEq

/-- `substring(path from '[^/]+$')`: the part after the last slash, NULL if that
is empty. -/
def fileGetName (path : Text) : Option Text :=
  match path.reverse.takeWhile fun c => c ≠ '/' with
  | [] => none
  | c :: cs => some (c :: cs).reverse

/-! ## hpssix_attr_key and hpssix_attr_val -/

/-- A row of `hpssix_attr_key`. -/
structure AttrKeyRow where
  kid : Nat
  name : Text
deriving DecidableEq

/-- A `DOUBLE PRECISION` value. -/
inductive Float8 where
  | negInf
  | num (q : Rat)
  | posInf
  | nan
deriving DecidableEq

/-- A row of `hpssix_attr_val`; `rval` is NULL unless the value is a number. -/
structure AttrValRow where
  oid : Oid
  kid : Nat
  rval : Option Float8
  sval : Option Text
deriving DecidableEq

/-- The tables that the builder writes.  `nextKid` is the next value of the
identity column `kid`. -/
structure Db where
  object : List ObjectRow := []
  file : List FileRow := []
  attrKey : List AttrKeyRow := []
  attrVal : List AttrValRow := []
  nextKid : Nat := 1
deriving DecidableEq

/-- `REFERENCES hpssix_object(oid)`. -/
def Db.HasObject (db : Db) (o : Oid) : Prop := o ∈ db.object.map (·.oid)

instance (db : Db) (o : Oid) : Decidable (db.HasObject o) := inferInstanceAs (Decidable (_ ∈ _))

/-- `hpssix_attr_key_pop`: the id of a key, which is entered if it is new. -/
def attrKeyPop (name : Text) (db : Db) : Nat × Db :=
  match db.attrKey.find? fun k => k.name = name with
  | some k => (k.kid, db)
  | none =>
    (db.nextKid,
      { db with attrKey := db.attrKey ++ [⟨db.nextKid, name⟩], nextKid := db.nextKid + 1 })

/-- The primary and unique keys. -/
structure Db.Unique (db : Db) : Prop where
  object : (db.object.map (·.oid)).Nodup
  kid : (db.attrKey.map AttrKeyRow.kid).Nodup
  name : (db.attrKey.map AttrKeyRow.name).Nodup
  attrVal : (db.attrVal.map fun v => (v.oid, v.kid)).Nodup

end Hpssix
