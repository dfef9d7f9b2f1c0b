import Mathlib
import StateDatabase.MultiIndex

/-!
# The six tables of `qos_contract_table.hpp`

The objects that the database stores and the unique keys of their indices.
Every index has a unique key on the object id; the other unique keys are
listed with each table.
-/

namespace StateDatabase

/-- `name`: a 64-bit value. -/
structure Name where
  value : UInt64
deriving DecidableEq, Repr

/-- `fc::sha256`: 32 bytes, compared as a big-endian number. -/
abbrev Sha256 := BitVec 256

abbrev Bytes := List UInt8

/-! ## Tables and their rows -/

structure TableIdObject where
  id : Int64
  code : Name
  scope : Sha256
  table : Name
  payer : Name
  /-- the number of elements in the table -/
  count : UInt32
  value : Bytes
deriving DecidableEq

/-- The key `by_code_scope_table`. -/
abbrev TableName := Name × Sha256 × Name

def TableIdObject.codeScopeTable (object : TableIdObject) : TableName :=
  (object.code, object.scope, object.table)

abbrev tableIdMultiIndex : IndexType where
  Id := Int64
  Value := TableIdObject
  id := TableIdObject.id
  uniqueKeys := [{ Key := TableName, get := TableIdObject.codeScopeTable }]

structure KeyValueObject where
  id : Int64
  tId : Int64
  primaryKey : UInt64
  payer : Name
  value : Bytes
deriving DecidableEq

/-- The key `by_scope_primary`. -/
def KeyValueObject.scopePrimary (object : KeyValueObject) : Int64 × UInt64 :=
  (object.tId, object.primaryKey)

abbrev keyValueIndex : IndexType where
  Id := Int64
  Value := KeyValueObject
  id := KeyValueObject.id
  uniqueKeys := [{ Key := Int64 × UInt64, get := KeyValueObject.scopePrimary }]

/-- `secondary_index<…>::index_object` -/
structure IndexObject (SecondaryKey : Type) where
  id : Int64
  tId : Int64
  primaryKey : UInt64
  payer : Name
  secondaryKey : SecondaryKey
deriving DecidableEq

namespace IndexObject

variable {SecondaryKey : Type}

/-- The key `by_primary`. -/
def primary (object : IndexObject SecondaryKey) : Int64 × UInt64 :=
  (object.tId, object.primaryKey)

/-- The key `by_secondary`. -/
def secondary (object : IndexObject SecondaryKey) :
    Int64 × SecondaryKey × UInt64 :=
  (object.tId, object.secondaryKey, object.primaryKey)

end IndexObject

abbrev secondaryIndex (SecondaryKey : Type) [DecidableEq SecondaryKey] :
    IndexType where
  Id := Int64
  Value := IndexObject SecondaryKey
  id := IndexObject.id
  uniqueKeys :=
    [{ Key := Int64 × UInt64, get := IndexObject.primary },
      { Key := Int64 × SecondaryKey × UInt64, get := IndexObject.secondary }]

structure TableKeyObject where
  id : Sha256
  payer : Sha256
  value : Bytes
deriving DecidableEq

abbrev tableKeyMultiIndex : IndexType where
  Id := Sha256
  Value := TableKeyObject
  id := TableKeyObject.id
  uniqueKeys := []

/-- The three secondary indices of `eos_db`. -/
inductive IndexKind where
  | idx64
  | idx128
  | idx256
deriving DecidableEq, Repr

/-- `uint64_t`, `uint128_t` and `key256_t`. -/
@[reducible]
def SecondaryKey : IndexKind → Type
  | .idx64 => UInt64
  | .idx128 => BitVec 128
  | .idx256 => BitVec 128 × BitVec 128

instance (kind : IndexKind) : DecidableEq (SecondaryKey kind) :=
  match kind with
  | .idx64 => inferInstanceAs (DecidableEq UInt64)
  | .idx128 => inferInstanceAs (DecidableEq (BitVec 128))
  | .idx256 => inferInstanceAs (DecidableEq (BitVec 128 × BitVec 128))

/-- The tables of the database; `table_type` gives each one its number. -/
inductive TableType where
  | tableId
  | keyValue
  | index (kind : IndexKind)
  | tableKey
deriving DecidableEq, Repr

@[reducible]
def indexOf : TableType → IndexType
  | .tableId => tableIdMultiIndex
  | .keyValue => keyValueIndex
  | .index kind => secondaryIndex (SecondaryKey kind)
  | .tableKey => tableKeyMultiIndex

/-! ## Which rows exclude each other -/

@[simp]
theorem clash_tableId_iff (left right : TableIdObject) :
    tableIdMultiIndex.Clash left right ↔
      left.codeScopeTable = right.codeScopeTable := by
  simp [IndexType.Clash]

@[simp]
theorem clash_keyValue_iff (left right : KeyValueObject) :
    keyValueIndex.Clash left right ↔
      left.scopePrimary = right.scopePrimary := by
  simp [IndexType.Clash]

/-- Rows that agree on the secondary key also agree on the primary key, so
only the latter decides. -/
@[simp]
theorem clash_secondary_iff {Key : Type} [DecidableEq Key]
    (left right : IndexObject Key) :
    (secondaryIndex Key).Clash left right ↔ left.primary = right.primary := by
  simp only [IndexType.Clash, List.mem_cons, List.not_mem_nil, or_false,
    exists_eq_or_imp, exists_eq_left]
  constructor
  · rintro (samePrimary | sameSecondary)
    · exact samePrimary
    · simp only [IndexObject.secondary, Prod.mk.injEq] at sameSecondary
      simp only [IndexObject.primary, Prod.mk.injEq]
      exact ⟨sameSecondary.1, sameSecondary.2.2⟩
  · exact Or.inl

@[simp]
theorem not_clash_tableKey (left right : TableKeyObject) :
    ¬ tableKeyMultiIndex.Clash left right := by
  simp [IndexType.Clash]

end StateDatabase
