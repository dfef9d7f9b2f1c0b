import Mathlib
import StateDatabase.EosDb

/-!
# Traversal of the primary table

The calls of `eos_db` that walk through the rows of a table in the order of
their primary keys.  The rows of all tables are in one container, whose index
`by_scope_primary` sorts them by table and key.

A position in the index is a number: `begin()` is 0, `end()` is the number of
rows, and `++` and `--` go to the neighbours.  A reference parameter `primary`
is passed in and returned.
-/

namespace StateDatabase

open Programs

/-! ## The ordered index -/

/-- `composite_key_compare` of `by_scope_primary`: the table ids are compared as
signed numbers and the primary keys as unsigned ones. -/
def scopePrimaryLess (left right : Int64 × UInt64) : Prop :=
  left.1 < right.1 ∨ left.1 = right.1 ∧ left.2 < right.2

instance : DecidableRel scopePrimaryLess := fun left right =>
  inferInstanceAs
    (Decidable (left.1 < right.1 ∨ left.1 = right.1 ∧ left.2 < right.2))

/-- The rows as `get_index<key_value_index, by_scope_primary>()` has them. -/
def byScopePrimary (rows : MultiIndex keyValueIndex) : List KeyValueObject :=
  (rows.rows.toList.map Prod.snd).insertionSort fun left right =>
    ¬ scopePrimaryLess right.scopePrimary left.scopePrimary

namespace OrderedIndex

/-- `iterator_to` -/
def iteratorTo (idx : List KeyValueObject) (obj : KeyValueObject) : Nat :=
  idx.findIdx fun row => row.id = obj.id

/-- `lower_bound` with a table id and a primary key. -/
def lowerBound (idx : List KeyValueObject) (key : Int64 × UInt64) : Nat :=
  idx.findIdx fun row => ¬ scopePrimaryLess row.scopePrimary key

/-- `upper_bound` with a table id and a primary key. -/
def upperBound (idx : List KeyValueObject) (key : Int64 × UInt64) : Nat :=
  idx.findIdx fun row => scopePrimaryLess key row.scopePrimary

/-- `upper_bound` with a table id alone. -/
def tableUpperBound (idx : List KeyValueObject) (tab : Int64) : Nat :=
  idx.findIdx fun row => tab < row.tId

end OrderedIndex

/-! ## The calls -/

namespace EosDb

open OrderedIndex

def dbNextI64 (ndebug : Bool) (iterator : Int) (primary : UInt64) :
    EosDbM (Int × UInt64) := do
  if iterator < -1 then
    return (-1, primary)
  else
    let obj ← getObject ndebug .keyValue iterator
    let idx := byScopePrimary (← indices .keyValue)
    match idx[iteratorTo idx obj + 1]? with
    | some next =>
        if next.tId ≠ obj.tId then
          return (← ofExcept (((← get).caches .keyValue).getEndIteratorByTableId
            ndebug obj.tId), primary)
        else
          return (← addObject .keyValue next.id, next.primaryKey)
    | none =>
        return (← ofExcept (((← get).caches .keyValue).getEndIteratorByTableId
          ndebug obj.tId), primary)

/-- The row before a position is returned if it is in the table. -/
def stepBack (idx : List KeyValueObject) (itr : Nat) (tab : Int64)
    (primary : UInt64) : EosDbM (Int × UInt64) :=
  match itr with
  | 0 => return (-1, primary)
  | before + 1 =>
      match idx[before]? with
      | none => throw .undefined
      | some previous => do
          if previous.tId ≠ tab then
            return (-1, primary)
          else
            return (← addObject .keyValue previous.id, previous.primaryKey)

def dbPreviousI64 (ndebug : Bool) (iterator : Int) (primary : UInt64) :
    EosDbM (Int × UInt64) := do
  let idx := byScopePrimary (← indices .keyValue)
  if iterator < -1 then
    match ← ofExcept (((← get).caches .keyValue).findTableByEndIterator
        ndebug iterator) with
    | none => throw (.failedAssert ndebug "not a valid end iterator")
    | some address =>
        -- `upper_bound` takes the id by reference and has nothing to compare it
        -- with in an empty index, so nothing is read at the address
        if idx.isEmpty then
          return (-1, primary)
        else
          let tab ← objectAt .tableId address
          stepBack idx (tableUpperBound idx tab.id) tab.id primary
  else
    let obj ← getObject ndebug .keyValue iterator
    stepBack idx (iteratorTo idx obj) obj.tId primary

/-- The body that `db_lowerbound_i64` and `db_upperbound_i64` share: the row at
a position, if it is in the table. -/
def rowAtBound (bound : List KeyValueObject → Int64 × UInt64 → Nat)
    (code : Name) (scope : Sha256) (table : Name) (id : UInt64) :
    EosDbM Int := do
  match ← findTable code scope table with
  | none => return -1
  | some tab =>
      let tableEnd ← cacheTable .keyValue tab.id
      let idx := byScopePrimary (← indices .keyValue)
      match idx[bound idx (tab.id, id)]? with
      | none => return tableEnd
      | some row =>
          if row.tId ≠ tab.id then return tableEnd
          else addObject .keyValue row.id

def dbLowerboundI64 (code : Name) (scope : Sha256) (table : Name)
    (id : UInt64) : EosDbM Int :=
  rowAtBound lowerBound code scope table id

def dbUpperboundI64 (code : Name) (scope : Sha256) (table : Name)
    (id : UInt64) : EosDbM Int :=
  rowAtBound upperBound code scope table id

def dbEndI64 (code : Name) (scope : Sha256) (table : Name) : EosDbM Int := do
  match ← findTable code scope table with
  | none => return -1
  | some tab => cacheTable .keyValue tab.id

end EosDb

end StateDatabase
