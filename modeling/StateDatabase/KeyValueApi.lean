import Mathlib
import StateDatabase.Library.Packing
import StateDatabase.EosDb

/-!
# Records by key

`db_store_by_key` and its companions keep records under a hash of a scope and
a key.  The key is an `int`, a `const char*` or a `std::string`; the overloads
of `fc::sha256::hash` pack an `int` into its four bytes and a `const char*`
into its length and its text, and take a `std::string` as it is.  The hash of
the packed key is packed together with the scope and hashed again.
-/

namespace StateDatabase

open Programs Packing

inductive KeyType where
  | int
  | cString
  | stdString
deriving DecidableEq, Repr

/-- The text of a `const char*` ends before the first zero. -/
@[reducible]
def Key : KeyType → Type
  | .int => Int32
  | .cString => { text : Bytes // 0 ∉ text }
  | .stdString => Bytes

instance (type : KeyType) : DecidableEq (Key type) :=
  match type with
  | .int => inferInstanceAs (DecidableEq Int32)
  | .cString => inferInstanceAs (DecidableEq { text : Bytes // 0 ∉ text })
  | .stdString => inferInstanceAs (DecidableEq Bytes)

/-- `MAX_SIZE_OF_BYTE_ARRAYS` -/
def maxSizeOfByteArrays : Nat := 20 * 1024 * 1024

/-- The bytes that are hashed for a key.  The length of a `std::string` is
passed as a `uint32_t`. -/
def packKey : {type : KeyType} → Key type → Except Fault Bytes
  | .int, key => .ok (littleEndian 4 key.toUInt32.toNat)
  | .cString, key =>
      if key.1.length ≤ maxSizeOfByteArrays then
        .ok (varint 10 key.1.length ++ key.1)
      else
        .error (.fcAssertion "v.size() <= MAX_SIZE_OF_BYTE_ARRAYS")
  | .stdString, key => .ok (key.take (key.length % 2 ^ 32))

/-- The 32 bytes of a hash. -/
def hashBytes (hash : Sha256) : Bytes :=
  (littleEndian 32 hash.toNat).reverse

namespace EosDb

variable (sha : Bytes → Sha256) {type : KeyType}

/-- `fc::sha256::hash(make_pair(scope, hashed_key))` -/
def tableKeyOf (scope hashedKey : Sha256) : Sha256 :=
  sha (hashBytes scope ++ hashBytes hashedKey)

/-- The id of the record of a scope and a key. -/
def hashKey (scope : Sha256) (key : Key type) : Except Fault Sha256 := do
  let packed ← packKey key
  return tableKeyOf sha scope (sha packed)

def dbFindByKey (scope : Sha256) (key : Key type) :
    EosDbM (Option TableKeyObject) := do
  let tableKey ← ofExcept (hashKey sha scope key)
  return (← indices .tableKey).find tableKey

def dbStoreByKey (ndebug : Bool) (scope : Sha256) (key : Key type)
    (payer : Sha256) (buffer : Bytes) (block : Block) : EosDbM PUnit := do
  let tableKey ← ofExcept (hashKey sha scope key)
  let existing := (← indices .tableKey).find tableKey
  if existing.isSome && !ndebug then
    throw (.assertion "object key alreay exist")
  create .tableKey block { id := tableKey, payer := payer, value := buffer }

def dbUpdateByKey (ndebug : Bool) (scope : Sha256) (key : Key type)
    (payer : Sha256) (buffer : Bytes) : EosDbM PUnit := do
  let tableKey ← ofExcept (hashKey sha scope key)
  match (← indices .tableKey).find tableKey with
  | none => throw (.failedAssert ndebug "object key not found")
  | some existing =>
      modify .tableKey existing.id fun t =>
        { t with payer := payer, value := buffer }

def dbRemoveByKey (ndebug : Bool) (scope : Sha256) (key : Key type) :
    EosDbM PUnit := do
  let tableKey ← ofExcept (hashKey sha scope key)
  match (← indices .tableKey).find tableKey with
  | none => throw (.failedAssert ndebug "object key not found")
  | some existing => remove .tableKey existing.id

end EosDb

end StateDatabase
