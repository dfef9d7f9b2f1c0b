import Mathlib
import StateDatabase.Registration
import StateDatabase.IteratorCache

/-!
# `eos_db`

The contract tables on top of the database.  Rows of the primary table and of
the three secondary indices belong to a `table_id_object`, which counts them.
Callers hold rows as iterators.

A reference to an object is its id; a pointer, which the iterator caches keep,
is its address.  A new object is built in a block of memory.  The block decides
the address of the object and the value of every field that the constructor
does not assign, which for tables and for rows of a secondary index is the id.
-/

namespace StateDatabase

open Programs

/-- The tables whose rows are counted and handed out as iterators. -/
inductive RowTable where
  | keyValue
  | index (kind : IndexKind)
deriving DecidableEq, Repr

namespace RowTable

@[reducible]
def type : RowTable → TableType
  | .keyValue => .keyValue
  | .index kind => .index kind

/-- The field `t_id` of a row. -/
def tId : (r : RowTable) → (indexOf r.type).Value → Int64
  | .keyValue => KeyValueObject.tId
  | .index _ => IndexObject.tId

end RowTable

/-- Memory from the allocator of the segment. -/
structure Block where
  address : Address
  /-- what the memory holds where the id will be -/
  unset : Int64

/-- The memory for a new table and for a new row of it. -/
structure Memory where
  table : Block
  row : Block

/-- The database, the addresses of its objects, `keyval_cache`, and the caches
of `idx64`, `idx128` and `idx256`. -/
structure EosDb where
  db : Database eosDbTables
  place : (t : TableType) → (indexOf t).Id → Address
  caches : RowTable → IteratorCache

namespace EosDb

abbrev EosDbM := EStateM Fault EosDb

/-- A new `eos_db` on a database. -/
def ofDatabase (db : Database eosDbTables)
    (place : (t : TableType) → (indexOf t).Id → Address) : EosDb :=
  { db := db, place := place, caches := fun _ => IteratorCache.empty }

/-! ## The database -/

def onDatabase {α : Type} (program : Database.DatabaseM eosDbTables α) :
    EosDbM α :=
  zoom EosDb.db (fun eos final => { eos with db := final }) program

/-- `db.create`: a new object stands in its block. -/
def create (t : TableType) (block : Block) (value : (indexOf t).Value) :
    EosDbM PUnit := do
  onDatabase (Database.create t value)
  let eos ← get
  set { eos with
    place := Function.update eos.place t
      (Function.update (eos.place t) ((indexOf t).id value) block.address) }

def modify (t : TableType) (id : (indexOf t).Id)
    (modifier : (indexOf t).Value → (indexOf t).Value) : EosDbM PUnit :=
  onDatabase (Database.modify t id modifier)

def remove (t : TableType) (id : (indexOf t).Id) : EosDbM PUnit :=
  onDatabase (Database.remove t id)

def indices (t : TableType) : EosDbM (MultiIndex (indexOf t)) :=
  onDatabase (Database.indices t)

/-- The object at an address; there may be none any more. -/
def objectAt (t : TableType) (address : Address) :
    EosDbM (indexOf t).Value := do
  let rows ← indices t
  let eos ← get
  match rows.rows.toList.find? fun entry => eos.place t entry.1 = address with
  | some entry => return entry.2
  | none => throw .undefined

/-! ## The caches -/

def ofExcept {α : Type} : Except Fault α → EosDbM α
  | .ok value => pure value
  | .error fault => throw fault

def setCache (r : RowTable) (cache : IteratorCache) : EosDbM PUnit := do
  let eos ← get
  set { eos with caches := Function.update eos.caches r cache }

/-- `cache_table( tab )` -/
def cacheTable (r : RowTable) (tab : Int64) : EosDbM Int := do
  let eos ← get
  let (endIterator, cache) :=
    (eos.caches r).cacheTable tab (eos.place .tableId tab)
  setCache r cache
  return endIterator

/-- `get_table( id )`: a pointer, not yet followed. -/
def getTable (ndebug : Bool) (r : RowTable) (id : Int64) : EosDbM Address := do
  ofExcept (((← get).caches r).getTable ndebug id)

/-- `get( iterator )` -/
def getObject (ndebug : Bool) (r : RowTable) (iterator : Int) :
    EosDbM (indexOf r.type).Value := do
  let address ← ofExcept (((← get).caches r).get ndebug iterator)
  objectAt r.type address

/-- `add( obj )` -/
def addObject (r : RowTable) (id : (indexOf r.type).Id) : EosDbM Int := do
  let eos ← get
  let (iterator, cache) := (eos.caches r).add (eos.place r.type id)
  setCache r cache
  return iterator

/-- `remove( iterator )` -/
def removeIterator (ndebug : Bool) (r : RowTable) (iterator : Int) :
    EosDbM PUnit := do
  setCache r (← ofExcept (((← get).caches r).remove ndebug iterator))

/-! ## Tables -/

def findTable (code : Name) (scope : Sha256) (table : Name) :
    EosDbM (Option TableIdObject) := do
  let tables ← indices .tableId
  return tables.findBy TableIdObject.codeScopeTable (code, scope, table)

/-- The object that the constructors of both functions below build. -/
def newTable (code : Name) (scope : Sha256) (table payer : Name)
    (value : Bytes) (block : Block) : TableIdObject :=
  { id := block.unset
    code := code
    scope := scope
    table := table
    payer := payer
    count := 0
    value := value }

def findOrCreateTable (code : Name) (scope : Sha256) (table payer : Name)
    (block : Block) : EosDbM Int64 := do
  match ← findTable code scope table with
  | some existing => return existing.id
  | none =>
      let new := newTable code scope table payer [] block
      create .tableId block new
      return new.id

def dbStoreByScope (code : Name) (scope : Sha256) (table payer : Name)
    (buffer : Bytes) (block : Block) : EosDbM Int64 := do
  let new := newTable code scope table payer buffer block
  create .tableId block new
  return new.id

def dbUpdateByScope (iterator : Int64) (payer : Name) (buffer : Bytes) :
    EosDbM PUnit :=
  modify .tableId iterator fun t => { t with value := buffer, payer := payer }

/-! ## Rows -/

/-- The body that `db_store_i64` and `store` of the secondary indices share:
`newRow` is the object that the constructor builds for a table. -/
def storeRow (r : RowTable) (code : Name) (scope : Sha256)
    (table payer : Name) (newRow : Int64 → (indexOf r.type).Value)
    (memory : Memory) : EosDbM Int := do
  let tab ← findOrCreateTable code scope table payer memory.table
  create r.type memory.row (newRow tab)
  modify .tableId tab fun t => { t with count := t.count + 1 }
  let _ ← cacheTable r tab
  addObject r ((indexOf r.type).id (newRow tab))

/-- The count of the table goes down and the row is removed. -/
def dropRow (r : RowTable) (row : (indexOf r.type).Id) (tableObj : Int64) :
    EosDbM PUnit := do
  modify .tableId tableObj fun t => { t with count := t.count - 1 }
  remove r.type row

def dbStoreI64 (code : Name) (scope : Sha256) (table payer : Name)
    (id : UInt64) (buffer : Bytes) (memory : Memory) : EosDbM Int :=
  storeRow .keyValue code scope table payer
    (fun tab =>
      { id := id.toInt64
        tId := tab
        primaryKey := id
        payer := payer
        value := buffer })
    memory

/-- What `db_update_i64` does to the row that it found. -/
def updateI64Row (row : Int64) (payer : Name) (buffer : Bytes) :
    EosDbM PUnit :=
  modify .keyValue row fun o => { o with value := buffer, payer := payer }

def dbUpdateI64 (ndebug : Bool) (iterator : Int) (payer : Name)
    (buffer : Bytes) : EosDbM PUnit := do
  let obj ← getObject ndebug .keyValue iterator
  updateI64Row obj.id payer buffer

/-- What `db_remove_i64` does to the row and the table that it found: the
table goes with its last row. -/
def removeI64Row (row tableObj : Int64) : EosDbM PUnit := do
  dropRow .keyValue row tableObj
  match (← indices .tableId).find tableObj with
  | none => throw .undefined
  | some table => if table.count = 0 then remove .tableId tableObj

def dbRemoveI64 (ndebug : Bool) (iterator : Int) : EosDbM PUnit := do
  let obj ← getObject ndebug .keyValue iterator
  let tableObj ← objectAt .tableId (← getTable ndebug .keyValue obj.tId)
  removeI64Row obj.id tableObj.id
  removeIterator ndebug .keyValue iterator

/-- The returned size and what was copied to the buffer. -/
def dbGetI64 (ndebug : Bool) (iterator : Int) (bufferSize : Nat) :
    EosDbM (Int × Bytes) := do
  let obj ← getObject ndebug .keyValue iterator
  if bufferSize = 0 then
    return (toInt32 obj.value.length, [])
  else
    let copySize := min bufferSize obj.value.length
    return (toInt32 copySize, obj.value.take copySize)

def dbFindI64 (code : Name) (scope : Sha256) (table : Name) (id : UInt64) :
    EosDbM Int := do
  match ← findTable code scope table with
  | none => return -1
  | some tab =>
      let tableEnd ← cacheTable .keyValue tab.id
      let rows ← indices .keyValue
      match rows.findBy KeyValueObject.scopePrimary (tab.id, id) with
      | none => return tableEnd
      | some obj => addObject .keyValue obj.id

/-! ## Secondary indices -/

def idxStore (kind : IndexKind) (code : Name) (scope : Sha256)
    (table payer : Name) (id : UInt64) (value : SecondaryKey kind)
    (memory : Memory) : EosDbM Int :=
  storeRow (.index kind) code scope table payer
    (fun tab =>
      { id := memory.row.unset
        tId := tab
        primaryKey := id
        secondaryKey := value
        payer := payer })
    memory

def idxRemove (ndebug : Bool) (kind : IndexKind) (iterator : Int) :
    EosDbM PUnit := do
  let obj ← getObject ndebug (.index kind) iterator
  let tableObj ← objectAt .tableId (← getTable ndebug (.index kind) obj.tId)
  dropRow (.index kind) obj.id tableObj.id
  removeIterator ndebug (.index kind) iterator

/-- What `update` does to the row that it found. -/
def updateIdxRow (kind : IndexKind) (row : Int64) (payer : Name)
    (secondary : SecondaryKey kind) : EosDbM PUnit :=
  modify (.index kind) row fun o =>
    { o with secondaryKey := secondary, payer := payer }

def idxUpdate (ndebug : Bool) (kind : IndexKind) (iterator : Int)
    (payer : Name) (secondary : SecondaryKey kind) : EosDbM PUnit := do
  let obj ← getObject ndebug (.index kind) iterator
  let _ ← getTable ndebug (.index kind) obj.tId
  updateIdxRow kind obj.id payer secondary

end EosDb

end StateDatabase
