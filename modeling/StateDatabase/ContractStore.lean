import Mathlib
import StateDatabase.KeyValueApi

/-!
# What the contract tables are for

The tables of `eos_db` as maps: the tables by their names, the rows of the
primary table and of the secondary indices by the name of their table and their
primary key, and the records by the hash of their key.  There are no ids, no
addresses, no counts and no iterators.

Two things can be seen from here all the same.  A primary key that some table
uses is taken in every table, because it is the id of the row.  And a table goes
with its last row when that is a primary row, but not when it is a row of a
secondary index.
-/

namespace StateDatabase

open GenericIndex

/-- What is stored in a row, besides its key. -/
@[reducible]
def RowTable.Content : RowTable → Type
  | .keyValue => Name × Bytes
  | .index kind => Name × SecondaryKey kind

def RowTable.payer : (r : RowTable) → r.Content → Name
  | .keyValue => Prod.fst
  | .index _ => Prod.fst

/-- The name of a table and a primary key. -/
abbrev StoreKey := TableName × UInt64

@[ext]
structure ContractStore where
  /-- the payer and the value of every table -/
  tables : TableName → Option (Name × Bytes)
  rows : (r : RowTable) → StoreKey → Option r.Content
  /-- the payer and the value of every record -/
  records : Sha256 → Option (Sha256 × Bytes)

namespace ContractStore

def empty : ContractStore :=
  { tables := fun _ => none
    rows := fun _ _ => none
    records := fun _ => none }

variable (store : ContractStore)

def putTable (name : TableName) (content : Option (Name × Bytes)) :
    ContractStore :=
  { store with tables := Function.update store.tables name content }

def putRow (r : RowTable) (key : StoreKey) (content : Option r.Content) :
    ContractStore :=
  { store with
    rows := Function.update store.rows r
      (Function.update (store.rows r) key content) }

def putRecord (id : Sha256) (content : Option (Sha256 × Bytes)) :
    ContractStore :=
  { store with records := Function.update store.records id content }

/-- A table that is not there is made without a value. -/
def locate (name : TableName) (payer : Name) : ContractStore :=
  if (store.tables name).isSome then store
  else store.putTable name (some (payer, []))

/-- No row can be stored under the key. -/
def Taken : (r : RowTable) → StoreKey → Prop
  | .keyValue, key => ∃ name, store.rows .keyValue (name, key.2) ≠ none
  | .index kind, key => store.rows (.index kind) key ≠ none

def HasRows (name : TableName) : Prop :=
  ∃ r id, store.rows r (name, id) ≠ none

section Fields

variable {name : TableName} {payer : Name} {r : RowTable} {key : StoreKey}

@[simp]
theorem locate_rows : (store.locate name payer).rows = store.rows := by
  unfold locate
  split
  · rfl
  · rfl

@[simp]
theorem locate_records : (store.locate name payer).records = store.records := by
  unfold locate
  split
  · rfl
  · rfl

/-- A new table takes no key. -/
@[simp]
theorem taken_locate_iff :
    (store.locate name payer).Taken r key ↔ store.Taken r key := by
  cases r with
  | keyValue => simp [Taken]
  | index kind => simp [Taken]

end Fields

open Classical in
/-- A removed primary row takes a table without rows with it. -/
noncomputable def dropTable (r : RowTable) (name : TableName) :
    ContractStore :=
  if r = .keyValue ∧ ¬ store.HasRows name then store.putTable name none
  else store

end ContractStore

/-! ## Calls -/

/-- The calls with the names of what they are about. -/
inductive StoreCall where
  | findOrCreateTable (name : TableName) (payer : Name)
  | storeByScope (name : TableName) (payer : Name) (value : Bytes)
  | updateByScope (name : TableName) (payer : Name) (value : Bytes)
  | storeRow (r : RowTable) (key : StoreKey) (content : r.Content)
  | updateRow (r : RowTable) (key : StoreKey) (content : r.Content)
  | removeRow (r : RowTable) (key : StoreKey)
  | findRow (key : StoreKey)
  | getRow (key : StoreKey) (bufferSize : Nat)
  | storeRecord (id payer : Sha256) (value : Bytes)
  | updateRecord (id payer : Sha256) (value : Bytes)
  | removeRecord (id : Sha256)
  | findRecord (id : Sha256)

/-- What a caller learns from a call. -/
inductive Answer where
  | done
  /-- an iterator: whether it is the iterator of a row -/
  | row (isRow : Bool)
  | copied (size : Int) (buffer : Bytes)
  | record (content : Option (Sha256 × Bytes))

/-- What a call that is answered leaves. -/
abbrev Answered := Except Fault Answer × ContractStore

namespace StoreCall

/-- The size and the bytes that `db_get_i64` copies. -/
def copyOf (value : Bytes) (bufferSize : Nat) : Answer :=
  if bufferSize = 0 then .copied (toInt32 value.length) []
  else .copied (toInt32 (min bufferSize value.length : Nat))
    (value.take (min bufferSize value.length))

open Classical in
noncomputable def run (ndebug : Bool) (store : ContractStore) :
    StoreCall → Answered
  | .findOrCreateTable name payer => (.ok .done, store.locate name payer)
  | .storeByScope name payer value =>
      if (store.tables name).isSome then
        (.error (.logicError uniquenessMessage), store)
      else (.ok .done, store.putTable name (some (payer, value)))
  | .updateByScope name payer value =>
      (.ok .done, store.putTable name (some (payer, value)))
  | .storeRow r key content =>
      let located := store.locate key.1 (r.payer content)
      if store.Taken r key then
        (.error (.logicError uniquenessMessage), located)
      else (.ok (.row true), located.putRow r key (some content))
  | .updateRow r key content =>
      (.ok .done, store.putRow r key (some content))
  | .removeRow r key =>
      (.ok .done, (store.putRow r key none).dropTable r key.1)
  | .findRow key => (.ok (.row (store.rows .keyValue key).isSome), store)
  | .getRow key bufferSize =>
      (.ok (copyOf ((store.rows .keyValue key).elim [] Prod.snd) bufferSize),
        store)
  | .storeRecord id payer value =>
      if (store.records id).isSome then
        (.error (if ndebug then .logicError uniquenessMessage
          else .assertion "object key alreay exist"), store)
      else (.ok .done, store.putRecord id (some (payer, value)))
  | .updateRecord id payer value =>
      if (store.records id).isSome then
        (.ok .done, store.putRecord id (some (payer, value)))
      else (.error (.failedAssert ndebug "object key not found"), store)
  | .removeRecord id =>
      if (store.records id).isSome then
        (.ok .done, store.putRecord id none)
      else (.error (.failedAssert ndebug "object key not found"), store)
  | .findRecord id => (.ok (.record (store.records id)), store)

end StoreCall

namespace ContractStore

/-- The store after some calls, and their answers. -/
noncomputable def transcript (ndebug : Bool) (calls : List StoreCall) :
    ContractStore × List (Except Fault Answer) :=
  calls.foldl (fun reached call =>
    ((call.run ndebug reached.1).2,
      reached.2 ++ [(call.run ndebug reached.1).1])) (empty, [])

@[simp]
theorem transcript_concat (ndebug : Bool) (calls : List StoreCall)
    (call : StoreCall) :
    transcript ndebug (calls ++ [call]) =
      ((call.run ndebug (transcript ndebug calls).1).2,
        (transcript ndebug calls).2 ++
          [(call.run ndebug (transcript ndebug calls).1).1]) := by
  simp [transcript, List.foldl_append]

/-! ## Tables apart -/

/-- Everything of one table. -/
structure SameTable (name : TableName) (before after : ContractStore) :
    Prop where
  table : after.tables name = before.tables name
  rows : ∀ r id, after.rows r (name, id) = before.rows r (name, id)

end ContractStore

/-- The table that a call may change. -/
def StoreCall.table : StoreCall → Option TableName
  | .findOrCreateTable name _ => some name
  | .storeByScope name _ _ => some name
  | .updateByScope name _ _ => some name
  | .storeRow _ key _ => some key.1
  | .updateRow _ key _ => some key.1
  | .removeRow _ key => some key.1
  | _ => none

namespace ContractStore

variable {store : ContractStore} {name other : TableName}

theorem SameTable.refl (name : TableName) (store : ContractStore) :
    SameTable name store store :=
  ⟨rfl, fun _ _ => rfl⟩

theorem SameTable.trans {middle after : ContractStore}
    (first : SameTable name store middle)
    (second : SameTable name middle after) : SameTable name store after :=
  ⟨second.table.trans first.table,
    fun r id => (second.rows r id).trans (first.rows r id)⟩

theorem sameTable_putTable (different : other ≠ name)
    (content : Option (Name × Bytes)) :
    SameTable name store (store.putTable other content) :=
  ⟨Function.update_of_ne (Ne.symm different) _ _, fun _ _ => rfl⟩

theorem sameTable_putRow {r : RowTable} {key : StoreKey}
    (different : key.1 ≠ name) (content : Option r.Content) :
    SameTable name store (store.putRow r key content) where
  table := rfl
  rows := by
    intro tested id
    have otherKey : (name, id) ≠ key := by
      intro same
      rw [← same] at different
      exact different rfl
    by_cases sameTable : tested = r
    · subst sameTable
      simp [putRow, Function.update_of_ne otherKey]
    · simp [putRow, Function.update_of_ne sameTable]

theorem sameTable_locate (different : other ≠ name) (payer : Name) :
    SameTable name store (store.locate other payer) := by
  unfold locate
  split
  · exact .refl name store
  · exact sameTable_putTable different _

theorem sameTable_dropTable (different : other ≠ name) (r : RowTable) :
    SameTable name store (store.dropTable r other) := by
  unfold dropTable
  split
  · exact sameTable_putTable different none
  · exact .refl name store

/-- A call leaves the tables alone that it does not name. -/
theorem sameTable_run (ndebug : Bool) {call : StoreCall}
    (different : call.table ≠ some name) :
    SameTable name store (call.run ndebug store).2 := by
  cases call with
  | findOrCreateTable other payer =>
      exact sameTable_locate (fun same => different (congrArg some same)) payer
  | storeByScope other payer value =>
      simp only [StoreCall.run]
      split
      · exact .refl name store
      · exact sameTable_putTable (fun same => different (congrArg some same)) _
  | updateByScope other payer value =>
      exact sameTable_putTable (fun same => different (congrArg some same)) _
  | storeRow r key content =>
      have otherTable : key.1 ≠ name := fun same =>
        different (congrArg some same)
      have located : SameTable name store
          (store.locate key.1 (r.payer content)) :=
        sameTable_locate otherTable (r.payer content)
      simp only [StoreCall.run]
      split
      · exact located
      · exact located.trans (sameTable_putRow otherTable _)
  | updateRow r key content =>
      exact sameTable_putRow (fun same => different (congrArg some same)) _
  | removeRow r key =>
      have otherTable : key.1 ≠ name := fun same =>
        different (congrArg some same)
      exact (sameTable_putRow otherTable none).trans
        (sameTable_dropTable otherTable r)
  | findRow key => exact .refl name store
  | getRow key bufferSize => exact .refl name store
  | storeRecord id payer value =>
      simp only [StoreCall.run]
      split
      · exact .refl name store
      · exact ⟨rfl, fun _ _ => rfl⟩
  | updateRecord id payer value =>
      simp only [StoreCall.run]
      split
      · exact ⟨rfl, fun _ _ => rfl⟩
      · exact .refl name store
  | removeRecord id =>
      simp only [StoreCall.run]
      split
      · exact ⟨rfl, fun _ _ => rfl⟩
      · exact .refl name store
  | findRecord id => exact .refl name store

theorem sameTable_transcript (ndebug : Bool) (earlier : List StoreCall)
    {later : List StoreCall}
    (different : ∀ call ∈ later, call.table ≠ some name) :
    SameTable name (transcript ndebug earlier).1
      (transcript ndebug (earlier ++ later)).1 := by
  induction later using List.reverseRecOn with
  | nil =>
      rw [List.append_nil]
      exact .refl name _
  | append_singleton later call inductionHypothesis =>
      rw [← List.append_assoc, transcript_concat]
      have before := inductionHypothesis fun made member =>
        different made (List.mem_append_left _ member)
      have last := different call (by simp)
      exact before.trans (sameTable_run ndebug last)

end ContractStore

end StateDatabase
