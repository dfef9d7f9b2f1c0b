import Mathlib
import StateDatabase.Library.Runs
import StateDatabase.Traversal
import StateDatabase.UndoneIterators
import StateDatabase.RowLookup

/-!
# The primary table as a map

What a program knows of the primary table from the calls that have returned to
it: the rows by the name of the table and the primary key, what each iterator
was returned for, and which iterators it has removed.  The `eos_db` keeps the
same rows, and an iterator that was not removed leads to the row that it was
returned for.

An entry of `keyval_cache` that was removed stays empty, so an address that is
used again gets another iterator.
-/

namespace StateDatabase

open Programs GenericIndex EosDb

/-! ## What the program knows -/

/-- The name of a table and a primary key. -/
abbrev RowKey := TableName × UInt64

structure PrimaryLog where
  /-- the payer and the bytes of every row -/
  rows : RowKey → Option (Name × Bytes)
  /-- the iterators, with what they were returned for -/
  issued : List (Int × RowKey)
  removed : List Int

namespace PrimaryLog

def keyOf (log : PrimaryLog) (iterator : Int) : Option RowKey :=
  log.issued.lookup iterator

def put (log : PrimaryLog) (key : RowKey) (content : Option (Name × Bytes)) :
    PrimaryLog :=
  { log with rows := Function.update log.rows key content }

def issue (log : PrimaryLog) (iterator : Int) (key : RowKey) : PrimaryLog :=
  { log with issued := (iterator, key) :: log.issued }

/-- A call that has returned. -/
def after (log : PrimaryLog) (call : EosCall) (reply : Reply) : PrimaryLog :=
  match call, reply with
  | .dbStoreI64 code scope table payer id buffer _, .iterator value =>
      (log.put ((code, scope, table), id) (some (payer, buffer))).issue value
        ((code, scope, table), id)
  | .dbFindI64 code scope table id, .iterator value =>
      if 0 ≤ value then log.issue value ((code, scope, table), id) else log
  | .dbUpdateI64 iterator payer buffer, _ =>
      match log.keyOf iterator with
      | some key => log.put key (some (payer, buffer))
      | none => log
  | .dbRemoveI64 iterator, _ =>
      match log.keyOf iterator with
      | some key =>
          { log.put key none with removed := iterator :: log.removed }
      | none => log
  | _, _ => log

section Find

variable (log : PrimaryLog) {code : Name} {scope : Sha256} {table : Name}
  {id : UInt64} {value : Int}

/-- An end iterator is not for a row. -/
theorem after_dbFindI64_end (isEnd : value < -1) :
    log.after (.dbFindI64 code scope table id) (.iterator value) = log :=
  if_neg (by omega)

theorem after_dbFindI64_row (position : Nat) :
    log.after (.dbFindI64 code scope table id) (.iterator position) =
      log.issue position ((code, scope, table), id) := by
  have nonnegative : (0 : Int) ≤ position := Int.natCast_nonneg position
  change (if (0 : Int) ≤ position then
    log.issue position ((code, scope, table), id) else log) = _
  exact if_pos nonnegative

end Find

end PrimaryLog

namespace EosDb

/-- The rows by the name of their table and their primary key. -/
def primaryRows (eos : EosDb) (key : RowKey) : Option KeyValueObject :=
  eos.rowOf key.1 key.2

/-- Fewer than 2^31 iterators of rows and of ends have been issued. -/
def FewIterators (eos : EosDb) : Prop :=
  eos.keyvalEntries.length < 2 ^ 31 ∧
    (eos.caches .keyValue).endIteratorToTable.length < 2 ^ 31

instance (eos : EosDb) : Decidable eos.FewIterators :=
  inferInstanceAs (Decidable (eos.keyvalEntries.length < 2 ^ 31 ∧
    (eos.caches .keyValue).endIteratorToTable.length < 2 ^ 31))

/-- Calls through the iterator read, change and remove this row and no
other. -/
structure StandsFor (ndebug : Bool) (eos : EosDb) (iterator : Int)
    (key : RowKey) (row : KeyValueObject) : Prop where
  found : eos.primaryRows key = some row
  update : ∀ payer buffer, ∃ final,
    dbUpdateI64 ndebug iterator payer buffer eos = .ok ⟨⟩ final ∧
      final.primaryRows = Function.update eos.primaryRows key
        (some { row with value := buffer, payer := payer })
  get : ∀ bufferSize, dbGetI64 ndebug iterator bufferSize eos =
    .ok (if bufferSize = 0 then (row.value.length, [])
      else ((min bufferSize row.value.length : Nat),
        row.value.take bufferSize)) eos
  remove : ∃ final, dbRemoveI64 ndebug iterator eos = .ok ⟨⟩ final ∧
    final.primaryRows = Function.update eos.primaryRows key none

/-- Every use of the iterator fails the assertion. -/
structure DeletedObject (ndebug : Bool) (eos : EosDb) (iterator : Int) :
    Prop where
  update : ∀ payer buffer, dbUpdateI64 ndebug iterator payer buffer eos =
    .error (.failedAssert ndebug "dereference of deleted object") eos
  get : ∀ bufferSize, dbGetI64 ndebug iterator bufferSize eos =
    .error (.failedAssert ndebug "dereference of deleted object") eos
  remove : dbRemoveI64 ndebug iterator eos =
    .error (.failedAssert ndebug "dereference of deleted object") eos

/-- What `db_find_i64` returns for a row, without the row and without the
table. -/
structure FindsExactly (eos : EosDb) (code : Name) (scope : Sha256)
    (table : Name) (id : UInt64) : Prop where
  row : eos.primaryRows ((code, scope, table), id) ≠ none →
    ∃ iterator final, dbFindI64 code scope table id eos =
        .ok iterator final ∧
      (final.FewIterators → 0 ≤ iterator)
  noRow : eos.primaryRows ((code, scope, table), id) = none →
    eos.tableNamed (code, scope, table) ≠ none →
      ∃ tableEnd final, dbFindI64 code scope table id eos =
          .ok tableEnd final ∧
        dbEndI64 code scope table eos = .ok tableEnd final ∧
        (final.FewIterators → tableEnd < -1)
  noTable : eos.tableNamed (code, scope, table) = none →
    dbFindI64 code scope table id eos = .ok (-1) eos

end EosDb

namespace PrimaryLog

/-- The program is right about the `eos_db`. -/
structure Describes (log : PrimaryLog) (ndebug : Bool) (eos : EosDb) :
    Prop where
  rows : ∀ key, log.rows key =
    (eos.primaryRows key).map fun row => (row.payer, row.value)
  stored : ∀ (rowId : Int64) (row : KeyValueObject),
    (eos.db.rows .keyValue).rows[rowId]? = some row →
      ∃ name, eos.primaryRows (name, row.primaryKey) = some row
  issued : ∀ iterator key, (iterator, key) ∈ log.issued →
    0 ≤ iterator ∧ (iterator ∉ log.removed →
      ∃ row, eos.StandsFor ndebug iterator key row)
  removed : ∀ iterator ∈ log.removed, eos.DeletedObject ndebug iterator
  finds : ∀ code scope table id, eos.FindsExactly code scope table id

end PrimaryLog

/-! ## Rows by key -/

namespace EosDb

variable {eos final : EosDb} {used : List Int64} {name : TableName}
  {row new : KeyValueObject} {rowId : Int64} {address : Address} {key : RowKey}
  {position : Nat} {iterator : Int}

/-- A change of the row with one key. -/
theorem primaryRows_update {changed : Option KeyValueObject} {id : UInt64}
    (rows : ∀ (other : TableName) (tested : UInt64),
      final.rowOf other tested =
        if other = name ∧ tested = id then changed
        else eos.rowOf other tested) :
    final.primaryRows = Function.update eos.primaryRows (name, id) changed := by
  funext tested
  rw [primaryRows, rows, Function.update_apply]
  have sameKey : tested.1 = name ∧ tested.2 = id ↔ tested = (name, id) :=
    (@Prod.ext_iff _ _ tested (name, id)).symm
  exact if_congr sameKey rfl rfl

theorem Located.primaryRows {tab : Int64}
    (located : eos.Located used name tab final)
    (consistent : eos.Consistent used) :
    final.primaryRows = eos.primaryRows := by
  funext key
  exact located.rowOf consistent key.1 key.2

theorem primaryRows_eq_some_iff :
    eos.primaryRows key = some row ↔
      eos.HasName row.tId key.1 ∧
      (eos.db.rows .keyValue).rows[row.id]? = some row ∧
      row.primaryKey = key.2 :=
  rowOf_eq_some_iff

/-- The row with this key stands at the address. -/
def LeadsTo (eos : EosDb) (address : Address) (key : RowKey) : Prop :=
  ∃ row, eos.primaryRows key = some row ∧ eos.place .keyValue row.id = address

/-- The row behind an iterator is the row with the key that the iterator leads
to. -/
theorem LeadsTo.primaryRows {tableObj : TableIdObject}
    (leads : eos.LeadsTo address key) (consistent : eos.Consistent used)
    (holds : eos.Holds .keyValue position address rowId row tableObj) :
    eos.primaryRows key = some row := by
  rcases leads with ⟨other, isRow, isAddress⟩
  have isStored := (primaryRows_eq_some_iff.mp isRow).2.1
  have found : (eos.db.rows .keyValue).rows[rowId]? = some row := holds.found
  have stays : (eos.db.rows .keyValue).rows[rowId]? ≠ none := by
    rw [found]
    exact Option.some_ne_none row
  have otherStays : (eos.db.rows .keyValue).rows[other.id]? ≠ none := by
    rw [isStored]
    exact Option.some_ne_none other
  have sameId : other.id = rowId :=
    consistent.apart .keyValue other.id rowId otherStays stays
      (isAddress.trans holds.isAddress.symm)
  rw [sameId, found] at isStored
  rw [isRow, isStored]

end EosDb

/-! ## Entries and what they were issued for -/

/-- The address has an entry at the position, and no other entry is new. -/
structure EntryAdded (before after : List (Option Address)) (position : Nat)
    (address : Address) : Prop where
  stays : ∀ (tested : Nat) (entry : Option Address),
    before[tested]? = some entry → after[tested]? = some entry
  onlyNew : ∀ (tested : Nat) (other : Address),
    after[tested]? = some (some other) →
      before[tested]? = some (some other) ∨ tested = position
  live : after[position]? = some (some address)

theorem EntryAdded.length_le {before after : List (Option Address)}
    {position : Nat} {address : Address}
    (added : EntryAdded before after position address) :
    before.length ≤ after.length := by
  by_contra shorter
  have inside : after.length < before.length := by omega
  have stays := added.stays after.length _ (List.getElem?_eq_getElem inside)
  rw [List.getElem?_eq_none (le_refl after.length)] at stays
  cases stays

theorem entryAdded_append (entries : List (Option Address))
    (address : Address) :
    EntryAdded entries (entries ++ [some address]) entries.length address where
  stays := by
    intro tested entry isEntry
    have inside := (List.getElem?_eq_some_iff.mp isEntry).1
    rw [List.getElem?_append_left inside]
    exact isEntry
  onlyNew := by
    intro tested other isLive
    by_cases inside : tested < entries.length
    · rw [List.getElem?_append_left inside] at isLive
      exact Or.inl isLive
    · have within := (List.getElem?_eq_some_iff.mp isLive).1
      rw [List.length_append, List.length_singleton] at within
      exact Or.inr (by omega)
  live := List.getElem?_concat_length

/-- With fewer than 2^31 entries, `add` returns the position of the address. -/
theorem entryAdded_add {cache : IteratorCache} (mirrored : cache.Mirrored)
    (address : Address) (few : cache.iteratorToObject.length < 2 ^ 31) :
    ∃ position : Nat, (cache.add address).1 = position ∧
      EntryAdded cache.iteratorToObject
        (cache.add address).2.iteratorToObject position address := by
  rcases mirrored.add_position address few with ⟨position, isPosition, _, live⟩
  rcases mirrored.add_cases address with ⟨stillMirrored, cases⟩
  refine ⟨position, isPosition, ?_, ?_, live⟩
  · intro tested entry isEntry
    have inside := (List.getElem?_eq_some_iff.mp isEntry).1
    unfold IteratorCache.add
    split
    · exact isEntry
    · rw [List.getElem?_append_left inside]
      exact isEntry
  · intro tested other isLive
    rcases cases tested other isLive with wasLive | isAddress
    · exact Or.inl wasLive
    · rw [isAddress] at isLive
      exact Or.inr (stillMirrored.unique isLive live)

namespace PrimaryLog

/-- The rows are known, and an entry of `keyval_cache` is empty when its
iterator was removed, and otherwise leads to the row that the iterator was
returned for. -/
structure Knows (log : PrimaryLog) (eos : EosDb) : Prop where
  rows : ∀ key, log.rows key =
    (eos.primaryRows key).map fun row => (row.payer, row.value)
  issued : ∀ iterator key, (iterator, key) ∈ log.issued →
    iterator ∈ log.removed ∨
      ∃ (position : Nat) (address : Address), iterator = position ∧
        eos.keyvalEntries[position]? = some (some address) ∧
        eos.LeadsTo address key
  removed : ∀ iterator ∈ log.removed, ∃ position : Nat, iterator = position ∧
    eos.keyvalEntries[position]? = some none
  known : ∀ (position : Nat) (address : Address),
    eos.keyvalEntries[position]? = some (some address) →
      ∃ key, ((position : Int), key) ∈ log.issued

section Knows

variable {eos final : EosDb} {log next : PrimaryLog} {used : List Int64}
  {name : TableName} {row new : KeyValueObject} {rowId : Int64}
  {address : Address} {key : RowKey} {position : Nat} {iterator : Int}

/-- The log has a key for the iterator of a row, which is the key of the
row. -/
theorem Knows.keyOf (knows : log.Knows eos)
    (live : eos.keyvalEntries[position]? = some (some address)) :
    ∃ key, log.keyOf position = some key ∧ eos.LeadsTo address key := by
  rcases knows.known position address live with ⟨issuedKey, isIssued⟩
  cases looked : log.keyOf position with
  | none =>
      have never := List.lookup_eq_none_iff.mp looked
      exact absurd (never _ isIssued) (by simp)
  | some key =>
      refine ⟨key, rfl, ?_⟩
      rcases List.lookup_eq_some_iff.mp looked with ⟨before, behind, split, _⟩
      have member : ((position : Int), key) ∈ log.issued := by
        rw [split]
        exact List.mem_append_right before List.mem_cons_self
      rcases knows.issued _ key member with isRemoved | isLive
      · rcases knows.removed _ isRemoved with ⟨other, same, isEmpty⟩
        have samePosition : position = other := Int.ofNat.inj same
        rw [← samePosition, live] at isEmpty
        cases isEmpty
      · rcases isLive with ⟨other, otherAddress, same, isLive, leads⟩
        have samePosition : position = other := Int.ofNat.inj same
        rw [← samePosition, live] at isLive
        cases isLive
        exact leads

/-- One row is stored, changed or removed, here and there. -/
theorem Knows.rows_put (knows : log.Knows eos)
    {changed : Option KeyValueObject}
    (rows : final.primaryRows = Function.update eos.primaryRows key changed)
    (tested : RowKey) :
    (log.put key (changed.map fun row => (row.payer, row.value))).rows tested =
      (final.primaryRows tested).map fun row => (row.payer, row.value) := by
  rw [rows]
  change Function.update log.rows key _ tested = _
  by_cases same : tested = key
  · rw [same, Function.update_self, Function.update_self]
  · rw [Function.update_of_ne same, Function.update_of_ne same]
    exact knows.rows tested

/-- Nothing is issued or removed, and the rows that are led to stay. -/
theorem Knows.kept (knows : log.Knows eos)
    (rows : ∀ key, next.rows key =
      (final.primaryRows key).map fun row => (row.payer, row.value))
    (sameIssued : next.issued = log.issued)
    (sameRemoved : next.removed = log.removed)
    (entries : final.keyvalEntries = eos.keyvalEntries)
    (leads : ∀ address key, eos.LeadsTo address key →
      final.LeadsTo address key) :
    next.Knows final where
  rows := rows
  issued := by
    intro iterator key isIssued
    rw [sameIssued] at isIssued
    rw [sameRemoved, entries]
    rcases knows.issued iterator key isIssued with isRemoved | isLive
    · exact Or.inl isRemoved
    · rcases isLive with ⟨position, address, isPosition, live, isKey⟩
      exact Or.inr ⟨position, address, isPosition, live, leads _ _ isKey⟩
  removed := by
    rw [sameRemoved, entries]
    exact knows.removed
  known := by
    rw [sameIssued, entries]
    exact knows.known

/-- The rows and the entries are as before. -/
theorem Knows.same (knows : log.Knows eos)
    (rows : final.primaryRows = eos.primaryRows)
    (place : final.place .keyValue = eos.place .keyValue)
    (entries : final.keyvalEntries = eos.keyvalEntries) :
    log.Knows final := by
  apply knows.kept _ rfl rfl entries
  · intro address key leads
    rw [LeadsTo, rows, place]
    exact leads
  · intro key
    rw [rows]
    exact knows.rows key

/-- An iterator is returned for a row.  Its entry may have been there. -/
theorem Knows.issue (knows : log.Knows eos)
    (rows : ∀ key, next.rows key =
      (final.primaryRows key).map fun row => (row.payer, row.value))
    (isIssued : next.issued = ((position : Int), key) :: log.issued)
    (sameRemoved : next.removed = log.removed)
    (added : EntryAdded eos.keyvalEntries final.keyvalEntries position address)
    (leads : ∀ address key, eos.LeadsTo address key →
      final.LeadsTo address key)
    (isKey : final.LeadsTo address key) :
    next.Knows final where
  rows := rows
  issued := by
    intro tested testedKey isTested
    rw [isIssued] at isTested
    rw [sameRemoved]
    rcases List.mem_cons.mp isTested with isNew | wasIssued
    · cases isNew
      exact Or.inr ⟨position, address, rfl, added.live, isKey⟩
    · rcases knows.issued tested testedKey wasIssued with isRemoved | isLive
      · exact Or.inl isRemoved
      · rcases isLive with ⟨other, otherAddress, isOther, live, isKey⟩
        exact Or.inr ⟨other, otherAddress, isOther,
          added.stays other _ live, leads _ _ isKey⟩
  removed := by
    intro tested isRemoved
    rw [sameRemoved] at isRemoved
    rcases knows.removed tested isRemoved with ⟨other, isOther, isEmpty⟩
    exact ⟨other, isOther, added.stays other _ isEmpty⟩
  known := by
    intro tested testedAddress isLive
    rw [isIssued]
    rcases added.onlyNew tested testedAddress isLive with wasLive | isNew
    · rcases knows.known tested testedAddress wasLive with ⟨oldKey, wasIssued⟩
      exact ⟨oldKey, List.mem_cons_of_mem _ wasIssued⟩
    · rw [isNew]
      exact ⟨key, List.mem_cons_self⟩

end Knows

end PrimaryLog

/-! ## Calls and what they leave -/

namespace EosDb

variable {eos final : EosDb} {log : PrimaryLog} {used : List Int64}
  {name : TableName} {row new : KeyValueObject} {rowId : Int64}
  {address : Address} {key : RowKey} {position : Nat} {iterator : Int}

/-! ### Storing -/

theorem Stored.primaryRows (consistent : eos.Consistent used)
    (stored : eos.Stored used .keyValue name row address iterator final) :
    final.primaryRows =
      Function.update eos.primaryRows (name, row.primaryKey) (some row) :=
  primaryRows_update (stored.rowOf consistent)

theorem Stored.keyvalEntries
    (stored : eos.Stored used .keyValue name row address iterator final) :
    final.keyvalEntries = eos.keyvalEntries ++ [some address] := by
  rcases stored.caches with ⟨tableAddress, isCaches⟩
  rw [EosDb.keyvalEntries, isCaches, Function.update_self]
  simp only [IteratorCache.pushed, IteratorCache.cacheTable_iteratorToObject]
  rfl

/-- A new row takes neither the key nor the address of another one. -/
theorem Stored.leadsTo (consistent : eos.Consistent used)
    (stored : eos.Stored used .keyValue name row address iterator final)
    {other : Address} (leads : eos.LeadsTo other key) :
    final.LeadsTo other key := by
  rcases leads with ⟨old, isRow, isAddress⟩
  have otherKey : key ≠ (name, row.primaryKey) := by
    intro same
    have before : eos.rowOf name row.primaryKey = none := stored.rowOf_before
    rw [same, EosDb.primaryRows, before] at isRow
    cases isRow
  have otherId := (stored.keeps (primaryRows_eq_some_iff.mp isRow).2.1).1
  refine ⟨old, ?_, ?_⟩
  · rw [stored.primaryRows consistent, Function.update_of_ne otherKey]
    exact isRow
  · rw [stored.place]
    exact (Function.update_of_ne otherId.symm _ _).trans isAddress

theorem Stored.leadsTo_new (consistent : eos.Consistent used)
    (stored : eos.Stored used .keyValue name row address iterator final) :
    final.LeadsTo address (name, row.primaryKey) := by
  refine ⟨row, ?_, ?_⟩
  · rw [stored.primaryRows consistent, Function.update_self]
  · rw [stored.place]
    exact Function.update_self _ _ _

/-- A row is stored and its iterator returned. -/
theorem Stored.knows (consistent : eos.Consistent used)
    (stored : eos.Stored used .keyValue name row address iterator final)
    (few : eos.keyvalEntries.length < 2 ^ 31) (knows : log.Knows eos) :
    ((log.put (name, row.primaryKey) (some (row.payer, row.value))).issue
      iterator (name, row.primaryKey)).Knows final := by
  have isIterator : iterator = toInt32 eos.keyvalEntries.length :=
    stored.iterator
  rw [toInt32_eq (by omega) (by omega)] at isIterator
  have added : EntryAdded eos.keyvalEntries final.keyvalEntries
      eos.keyvalEntries.length address := by
    rw [stored.keyvalEntries]
    exact entryAdded_append eos.keyvalEntries address
  rw [isIterator]
  exact knows.issue (knows.rows_put (stored.primaryRows consistent)) rfl rfl
    added (fun _ _ leads => stored.leadsTo consistent leads)
    (stored.leadsTo_new consistent)

/-! ### Updating -/

/-- The row after `db_update_i64`. -/
def updated (row : KeyValueObject) (payer : Name) (buffer : Bytes) :
    KeyValueObject :=
  { row with value := buffer, payer := payer }

section Updates

variable {payer : Name} {buffer : Bytes}

theorem Rewritten.primaryRows
    (rewritten : eos.Rewritten used .keyValue rowId
      (updated row payer buffer) final)
    (found : (eos.db.rows .keyValue).rows[rowId]? = some row)
    (isRow : eos.primaryRows key = some row) :
    final.primaryRows = Function.update eos.primaryRows key
      (some (updated row payer buffer)) := by
  rcases primaryRows_eq_some_iff.mp isRow with ⟨hasName, _, isKey⟩
  have isPair : key = (key.1, row.primaryKey) := Prod.ext rfl isKey.symm
  rw [isPair]
  exact primaryRows_update (rewritten.rowOf found hasName rfl)

theorem Rewritten.leadsTo
    (rewritten : eos.Rewritten used .keyValue rowId
      (updated row payer buffer) final)
    (found : (eos.db.rows .keyValue).rows[rowId]? = some row)
    (isRow : eos.primaryRows key = some row) {other : Address}
    {otherKey : RowKey} (leads : eos.LeadsTo other otherKey) :
    final.LeadsTo other otherKey := by
  rcases leads with ⟨old, isOld, isAddress⟩
  rw [LeadsTo, rewritten.primaryRows found isRow, rewritten.place]
  by_cases same : otherKey = key
  · rw [same] at isOld ⊢
    rw [isRow] at isOld
    cases isOld
    exact ⟨updated row payer buffer, Function.update_self _ _ _, isAddress⟩
  · exact ⟨old, (Function.update_of_ne same _ _).trans isOld, isAddress⟩

theorem Rewritten.knows
    (rewritten : eos.Rewritten used .keyValue rowId
      (updated row payer buffer) final)
    (found : (eos.db.rows .keyValue).rows[rowId]? = some row)
    (isRow : eos.primaryRows key = some row) (knows : log.Knows eos) :
    (log.put key (some (payer, buffer))).Knows final := by
  have entries : final.keyvalEntries = eos.keyvalEntries := by
    rw [keyvalEntries, rewritten.caches]
    rfl
  exact knows.kept (knows.rows_put (rewritten.primaryRows found isRow)) rfl rfl
    entries fun _ _ leads => rewritten.leadsTo found isRow leads

end Updates

/-! ### Removing -/

theorem Removed.primaryRows
    (removed : eos.Removed used .keyValue position address rowId final)
    (found : (eos.db.rows .keyValue).rows[rowId]? = some row)
    (isRow : eos.primaryRows key = some row) :
    final.primaryRows = Function.update eos.primaryRows key none := by
  rcases primaryRows_eq_some_iff.mp isRow with ⟨hasName, _, isKey⟩
  have isPair : key = (key.1, row.primaryKey) := Prod.ext rfl isKey.symm
  rw [isPair]
  exact primaryRows_update (removed.rowOf found hasName)

theorem Removed.keyvalEntries
    (removed : eos.Removed used .keyValue position address rowId final) :
    final.keyvalEntries = eos.keyvalEntries.set position none := by
  rw [EosDb.keyvalEntries, removed.caches, Function.update_self]
  rfl

/-- The row at another address stays. -/
theorem Removed.leadsTo
    (removed : eos.Removed used .keyValue position address rowId final)
    (found : (eos.db.rows .keyValue).rows[rowId]? = some row)
    (isAddress : eos.place .keyValue rowId = address)
    (isRow : eos.primaryRows key = some row) {other : Address}
    {otherKey : RowKey} (different : other ≠ address)
    (leads : eos.LeadsTo other otherKey) :
    final.LeadsTo other otherKey := by
  rcases leads with ⟨old, isOld, isOther⟩
  have differentKey : otherKey ≠ key := by
    intro same
    rw [same, isRow] at isOld
    cases isOld
    have isId : row.id = rowId := (eos.db.rows .keyValue).keyed found
    rw [isId, isAddress] at isOther
    exact different isOther.symm
  rw [LeadsTo, removed.primaryRows found isRow, removed.place]
  exact ⟨old, (Function.update_of_ne differentKey _ _).trans isOld, isOther⟩

theorem Removed.knows (consistent : eos.Consistent used)
    (removed : eos.Removed used .keyValue position address rowId final)
    (live : eos.keyvalEntries[position]? = some (some address))
    (found : (eos.db.rows .keyValue).rows[rowId]? = some row)
    (isAddress : eos.place .keyValue rowId = address)
    (isRow : eos.primaryRows key = some row) (knows : log.Knows eos) :
    PrimaryLog.Knows
      { log.put key none with removed := (position : Int) :: log.removed }
      final where
  rows := knows.rows_put (removed.primaryRows found isRow)
  issued := by
    intro tested testedKey isIssued
    rcases knows.issued tested testedKey isIssued with isRemoved | isLive
    · exact Or.inl (List.mem_cons_of_mem _ isRemoved)
    · rcases isLive with ⟨other, otherAddress, isOther, otherLive, leads⟩
      by_cases same : other = position
      · rw [isOther, same]
        exact Or.inl List.mem_cons_self
      · have different : otherAddress ≠ address := by
          intro sameAddress
          rw [sameAddress] at otherLive
          exact same ((consistent.caches .keyValue).mirrored.unique otherLive
            live)
        refine Or.inr ⟨other, otherAddress, isOther, ?_,
          removed.leadsTo found isAddress isRow different leads⟩
        rw [removed.keyvalEntries, List.getElem?_set_ne (Ne.symm same)]
        exact otherLive
  removed := by
    intro tested isRemoved
    have inside := (List.getElem?_eq_some_iff.mp live).1
    rw [removed.keyvalEntries]
    rcases List.mem_cons.mp isRemoved with isPosition | wasRemoved
    · exact ⟨position, isPosition, List.getElem?_set_self inside⟩
    · rcases knows.removed tested wasRemoved with ⟨other, isOther, isEmpty⟩
      have otherEntry : other ≠ position := by
        intro same
        rw [same, live] at isEmpty
        cases isEmpty
      refine ⟨other, isOther, ?_⟩
      rw [List.getElem?_set_ne (Ne.symm otherEntry)]
      exact isEmpty
  known := by
    intro tested other isLive
    rw [EosDb.keyvalEntries, removed.caches, Function.update_self] at isLive
    exact knows.known tested other
      (IteratorCache.cleared_entry.mp isLive).2

/-! ### Finding -/

section Find

variable {code : Name} {scope : Sha256} {table : Name} {id : UInt64}
  {tab : TableIdObject}

/-- In a table that is there, rows are looked up by its id. -/
theorem primaryRows_of_tableNamed
    (named : eos.tableNamed (code, scope, table) = some tab) :
    eos.primaryRows ((code, scope, table), id) =
      (eos.db.rows .keyValue).findBy KeyValueObject.scopePrimary
        (tab.id, id) := by
  rw [EosDb.primaryRows, rowOf, named]
  rfl

theorem inTable_of_primaryRow
    (named : eos.tableNamed (code, scope, table) = some tab)
    (isRow : eos.primaryRows ((code, scope, table), id) = some row) :
    row.tId = tab.id :=
  (primaryRows_eq_some_iff.mp isRow).1.id_unique (hasName_of_tableNamed named)

theorem dbFindI64_of_primaryRow (ready : eos.db.Ready)
    (named : eos.tableNamed (code, scope, table) = some tab)
    (isRow : eos.primaryRows ((code, scope, table), id) = some row) :
    dbFindI64 code scope table id eos =
      addObject .keyValue row.id (eos.withTable tab.id) := by
  rw [primaryRows_of_tableNamed named] at isRow
  rw [dbFindI64_of_tableNamed ready named, isRow]

theorem dbFindI64_noRow (ready : eos.db.Ready)
    (named : eos.tableNamed (code, scope, table) = some tab)
    (noRow : eos.primaryRows ((code, scope, table), id) = none) :
    dbFindI64 code scope table id eos =
      .ok ((eos.caches .keyValue).cacheTable tab.id
        (eos.place .tableId tab.id)).1 (eos.withTable tab.id) := by
  rw [primaryRows_of_tableNamed named] at noRow
  rw [dbFindI64_of_tableNamed ready named, noRow]

theorem dbEndI64_of_tableNamed (ready : eos.db.Ready)
    (named : eos.tableNamed (code, scope, table) = some tab) :
    dbEndI64 code scope table eos =
      .ok ((eos.caches .keyValue).cacheTable tab.id
        (eos.place .tableId tab.id)).1 (eos.withTable tab.id) := by
  have lookup : (eos.db.rows .tableId).findBy TableIdObject.codeScopeTable
      (code, scope, table) = some tab := named
  rw [dbEndI64, bind_apply_of_ok _ (findTable_apply ready code scope table),
    lookup]
  exact cacheTable_apply tab.id

/-- The end iterator of the table that `db_find_i64` caches. -/
theorem withTable_endIterator_lt (charted : (eos.caches .keyValue).Charted)
    (tableId : Int64) (few : (eos.withTable tableId).FewIterators) :
    ((eos.caches .keyValue).cacheTable tableId
      (eos.place .tableId tableId)).1 < -1 := by
  have few' := few.2
  rw [withTable_cache] at few'
  rcases IteratorCache.cacheTable_endIterator (eos.caches .keyValue) tableId
    (eos.place .tableId tableId) with ⟨tableAddress, cached⟩
  rcases (charted.cacheTable tableId _).entry few' cached with
    ⟨index, isEnd, _⟩
  dsimp only at isEnd
  omega

theorem knows_withTable (knows : log.Knows eos) (tableId : Int64) :
    log.Knows (eos.withTable tableId) :=
  knows.same rfl rfl (withTable_entries tableId)

/-- A row is found and its iterator returned. -/
theorem addObject_knows (consistent : eos.Consistent used)
    (few : eos.keyvalEntries.length < 2 ^ 31)
    (isRow : eos.primaryRows key = some row) (knows : log.Knows eos) :
    ∃ position : Nat, addObject .keyValue row.id eos =
        .ok position (eos.withObject row.id) ∧
      (log.issue position key).Knows (eos.withObject row.id) ∧
      eos.keyvalEntries.length ≤
        (eos.withObject row.id).keyvalEntries.length := by
  rcases entryAdded_add (consistent.caches .keyValue).mirrored
    (eos.place .keyValue row.id) few with ⟨position, isPosition, added⟩
  have entries : EntryAdded eos.keyvalEntries
      (eos.withObject row.id).keyvalEntries position
      (eos.place .keyValue row.id) := by
    rw [EosDb.keyvalEntries, EosDb.keyvalEntries, withObject_cache]
    exact added
  refine ⟨position, ?_, ?_, entries.length_le⟩
  · rw [addObject_apply, isPosition]
  · exact knows.issue knows.rows rfl rfl entries (fun _ _ leads => leads)
      ⟨row, isRow, rfl⟩

end Find

end EosDb

/-! ## Runs -/

/-- An `eos_db` and what its program knows. -/
abbrev PrimaryUser := Traced PrimaryLog

namespace PrimaryUser

variable (sha : Bytes → Sha256) (ndebug : Bool)

/-- A new `eos_db` on a database whose rows the program knows. -/
def start (db : Database eosDbTables)
    (place : (t : TableType) → (indexOf t).Id → Address) : PrimaryUser :=
  { eos := ofDatabase db place
    tableIds := (ofDatabase db place).liveTables
    history :=
      { rows := fun key => ((ofDatabase db place).primaryRows key).map
          fun row => (row.payer, row.value)
        issued := []
        removed := [] } }

def step (user : PrimaryUser) (call : EosCall) : Option PrimaryUser :=
  Traced.step PrimaryLog.after sha ndebug user call

/-- The calls on the primary table, with values shorter than 2^31 bytes.  The
allocator returns vacant memory, and a new table does not get the id of a table
that is gone. -/
def Permitted (user : PrimaryUser) : EosCall → Prop
  | .dbStoreI64 code scope table _ _ buffer memory =>
      (user.eos.tableNamed (code, scope, table) = none →
        user.eos.TableBlock user.tableIds memory.table) ∧
      user.eos.Vacant .keyValue memory.row.address ∧ buffer.length < 2 ^ 31
  | .dbUpdateI64 _ _ buffer => buffer.length < 2 ^ 31
  | .dbRemoveI64 _ => True
  | .dbGetI64 _ _ => True
  | .dbFindI64 _ _ _ _ => True
  | _ => False

instance (user : PrimaryUser) (call : EosCall) :
    Decidable (user.Permitted call) := by
  apply @EosCall.casesOn (fun call => Decidable (user.Permitted call)) call <;>
    intros <;> unfold Permitted <;> infer_instance

/-- The program is right about a consistent `eos_db`.  Every row that was stored
since the start has an entry in `keyval_cache`, so counts do not overflow. -/
structure Sound (user : PrimaryUser) : Prop where
  consistent : user.eos.Consistent user.tableIds
  charted : (user.eos.caches .keyValue).Charted
  room : ∀ tab : Int64, rowsOf user.eos.db.rows tab <
    2 ^ 31 + user.eos.keyvalEntries.length
  small : ∀ (rowId : Int64) (row : KeyValueObject),
    (user.eos.db.rows .keyValue).rows[rowId]? = some row →
      row.value.length < 2 ^ 31
  knows : user.history.Knows user.eos

variable {sha ndebug} {user : PrimaryUser} {final : EosDb} {name : TableName}
  {row : KeyValueObject} {rowId : Int64} {address : Address} {key : RowKey}
  {position : Nat} {iterator : Int}

/-! ### What one call leaves -/

theorem sound_located {tab : Int64} (sound : user.Sound)
    (located : user.eos.Located user.tableIds name tab final) :
    Sound (user.moved final user.history) where
  consistent := located.consistent
  charted := by
    change (final.caches .keyValue).Charted
    rw [located.caches]
    exact sound.charted
  room := by
    intro tested
    change rowsOf final.db.rows tested < 2 ^ 31 + final.keyvalEntries.length
    rw [rowsOf_congr located.rows, keyvalEntries, located.caches]
    exact sound.room tested
  small := by
    intro rowId row found
    change (final.db.rows .keyValue).rows[rowId]? = some row at found
    rw [located.rows .keyValue TableType.noConfusion] at found
    exact sound.small rowId row found
  knows := by
    apply sound.knows.same (located.primaryRows sound.consistent)
    · exact located.place .keyValue TableType.noConfusion
    · change (final.caches .keyValue).iteratorToObject = _
      rw [located.caches]
      rfl

theorem sound_stored (sound : user.Sound) (few : user.eos.FewIterators)
    (stored : user.eos.Stored user.tableIds .keyValue name row address iterator
      final) (small : row.value.length < 2 ^ 31) :
    Sound (user.moved final
      ((user.history.put (name, row.primaryKey)
        (some (row.payer, row.value))).issue iterator
          (name, row.primaryKey))) where
  consistent := stored.consistent
  charted := by
    rcases stored.caches with ⟨tableAddress, isCaches⟩
    change (final.caches .keyValue).Charted
    rw [isCaches, Function.update_self]
    exact sound.charted.cacheTable row.tId tableAddress
  room := by
    intro tested
    have before := sound.room tested
    change rowsOf final.db.rows tested < 2 ^ 31 + final.keyvalEntries.length
    rw [stored.number, stored.keyvalEntries, List.length_append,
      List.length_singleton]
    dsimp only
    split
    · omega
    · omega
  small := by
    intro tested other found
    change (final.db.rows .keyValue).rows[tested]? = some other at found
    rw [stored.rows] at found
    split at found
    · cases found
      exact small
    · exact sound.small tested other found
  knows := stored.knows sound.consistent few.1 sound.knows

/-- A table that keeps its count keeps its number of rows. -/
theorem rowsOf_of_sameTables (sound : user.Sound)
    (balanced : Balanced final.db.rows)
    (tables : final.db.rows .tableId = user.eos.db.rows .tableId)
    (tab : Int64) :
    rowsOf final.db.rows tab = rowsOf user.eos.db.rows tab := by
  cases found : (user.eos.db.rows .tableId).rows[tab]? with
  | none =>
      have gone : (final.db.rows .tableId).rows[tab]? = none := by
        rw [tables]
        exact found
      rw [balanced.rowsOf_of_gone gone,
        sound.consistent.balanced.rowsOf_of_gone found]
  | some tableObj =>
      have stays : (final.db.rows .tableId).rows[tab]? = some tableObj := by
        rw [tables]
        exact found
      rw [← balanced.counted tab tableObj stays,
        ← sound.consistent.balanced.counted tab tableObj found]

theorem sound_rewritten {payer : Name} {buffer : Bytes} (sound : user.Sound)
    (rewritten : user.eos.Rewritten user.tableIds .keyValue rowId
      (updated row payer buffer) final)
    (found : (user.eos.db.rows .keyValue).rows[rowId]? = some row)
    (isRow : user.eos.primaryRows key = some row)
    (small : buffer.length < 2 ^ 31) :
    Sound (user.moved final
      (user.history.put key (some (payer, buffer)))) where
  consistent := rewritten.consistent.mono (List.subset_append_right _ _)
  charted := by
    change (final.caches .keyValue).Charted
    rw [rewritten.caches]
    exact sound.charted
  room := by
    intro tab
    change rowsOf final.db.rows tab < 2 ^ 31 + final.keyvalEntries.length
    rw [rowsOf_of_sameTables sound rewritten.consistent.balanced
      rewritten.tables, keyvalEntries, rewritten.caches]
    exact sound.room tab
  small := by
    intro tested other isOther
    change (final.db.rows .keyValue).rows[tested]? = some other at isOther
    rw [rewritten.rows] at isOther
    split at isOther
    · cases isOther
      exact small
    · exact sound.small tested other isOther
  knows := rewritten.knows found isRow sound.knows

theorem sound_removed (sound : user.Sound)
    (removed : user.eos.Removed user.tableIds .keyValue position address rowId
      final)
    (live : user.eos.keyvalEntries[position]? = some (some address))
    (found : (user.eos.db.rows .keyValue).rows[rowId]? = some row)
    (isAddress : user.eos.place .keyValue rowId = address)
    (isRow : user.eos.primaryRows key = some row) :
    Sound (user.moved final
      { user.history.put key none with
        removed := (position : Int) :: user.history.removed }) where
  consistent := removed.consistent.mono (List.subset_append_right _ _)
  charted := by
    change (final.caches .keyValue).Charted
    rw [removed.caches, Function.update_self]
    exact sound.charted
  room := by
    intro tab
    have before := sound.room tab
    have fewer : rowsOf user.eos.db.rows tab =
        rowsOf (Function.update user.eos.db.rows .keyValue
          ((user.eos.db.rows .keyValue).erase rowId)) tab + _ :=
      rowsOf_dropped (r := .keyValue) tab found
    have sameRows : rowsOf final.db.rows tab =
        rowsOf (Function.update user.eos.db.rows .keyValue
          ((user.eos.db.rows .keyValue).erase rowId)) tab := by
      apply rowsOf_congr
      intro t notTables
      by_cases isRows : t = .keyValue
      · rw [isRows, Function.update_self]
        exact removed.dropped.rows
      · rw [Function.update_of_ne isRows]
        exact removed.dropped.otherRows t isRows notTables
    change rowsOf final.db.rows tab < 2 ^ 31 + final.keyvalEntries.length
    rw [sameRows, removed.keyvalEntries, List.length_set]
    omega
  small := by
    intro tested other isOther
    change (final.db.rows .keyValue).rows[tested]? = some other at isOther
    rw [show final.db.rows .keyValue = _ from removed.dropped.rows,
      MultiIndex.erase_row] at isOther
    split at isOther
    · cases isOther
    · exact sound.small tested other isOther
  knows := removed.knows sound.consistent live found isAddress isRow sound.knows

/-- Nothing has changed. -/
theorem sound_unchanged (sound : user.Sound) :
    Sound (user.moved user.eos user.history) where
  consistent := sound.consistent.mono (List.subset_append_right _ _)
  charted := sound.charted
  room := sound.room
  small := sound.small
  knows := sound.knows

/-- The table that a row was looked for in is cached. -/
theorem sound_withTable {tab : Int64} (sound : user.Sound)
    (stored : (user.eos.db.rows .tableId).rows[tab]? ≠ none) :
    Sound (user.moved (user.eos.withTable tab) user.history) where
  consistent := (sound.consistent.tableCached (r := .keyValue) stored).mono
    (List.subset_append_right _ _)
  charted := by
    change ((user.eos.withTable tab).caches .keyValue).Charted
    rw [withTable_cache]
    exact sound.charted.cacheTable tab _
  room := by
    intro tested
    change rowsOf user.eos.db.rows tested <
      2 ^ 31 + (user.eos.withTable tab).keyvalEntries.length
    rw [withTable_entries]
    exact sound.room tested
  small := sound.small
  knows := knows_withTable sound.knows tab

/-- A row that was looked for has an iterator, and its table is cached. -/
theorem sound_found {tab : Int64} (sound : user.Sound)
    (few : user.eos.FewIterators)
    (stored : (user.eos.db.rows .tableId).rows[tab]? ≠ none)
    (inTable : row.tId = tab) (isRow : user.eos.primaryRows key = some row) :
    ∃ position : Nat, addObject .keyValue row.id (user.eos.withTable tab) =
        .ok position ((user.eos.withTable tab).withObject row.id) ∧
      Sound (user.moved ((user.eos.withTable tab).withObject row.id)
        (user.history.issue position key)) := by
  have cached := sound_withTable sound stored
  have consistent : (user.eos.withTable tab).Consistent user.tableIds :=
    sound.consistent.tableCached (r := .keyValue) stored
  have found := (primaryRows_eq_some_iff.mp isRow).2.1
  have isCached : ∃ entry,
      ((user.eos.withTable tab).caches .keyValue).tableCache[row.tId]? =
        some entry := by
    rw [withTable_cache, inTable]
    exact IteratorCache.cacheTable_cached _ tab _
  rcases isCached with ⟨entry, isCached⟩
  have few' : (user.eos.withTable tab).keyvalEntries.length < 2 ^ 31 := by
    rw [withTable_entries]
    exact few.1
  rcases addObject_knows consistent few' isRow (knows_withTable sound.knows tab)
    with ⟨position, added, knows, longer⟩
  refine ⟨position, added, ?_, ?_, ?_, sound.small, knows⟩
  · exact (consistent.rowAdded (r := .keyValue) found isCached).mono
      (List.subset_append_right _ _)
  · intro tested testedEntry isTested
    change (((user.eos.withTable tab).withObject row.id).caches
      .keyValue).tableCache[tested]? = _ at isTested
    rw [withObject_cache, IteratorCache.add_tableCache] at isTested
    change ∃ index : Nat, _ ∧ (((user.eos.withTable tab).withObject
      row.id).caches .keyValue).endIteratorToTable[index]? = _
    rw [withObject_cache, IteratorCache.add_endIteratorToTable]
    exact cached.charted tested testedEntry isTested
  · intro tested
    have before : rowsOf user.eos.db.rows tested <
        2 ^ 31 + (user.eos.withTable tab).keyvalEntries.length :=
      cached.room tested
    exact before.trans_le (Nat.add_le_add_left longer _)

/-- The row behind an iterator, with the key that the program knows. -/
theorem behind (sound : user.Sound)
    (live : user.eos.keyvalEntries[position]? = some (some address)) :
    ∃ rowId row tableObj key,
      user.eos.Holds .keyValue position address rowId row tableObj ∧
      user.history.keyOf position = some key ∧
      user.eos.primaryRows key = some row := by
  rcases sound.consistent.holds (r := .keyValue) live with
    ⟨rowId, row, tableObj, holds⟩
  rcases sound.knows.keyOf live with ⟨key, isKey, leads⟩
  exact ⟨rowId, row, tableObj, key, holds, isKey,
    leads.primaryRows sound.consistent holds⟩

/-! ### The calls -/

/-- What a call that returns or throws leaves. -/
def Leaves {α : Type} (user : PrimaryUser) (after : α → PrimaryLog)
    (program : EosDbM α) : Prop :=
  Ends program user.eos
    (fun value eos => eos.FewIterators → Sound (user.moved eos (after value)))
    (fun fault eos => fault.isException = true →
      Sound (user.moved eos user.history))

/-- A call through an iterator fails an assertion, or it has a row. -/
theorem leaves_through {α : Type} {after : α → PrimaryLog}
    {program : EosDbM α} (sound : user.Sound)
    (fails : ∀ fault, getObject ndebug .keyValue iterator user.eos =
      .error fault user.eos → program user.eos = .error fault user.eos)
    (works : ∀ (position : Nat) address rowId row tableObj key,
      iterator = position →
      user.eos.Holds .keyValue position address rowId row tableObj →
      user.history.keyOf position = some key →
      user.eos.primaryRows key = some row →
        ∃ value final, program user.eos = .ok value final ∧
          Sound (user.moved final (after value))) :
    user.Leaves after program := by
  rcases held_or_fault (user.eos.caches .keyValue) ndebug iterator with
    isHeld | isFault
  · rcases isHeld with ⟨position, address, isPosition, live⟩
    rcases behind sound live with
      ⟨rowId, row, tableObj, key, holds, isKey, isRow⟩
    rcases works position address rowId row tableObj key isPosition holds isKey
      isRow with ⟨value, final, returned, stillSound⟩
    exact ends_of_ok returned fun _ => stillSound
  · rcases isFault with ⟨fault, failed, endsProcess⟩
    apply ends_of_error (fails fault (getObject_error failed))
    intro isException
    rw [endsProcess] at isException
    cases isException

section Calls

variable {code : Name} {scope : Sha256} {table payer : Name} {id : UInt64}
  {buffer : Bytes} {memory : Memory} {bufferSize : Nat}

theorem leaves_dbUpdateI64 (sound : user.Sound)
    (small : buffer.length < 2 ^ 31) :
    user.Leaves (fun _ => user.history.after
      (.dbUpdateI64 iterator payer buffer) .done)
      (dbUpdateI64 ndebug iterator payer buffer) := by
  have fails : ∀ fault, getObject ndebug .keyValue iterator user.eos =
      .error fault user.eos →
        dbUpdateI64 ndebug iterator payer buffer user.eos =
          .error fault user.eos := by
    intro fault failed
    exact bind_apply_of_error _ failed
  apply leaves_through sound fails
  intro position address rowId row tableObj key isPosition holds isKey isRow
  have updates : ∃ final,
      dbUpdateI64 ndebug position payer buffer user.eos = .ok ⟨⟩ final ∧ _ :=
    holds.dbUpdateI64 sound.consistent
  rcases updates with ⟨final, ran, rewritten⟩
  rw [PrimaryLog.after, isPosition, isKey]
  exact ⟨⟨⟩, final, ran,
    sound_rewritten sound rewritten holds.found isRow small⟩

theorem leaves_dbRemoveI64 (sound : user.Sound) :
    user.Leaves (fun _ => user.history.after (.dbRemoveI64 iterator) .done)
      (dbRemoveI64 ndebug iterator) := by
  have fails : ∀ fault, getObject ndebug .keyValue iterator user.eos =
      .error fault user.eos →
        dbRemoveI64 ndebug iterator user.eos = .error fault user.eos := by
    intro fault failed
    exact bind_apply_of_error _ failed
  apply leaves_through sound fails
  intro position address rowId row tableObj key isPosition holds isKey isRow
  have removes : ∃ final,
      dbRemoveI64 ndebug position user.eos = .ok ⟨⟩ final ∧ _ :=
    holds.dbRemoveI64 sound.consistent
  rcases removes with ⟨final, ran, removed⟩
  rw [PrimaryLog.after, isPosition, isKey]
  exact ⟨⟨⟩, final, ran, sound_removed sound removed holds.held holds.found
    holds.isAddress isRow⟩

theorem leaves_dbGetI64 (sound : user.Sound) :
    user.Leaves (fun _ => user.history)
      (dbGetI64 ndebug iterator bufferSize) := by
  have fails : ∀ fault, getObject ndebug .keyValue iterator user.eos =
      .error fault user.eos →
        dbGetI64 ndebug iterator bufferSize user.eos =
          .error fault user.eos := by
    intro fault failed
    exact bind_apply_of_error _ failed
  apply leaves_through sound fails
  intro position address rowId row tableObj key isPosition holds isKey isRow
  rw [isPosition]
  exact ⟨_, user.eos, holds.dbGetI64 sound.consistent, sound_unchanged sound⟩

/-- The count of a table does not overflow. -/
theorem room_for_row (sound : user.Sound) (few : user.eos.FewIterators)
    (tab : Int64) : rowsOf user.eos.db.rows tab + 1 < 2 ^ 32 := by
  have room := sound.room tab
  have entries := few.1
  omega

theorem leaves_dbStoreI64 (sound : user.Sound) (few : user.eos.FewIterators)
    (permitted : user.Permitted
      (.dbStoreI64 code scope table payer id buffer memory)) :
    user.Leaves (fun value => user.history.after
      (.dbStoreI64 code scope table payer id buffer memory) (.iterator value))
      (dbStoreI64 code scope table payer id buffer memory) := by
  rcases permitted with ⟨granted, vacant, small⟩
  have ends : Ends (dbStoreI64 code scope table payer id buffer memory) user.eos
      (fun value final => ∃ tab, user.eos.Stored user.tableIds .keyValue
        (code, scope, table) (newKeyValue payer id buffer tab)
          memory.row.address value final) _ :=
    sound.consistent.ends_storeRow (r := .keyValue) payer granted vacant
      (fun tableObj _ => room_for_row sound few tableObj.id) fun _ => rfl
  apply ends.imp
  · intro value final stored _
    rcases stored with ⟨tab, stored⟩
    exact sound_stored sound few stored small
  · intro fault final failed _
    rcases failed.2 with unchanged | located
    · rw [unchanged]
      exact sound_unchanged sound
    · rcases located with ⟨tab, located⟩
      exact sound_located sound located

theorem leaves_dbFindI64 (sound : user.Sound) (few : user.eos.FewIterators) :
    user.Leaves (fun value => user.history.after
      (.dbFindI64 code scope table id) (.iterator value))
      (dbFindI64 code scope table id) := by
  have ready := sound.consistent.ready
  cases named : user.eos.tableNamed (code, scope, table) with
  | none =>
      apply ends_of_ok (dbFindI64_noTable ready named)
      intro _
      exact sound_unchanged sound
  | some tab =>
      have stored := stored_of_tableNamed named
      cases isRow : user.eos.primaryRows ((code, scope, table), id) with
      | none =>
          apply ends_of_ok (dbFindI64_noRow ready named isRow)
          intro fits
          have negative := withTable_endIterator_lt sound.charted tab.id fits
          beta_reduce
          rw [PrimaryLog.after_dbFindI64_end _ negative]
          exact sound_withTable sound stored
      | some row =>
          have finds := dbFindI64_of_primaryRow ready named isRow
          have inTable := inTable_of_primaryRow named isRow
          rcases sound_found sound few stored inTable isRow with
            ⟨position, added, stillSound⟩
          apply ends_of_ok (finds.trans added)
          intro _
          beta_reduce
          rw [PrimaryLog.after_dbFindI64_row]
          exact stillSound

end Calls

/-- Every permitted call. -/
theorem leaves_call {call : EosCall} (sound : user.Sound)
    (few : user.eos.FewIterators) (permitted : user.Permitted call) :
    user.Leaves (user.history.after call) (call.program sha ndebug) := by
  cases call with
  | dbStoreI64 code scope table payer id buffer memory =>
      exact ends_map (leaves_dbStoreI64 sound few permitted)
  | dbUpdateI64 iterator payer buffer =>
      exact ends_map (leaves_dbUpdateI64 sound permitted)
  | dbRemoveI64 iterator => exact ends_map (leaves_dbRemoveI64 sound)
  | dbGetI64 iterator bufferSize => exact ends_map (leaves_dbGetI64 sound)
  | dbFindI64 code scope table id =>
      exact ends_map (leaves_dbFindI64 sound few)
  | _ => exact False.elim permitted

/-- A step that leaves few iterators. -/
theorem sound_step {call : EosCall} {next : PrimaryUser} (sound : user.Sound)
    (few : user.eos.FewIterators) (permitted : user.Permitted call)
    (stepped : user.step sha ndebug call = some next)
    (fits : next.eos.FewIterators) : next.Sound := by
  have leaves : user.Leaves (user.history.after call)
      (call.program sha ndebug) := leaves_call sound few permitted
  have ends : Ends (call.program sha ndebug) user.eos
      (fun reply eos => eos.FewIterators →
        Sound (user.moved eos (user.history.after call reply)))
      (fun fault eos => fault.isException = true → eos.FewIterators →
        Sound (user.moved eos user.history)) := by
    apply leaves.imp
    · intro value final stillSound
      exact stillSound
    · intro fault final stillSound isException _
      exact stillSound isException
  exact @Traced.step_preserves _ _ _ _ user
    (fun left => left.eos.FewIterators → Sound left) _ _ ends stepped fits

/-! ### Whole runs -/

theorem sound_start {db : Database eosDbTables}
    {place : (t : TableType) → (indexOf t).Id → Address} (ready : db.Ready)
    (balanced : Balanced db.rows) (apart : ∀ t, (ofDatabase db place).Apart t)
    (room : ∀ tab : Int64, rowsOf db.rows tab < 2 ^ 31)
    (small : ∀ (rowId : Int64) (row : KeyValueObject),
      (db.rows .keyValue).rows[rowId]? = some row →
        row.value.length < 2 ^ 31) : (start db place).Sound where
  consistent := by
    have tableIds : ∀ tab : Int64, (db.rows .tableId).rows[tab]? ≠ none →
        tab ∈ (ofDatabase db place).liveTables := by
      intro tab stored
      exact mem_liveTables.mpr stored
    exact consistent_ofDatabase ready balanced apart tableIds
  charted := IteratorCache.charted_empty
  room := by
    intro tab
    exact (room tab).trans_le (Nat.le_add_right _ _)
  small := small
  knows :=
    { rows := fun _ => rfl
      issued := by
        intro iterator key isIssued
        cases isIssued
      removed := by
        intro iterator isRemoved
        cases isRemoved
      known := by
        intro position address held
        cases held }

theorem sound_run {calls : List EosCall} {final : PrimaryUser}
    (sound : user.Sound)
    (permitted : Runs.AllowedFrom (step sha ndebug) Permitted user calls)
    (few : Runs.AllowedFrom (step sha ndebug)
      (fun user _ => user.eos.FewIterators) user calls)
    (reached : Runs.run (step sha ndebug) user calls = some final)
    (fits : final.eos.FewIterators) : final.Sound := by
  have preserved : ∀ (state : PrimaryUser) (call : EosCall)
      (next : PrimaryUser), (state.eos.FewIterators → state.Sound) →
        state.Permitted call ∧ state.eos.FewIterators →
          step sha ndebug state call = some next →
            next.eos.FewIterators → next.Sound := by
    intro state call next before allowed stepped nextFew
    exact sound_step (before allowed.2) allowed.2 allowed.1 stepped nextFew
  exact Runs.run_preserves _ preserved (fun _ => sound) (permitted.and few)
    reached fits

/-! ### What the program can rely on -/

theorem standsFor_of_live (sound : user.Sound)
    (live : user.eos.keyvalEntries[position]? = some (some address))
    (leads : user.eos.LeadsTo address key) :
    ∃ row, user.eos.StandsFor ndebug position key row := by
  rcases behind sound live with ⟨rowId, row, tableObj, _, holds, _, _⟩
  have isRow := leads.primaryRows sound.consistent holds
  have small : row.value.length < 2 ^ 31 := sound.small rowId row holds.found
  refine ⟨row, isRow, ?_, ?_, ?_⟩
  · intro payer buffer
    have updates : ∃ final,
        dbUpdateI64 ndebug position payer buffer user.eos = .ok ⟨⟩ final ∧ _ :=
      holds.dbUpdateI64 sound.consistent
    rcases updates with ⟨final, ran, rewritten⟩
    exact ⟨final, ran, rewritten.primaryRows holds.found isRow⟩
  · intro bufferSize
    rw [holds.dbGetI64 sound.consistent, toInt32_eq (by omega) (by omega),
      toInt32_eq (by omega) (by omega), ← List.take_eq_take_min]
  · have removes : ∃ final,
        dbRemoveI64 ndebug position user.eos = .ok ⟨⟩ final ∧ _ :=
      holds.dbRemoveI64 sound.consistent
    rcases removes with ⟨final, ran, removed⟩
    exact ⟨final, ran, removed.primaryRows holds.found isRow⟩

theorem deletedObject_of_empty {eos : EosDb}
    (isEmpty : eos.keyvalEntries[position]? = some none) :
    eos.DeletedObject ndebug position := by
  have failed : (eos.caches .keyValue).get ndebug position =
      .error (.failedAssert ndebug "dereference of deleted object") := by
    have entry : (eos.caches .keyValue).iteratorToObject[position]? =
        some none := isEmpty
    rw [IteratorCache.get, if_neg (by omega), if_neg (by omega),
      Int.toNat_natCast, entry]
  have fails : getObject ndebug .keyValue position eos = _ :=
    getObject_error failed
  constructor
  · intro payer buffer
    exact bind_apply_of_error _ fails
  · intro bufferSize
    exact bind_apply_of_error _ fails
  · exact bind_apply_of_error _ fails

theorem findsExactly (sound : user.Sound) (few : user.eos.FewIterators)
    (code : Name) (scope : Sha256) (table : Name) (id : UInt64) :
    user.eos.FindsExactly code scope table id := by
  have ready := sound.consistent.ready
  constructor
  · intro isRow
    rcases Option.ne_none_iff_exists'.mp isRow with ⟨row, isRow⟩
    cases named : user.eos.tableNamed (code, scope, table) with
    | none =>
        rw [primaryRows, rowOf, named] at isRow
        cases isRow
    | some tab =>
        have finds := dbFindI64_of_primaryRow ready named isRow
        have stored := stored_of_tableNamed named
        have inTable := inTable_of_primaryRow named isRow
        rcases sound_found sound few stored inTable isRow with
          ⟨position, added, _⟩
        exact ⟨position, _, finds.trans added,
          fun _ => Int.natCast_nonneg position⟩
  · intro noRow isTable
    rcases Option.ne_none_iff_exists'.mp isTable with ⟨tab, named⟩
    exact ⟨_, _, dbFindI64_noRow ready named noRow,
      dbEndI64_of_tableNamed ready named,
      withTable_endIterator_lt sound.charted tab.id⟩
  · exact dbFindI64_noTable ready

theorem describes (sound : user.Sound) (few : user.eos.FewIterators) :
    user.history.Describes ndebug user.eos where
  rows := sound.knows.rows
  stored := by
    intro rowId row found
    rcases sound.consistent.balanced.owned .keyValue rowId row found with
      ⟨tableObj, isTable⟩
    exact ⟨tableObj.codeScopeTable,
      rowOf_of_row found ⟨tableObj, isTable, rfl⟩⟩
  issued := by
    intro iterator key isIssued
    rcases sound.knows.issued iterator key isIssued with isRemoved | isLive
    · rcases sound.knows.removed iterator isRemoved with
        ⟨position, isPosition, _⟩
      rw [isPosition]
      refine ⟨Int.natCast_nonneg position, ?_⟩
      intro notRemoved
      rw [← isPosition] at notRemoved
      exact absurd isRemoved notRemoved
    · rcases isLive with ⟨position, address, isPosition, live, leads⟩
      rw [isPosition]
      exact ⟨Int.natCast_nonneg position,
        fun _ => standsFor_of_live sound live leads⟩
  removed := by
    intro iterator isRemoved
    rcases sound.knows.removed iterator isRemoved with
      ⟨position, isPosition, isEmpty⟩
    rw [isPosition]
    exact deletedObject_of_empty isEmpty
  finds := findsExactly sound few

/-- After any calls on the primary table, on a database whose counts are right,
the program is right about the rows, and an iterator stands for the row that it
was returned for until it is removed. -/
theorem primary_calls_are_map (sha : Bytes → Sha256) (ndebug : Bool)
    (db : Database eosDbTables)
    (place : (t : TableType) → (indexOf t).Id → Address)
    (calls : List EosCall) (final : PrimaryUser) (ready : db.Ready)
    (balanced : Balanced db.rows) (apart : ∀ t, (ofDatabase db place).Apart t)
    (room : ∀ tab : Int64, rowsOf db.rows tab < 2 ^ 31)
    (small : ∀ (rowId : Int64) (row : KeyValueObject),
      (db.rows .keyValue).rows[rowId]? = some row →
        row.value.length < 2 ^ 31)
    (permitted : Runs.AllowedFrom (step sha ndebug) Permitted (start db place)
      calls)
    (few : Runs.AllowedFrom (step sha ndebug)
      (fun user _ => user.eos.FewIterators) (start db place) calls)
    (reached : Runs.run (step sha ndebug) (start db place) calls = some final)
    (fits : final.eos.FewIterators) :
    final.history.Describes ndebug final.eos := by
  have initially := sound_start ready balanced apart room small
  have sound := sound_run initially permitted few reached fits
  exact describes sound fits

/-- A row is stored, found and removed, and another one is stored at its address
in a table that a refused store has created. -/
def reusedCalls : List EosCall :=
  [.dbStoreI64 ⟨1⟩ 2 ⟨3⟩ ⟨4⟩ 7 [10] ⟨⟨16, 5⟩, ⟨32, 0⟩⟩,
    .dbFindI64 ⟨1⟩ 2 ⟨3⟩ 7,
    .dbStoreI64 ⟨1⟩ 2 ⟨9⟩ ⟨4⟩ 7 [12] ⟨⟨48, 6⟩, ⟨96, 0⟩⟩, .dbRemoveI64 0,
    .dbStoreI64 ⟨1⟩ 2 ⟨9⟩ ⟨4⟩ 8 [20] ⟨⟨64, 8⟩, ⟨32, 0⟩⟩,
    .dbUpdateI64 1 ⟨4⟩ [21, 22], .dbGetI64 1 1]

theorem primary_calls_are_map_reused :
    ∃ final, Runs.run (step (fun _ => 0) false)
        (start emptyTables fun _ _ => 0) reusedCalls = some final ∧
      final.history.issued = [(1, (⟨1⟩, 2, ⟨9⟩), 8), (0, (⟨1⟩, 2, ⟨3⟩), 7),
        (0, (⟨1⟩, 2, ⟨3⟩), 7)] ∧
      final.history.removed = [0] ∧
      final.history.Describes false final.eos := by
  have finished : (Runs.run (step (fun _ => 0) false)
      (start emptyTables fun _ _ => 0) reusedCalls).map (fun final =>
        decide (final.history.issued = [(1, (⟨1⟩, 2, ⟨9⟩), 8),
            (0, (⟨1⟩, 2, ⟨3⟩), 7), (0, (⟨1⟩, 2, ⟨3⟩), 7)] ∧
          final.history.removed = [0] ∧ final.eos.FewIterators)) =
      some true := by
    decide +kernel
  rcases Option.map_eq_some_iff.mp finished with ⟨final, ran, isShape⟩
  rcases of_decide_eq_true isShape with ⟨isIssued, isRemoved, fits⟩
  have noRow : ∀ (t : TableType) (id : (indexOf t).Id),
      (emptyTables.rows t).rows[id]? = none :=
    fun t id => MultiIndex.empty_row id
  have room : ∀ tab : Int64, rowsOf emptyTables.rows tab < 2 ^ 31 := by
    intro tab
    rw [emptyTables_balanced.rowsOf_of_gone (noRow .tableId tab)]
    decide
  have small : ∀ (rowId : Int64) (row : KeyValueObject),
      (emptyTables.rows .keyValue).rows[rowId]? = some row →
        row.value.length < 2 ^ 31 := by
    intro rowId row found
    cases (noRow .keyValue rowId).symm.trans found
  exact ⟨final, ran, isIssued, isRemoved, primary_calls_are_map (fun _ => 0)
    false emptyTables (fun _ _ => 0) reusedCalls final emptyTables_ready
    emptyTables_balanced (EosWithIssued.emptyTables_apart _) room small
    (by decide +kernel) (by decide +kernel) ran fits⟩

end PrimaryUser

end StateDatabase
