import Mathlib
import StateDatabase.ReachableRows

/-!
# When tables and rows can be created

`by_id` is a unique index of every table, but nothing assigns new ids: a row of
the primary table takes its primary key as its id, and a new table or a new row
of a secondary index keeps what was in its memory.  So a creation can fail
although the table and the key of the new object are not in use.
-/

namespace StateDatabase

open Programs GenericIndex

namespace EosDb

/-! ## Lookup by name -/

/-- The table of this code, scope and name. -/
def tableNamed (eos : EosDb) (name : TableName) : Option TableIdObject :=
  (eos.db.rows .tableId).findBy TableIdObject.codeScopeTable name

/-- The row with this primary key in the table of this name. -/
def rowOf (eos : EosDb) (name : TableName) (id : UInt64) :
    Option KeyValueObject :=
  (eos.tableNamed name).bind fun table =>
    (eos.db.rows .keyValue).findBy KeyValueObject.scopePrimary (table.id, id)

/-- The row with this primary key in a secondary index of the table. -/
def indexRowOf (eos : EosDb) (kind : IndexKind) (name : TableName)
    (id : UInt64) : Option (IndexObject (SecondaryKey kind)) :=
  (eos.tableNamed name).bind fun table =>
    (eos.db.rows (.index kind)).findBy IndexObject.primary (table.id, id)

/-- The call returns. -/
def Succeeds {α : Type} (program : EosDbM α) (eos : EosDb) : Prop :=
  ∃ value final, program eos = .ok value final

instance {α : Type} (program : EosDbM α) (eos : EosDb) :
    Decidable (Succeeds program eos) :=
  match ran : program eos with
  | .ok value final => isTrue ⟨value, final, ran⟩
  | .error _ _ => isFalse (by
      rintro ⟨value, final, returned⟩
      rw [ran] at returned
      cases returned)

section Lookup

variable {eos : EosDb} {name : TableName} {tableObj : TableIdObject}

theorem tableNamed_of_row (tab : Int64)
    (found : (eos.db.rows .tableId).rows[tab]? = some tableObj)
    (isName : tableObj.codeScopeTable = name) :
    eos.tableNamed name = some tableObj :=
  MultiIndex.findBy_of_row (fun left right => (clash_tableId_iff left right).mpr)
    found isName

theorem row_of_tableNamed (found : eos.tableNamed name = some tableObj) :
    (eos.db.rows .tableId).rows[tableObj.id]? = some tableObj ∧
      tableObj.codeScopeTable = name :=
  MultiIndex.findBy_some found

theorem stored_of_tableNamed
    (named : eos.tableNamed name = some tableObj) :
    (eos.db.rows .tableId).rows[tableObj.id]? ≠ none := by
  rw [(row_of_tableNamed named).1]
  exact Option.some_ne_none tableObj

end Lookup

/-! ## Creating tables -/

section Tables

variable {eos : EosDb} {code : Name} {scope : Sha256} {table payer : Name}
  {value : Bytes} {block : Block}

/-- A table with a new name is refused only for its id. -/
theorem admits_newTable_iff (payer : Name) (value : Bytes)
    (absent : eos.tableNamed (code, scope, table) = none) :
    (eos.db.rows .tableId).Admits
        (newTable code scope table payer value block) ↔
      (eos.db.rows .tableId).rows[block.unset]? = none := by
  rw [MultiIndex.admits_iff]
  refine ⟨fun admits => admits.1, fun unused => ⟨unused, ?_⟩⟩
  intro id row found clash
  refine MultiIndex.findBy_eq_none_iff.mp absent id row found ?_
  exact ((clash_tableId_iff _ _).mp clash).symm

/-- The call creates a table of this name under an id that no table had. -/
def CreatesTable (name : TableName) (program : EosDbM Int64) (eos : EosDb) :
    Prop :=
  ∃ tab final tableObj, program eos = .ok tab final ∧
    final.tableNamed name = some tableObj ∧ tableObj.id = tab ∧
    (eos.db.rows .tableId).rows[tab]? = none

theorem create_newTable (ready : eos.db.Ready)
    (absent : eos.tableNamed (code, scope, table) = none)
    (unused : (eos.db.rows .tableId).rows[block.unset]? = none) :
    ∃ final,
      create .tableId block (newTable code scope table payer value block) eos =
        .ok ⟨⟩ final ∧
      final.tableNamed (code, scope, table) =
        some (newTable code scope table payer value block) := by
  obtain ⟨db, created, wrote⟩ := create_some ready
    (MultiIndex.emplace_of_admits ((admits_newTable_iff payer value absent).mpr unused))
  refine ⟨_, created, tableNamed_of_row block.unset ?_ rfl⟩
  simp only [wrote.rows, Function.update_self]
  exact (MultiIndex.insert_row _ _ _ _).trans (if_pos rfl)

theorem createsTable_findOrCreateTable_iff (ready : eos.db.Ready)
    (absent : eos.tableNamed (code, scope, table) = none) :
    CreatesTable (code, scope, table)
        (findOrCreateTable code scope table payer block) eos ↔
      (eos.db.rows .tableId).rows[block.unset]? = none := by
  constructor
  · rintro ⟨tab, final, _, returned, _⟩
    by_contra used
    have refused := (MultiIndex.emplace_eq_none_iff _ _).mpr
      (mt (admits_newTable_iff payer [] absent).mp used)
    rw [findOrCreateTable_refused ready absent refused] at returned
    cases returned
  · intro unused
    obtain ⟨final, created, named⟩ := create_newTable ready absent unused
    refine ⟨block.unset, final, _, ?_, named, rfl, unused⟩
    have located := findTable_apply ready code scope table
    have isAbsent : (eos.db.rows .tableId).findBy TableIdObject.codeScopeTable
        (code, scope, table) = none := absent
    rw [findOrCreateTable, bind_apply_of_ok _ located, isAbsent]
    exact bind_apply_of_ok _ created

theorem createsTable_dbStoreByScope_iff {buffer : Bytes} (ready : eos.db.Ready)
    (absent : eos.tableNamed (code, scope, table) = none) :
    CreatesTable (code, scope, table)
        (dbStoreByScope code scope table payer buffer block) eos ↔
      (eos.db.rows .tableId).rows[block.unset]? = none := by
  constructor
  · rintro ⟨tab, final, _, returned, _⟩
    by_contra used
    have refused := (MultiIndex.emplace_eq_none_iff _ _).mpr
      (mt (admits_newTable_iff payer buffer absent).mp
        used)
    rw [dbStoreByScope, bind_apply_of_error _ (create_none ready refused)]
      at returned
    cases returned
  · intro unused
    obtain ⟨final, created, named⟩ := create_newTable ready absent unused
    refine ⟨block.unset, final, _, ?_, named, rfl, unused⟩
    exact bind_apply_of_ok _ created

end Tables

/-! ## Creating rows -/

section Rows

variable {r : RowTable} {eos : EosDb} {code : Name} {scope : Sha256}
  {table payer : Name} {newRow : Int64 → (indexOf r.type).Value}
  {memory : Memory}

/-- The id of the table that a new row gets. -/
def tableFor (eos : EosDb) (name : TableName) (block : Block) : Int64 :=
  ((eos.tableNamed name).map TableIdObject.id).getD block.unset

/-- The table is there, or it can be created. -/
def CanLocate (eos : EosDb) (name : TableName) (block : Block) : Prop :=
  eos.tableNamed name = none →
    (eos.db.rows .tableId).rows[block.unset]? = none

/-- What `find_or_create_table` does on the way to a row. -/
theorem findOrCreateTable_located (ready : eos.db.Ready)
    (canLocate : eos.CanLocate (code, scope, table) memory.table) :
    ∃ located tableObj,
      findOrCreateTable code scope table payer memory.table eos =
        .ok (eos.tableFor (code, scope, table) memory.table) located ∧
      located.db.Ready ∧ located.db.rows r.type = eos.db.rows r.type ∧
      (located.db.rows .tableId).rows[
        eos.tableFor (code, scope, table) memory.table]? = some tableObj ∧
      tableObj.codeScopeTable = (code, scope, table) := by
  unfold tableFor
  cases found : eos.tableNamed (code, scope, table) with
  | some existing =>
      obtain ⟨row, isName⟩ := row_of_tableNamed found
      exact ⟨eos, existing, findOrCreateTable_found ready found, ready, rfl,
        row, isName⟩
  | none =>
      have success := MultiIndex.emplace_of_admits
        ((admits_newTable_iff payer [] found).mpr
          (canLocate found))
      obtain ⟨db, created, wrote⟩ :=
        findOrCreateTable_created ready found success
      refine ⟨_, newTable code scope table payer [] memory.table, created,
        wrote.ready, ?_, ?_, rfl⟩
      · simp only [wrote.rows]
        rw [Function.update_of_ne (type_ne_tableId r)]
      · simp only [wrote.rows, Function.update_self, Option.map_none,
          Option.getD_none]
        exact (MultiIndex.insert_row _ _ _ _).trans (if_pos rfl)

/-- A row that is admitted is stored in the table of this name. -/
theorem storeRow_of_admits
    (newRow : Int64 → (indexOf r.type).Value) (ready : eos.db.Ready)
    (canLocate : eos.CanLocate (code, scope, table) memory.table)
    (admits : (eos.db.rows r.type).Admits
      (newRow (eos.tableFor (code, scope, table) memory.table))) :
    ∃ iterator final tableObj,
      storeRow r code scope table payer newRow memory eos =
        .ok iterator final ∧
      final.tableNamed (code, scope, table) = some tableObj ∧
      tableObj.id = eos.tableFor (code, scope, table) memory.table ∧
      (final.db.rows r.type).rows[(indexOf r.type).id
        (newRow (eos.tableFor (code, scope, table) memory.table))]? =
        some (newRow (eos.tableFor (code, scope, table) memory.table)) := by
  obtain ⟨located, tableObj, isLocated, locatedReady, sameRows, hasTable,
    isName⟩ := findOrCreateTable_located (r := r) ready
      canLocate
  rw [← sameRows] at admits
  have success := MultiIndex.emplace_of_admits admits
  obtain ⟨db, counted, stored, _, rows, counts⟩ :=
    storeRow_ok isLocated locatedReady hasTable success
  have isId : tableObj.id = eos.tableFor (code, scope, table) memory.table :=
    (located.db.rows .tableId).keyed hasTable
  refine ⟨_, _, { tableObj with count := tableObj.count + 1 }, stored,
    tableNamed_of_row (eos.tableFor (code, scope, table) memory.table)
      ?_ isName, isId, ?_⟩
  · simp only [rows, Function.update_self]
    rw [counts, if_pos rfl]
  · simp only [rows, Function.update_of_ne (type_ne_tableId r),
      Function.update_self]
    rw [MultiIndex.insert_row, if_pos rfl]

/-- When a row can be stored. -/
theorem succeeds_storeRow_iff (ready : eos.db.Ready) :
    Succeeds (storeRow r code scope table payer newRow memory) eos ↔
      eos.CanLocate (code, scope, table) memory.table ∧
      (eos.db.rows r.type).Admits
        (newRow (eos.tableFor (code, scope, table) memory.table)) := by
  constructor
  · rintro ⟨iterator, final, returned⟩
    have canLocate : eos.CanLocate (code, scope, table) memory.table := by
      intro absent
      by_contra used
      have refused := (MultiIndex.emplace_eq_none_iff _ _).mpr
        (mt (admits_newTable_iff payer [] absent).mp used)
      rw [storeRow_error (findOrCreateTable_refused ready absent refused)]
        at returned
      cases returned
    refine ⟨canLocate, ?_⟩
    by_contra notAdmitted
    obtain ⟨located, _, isLocated, locatedReady, sameRows, _⟩ :=
      findOrCreateTable_located (r := r) ready canLocate
    have refused := (MultiIndex.emplace_eq_none_iff _ _).mpr notAdmitted
    rw [← sameRows] at refused
    rw [storeRow_refused isLocated locatedReady refused] at returned
    cases returned
  · rintro ⟨canLocate, admits⟩
    obtain ⟨iterator, final, _, stored, _⟩ :=
      storeRow_of_admits newRow ready canLocate admits
    exact ⟨iterator, final, stored⟩

end Rows

/-! ## Rows of the primary table -/

section Primary

variable {sha : Bytes → Sha256} {ndebug : Bool} {eos : EosDb}

/-- In a database whose rows are well made, a primary key is the id of at most
one row, whatever its table. -/
theorem admits_keyValue_iff (all : eos.db.AllSatisfy WellMade)
    (row : KeyValueObject) (wellMade : row.id = row.primaryKey.toInt64) :
    (eos.db.rows .keyValue).Admits row ↔
      ∀ (id : Int64) (other : KeyValueObject),
        (eos.db.rows .keyValue).rows[id]? = some other →
          other.primaryKey ≠ row.primaryKey := by
  have made : ∀ (id : Int64) (other : KeyValueObject),
      (eos.db.rows .keyValue).rows[id]? = some other →
        id = other.primaryKey.toInt64 := by
    intro id other found
    have isId : other.id = id := (eos.db.rows .keyValue).keyed found
    rw [← isId]
    exact (all.indices .keyValue).rows id other found
  rw [MultiIndex.admits_iff]
  constructor
  · rintro ⟨unused, _⟩ id other found samePrimary
    rw [made id other found, samePrimary, ← wellMade] at found
    rw [found] at unused
    cases unused
  · intro different
    constructor
    · cases found : (eos.db.rows .keyValue).rows[row.id]? with
      | none => rfl
      | some other =>
          have sameId := (made row.id other found).symm.trans wellMade
          have samePrimary := congrArg Int64.toUInt64 sameId
          rw [UInt64.toUInt64_toInt64, UInt64.toUInt64_toInt64] at samePrimary
          exact absurd samePrimary (different row.id other found)
    · intro id other found clash
      have sameKey := (clash_keyValue_iff row other).mp clash
      exact different id other found (congrArg Prod.snd sameKey).symm

/-- Storing a row succeeds exactly for a key that its table does not hold, if
and only if no other table holds the key. -/
theorem dbStoreI64_perTable_iff
    (reachable : Reachable sha ndebug eos.db) (code : Name) (scope : Sha256)
    (table payer : Name) (id : UInt64) (buffer : Bytes) (memory : Memory)
    (newId : eos.tableNamed (code, scope, table) = none →
      (eos.db.rows .tableId).rows[memory.table.unset]? = none) :
    (Succeeds (dbStoreI64 code scope table payer id buffer memory) eos ↔
        eos.rowOf (code, scope, table) id = none) ↔
      ∀ (rowId : Int64) (row : KeyValueObject),
        (eos.db.rows .keyValue).rows[rowId]? = some row →
          row.primaryKey = id →
            ∃ tableObj, eos.tableNamed (code, scope, table) = some tableObj ∧
              row.tId = tableObj.id := by
  have all := reachable.allWellMade
  have succeeds : Succeeds
      (dbStoreI64 code scope table payer id buffer memory) eos ↔
        ∀ (rowId : Int64) (row : KeyValueObject),
          (eos.db.rows .keyValue).rows[rowId]? = some row →
            row.primaryKey ≠ id := by
    rw [dbStoreI64, succeeds_storeRow_iff all.ready,
      and_iff_right (show eos.CanLocate _ _ from newId),
      admits_keyValue_iff all _ rfl]
  rw [succeeds]
  constructor
  · intro exact rowId row found isKey
    have notNone : eos.rowOf (code, scope, table) id ≠ none :=
      fun absent => exact.mpr absent rowId row found isKey
    obtain ⟨held, isHeld⟩ := Option.ne_none_iff_exists'.mp notNone
    obtain ⟨tableObj, named, inTable⟩ := Option.bind_eq_some_iff.mp isHeld
    obtain ⟨heldRow, heldKey⟩ := MultiIndex.findBy_some inTable
    refine ⟨tableObj, named, ?_⟩
    -- both rows have the key as their id
    have sameRow : row = held := by
      have rowIs := (all.indices .keyValue).rows rowId row found
      have heldIs := (all.indices .keyValue).rows _ held heldRow
      have isId : row.id = rowId := (eos.db.rows .keyValue).keyed found
      have heldPrimary : held.primaryKey = id := congrArg Prod.snd heldKey
      have sameId : row.id = held.id := by
        rw [show row.id = row.primaryKey.toInt64 from rowIs,
          show held.id = held.primaryKey.toInt64 from heldIs, isKey,
          heldPrimary]
      rw [← isId, sameId] at found
      exact Option.some.inj (found.symm.trans heldRow)
    rw [sameRow]
    exact congrArg Prod.fst heldKey
  · intro onlyHere
    constructor
    · intro unused
      cases held : eos.rowOf (code, scope, table) id with
      | none => rfl
      | some row =>
          obtain ⟨tableObj, _, inTable⟩ := Option.bind_eq_some_iff.mp held
          obtain ⟨found, isKey⟩ := MultiIndex.findBy_some inTable
          exact absurd (congrArg Prod.snd isKey) (unused _ row found)
    · intro absent rowId row found isKey
      obtain ⟨tableObj, named, inTable⟩ := onlyHere rowId row found isKey
      have held : eos.rowOf (code, scope, table) id = some row := by
        rw [rowOf, named]
        exact MultiIndex.findBy_of_row
          (fun left right => (clash_keyValue_iff left right).mpr) found
          (Prod.ext inTable isKey)
      rw [absent] at held
      cases held

/-- What can be computed of the state after a run holds of a reachable
state. -/
theorem reachable_of_any (sha : Bytes → Sha256) (ndebug : Bool)
    (calls : List EosCall) (test : EosDb → Bool)
    (passes : (Runs.run (EosCall.step sha ndebug)
      (ofDatabase emptyTables fun _ _ => 0) calls).any test = true) :
    ∃ eos : EosDb, Reachable sha ndebug eos.db ∧ test eos = true := by
  cases ran : Runs.run (EosCall.step sha ndebug)
      (ofDatabase emptyTables fun _ _ => 0) calls with
  | none =>
      rw [ran] at passes
      cases passes
  | some eos =>
      rw [ran] at passes
      exact ⟨eos, ⟨_, calls, eos, ran, rfl⟩, passes⟩

/-- The calls that store the row with key 7 in one table. -/
def storeSeven : List EosCall :=
  [.dbStoreI64 ⟨1⟩ 2 ⟨3⟩ ⟨4⟩ 7 [10] ⟨⟨16, 5⟩, ⟨32, 0⟩⟩]

theorem dbStoreI64_perTable_iff_secondRow :
    ∃ eos : EosDb, Reachable (fun _ => 0) false eos.db ∧
      eos.rowOf (⟨1⟩, 2, ⟨3⟩) 7 ≠ none ∧
      Succeeds (dbStoreI64 ⟨1⟩ 2 ⟨3⟩ ⟨4⟩ 8 [11] ⟨⟨48, 6⟩, ⟨64, 0⟩⟩) eos := by
  obtain ⟨eos, reachable, test⟩ := reachable_of_any (fun _ => 0)
    false storeSeven (fun eos => decide (eos.rowOf (⟨1⟩, 2, ⟨3⟩) 7 ≠ none ∧
      eos.tableNamed (⟨1⟩, 2, ⟨3⟩) ≠ none ∧
      eos.rowOf (⟨1⟩, 2, ⟨3⟩) 8 = none ∧
      (eos.db.rows .keyValue).findBy KeyValueObject.primaryKey 8 = none))
    (by decide +kernel)
  obtain ⟨seven, hasTable, noEight, unused⟩ := of_decide_eq_true test
  refine ⟨eos, reachable, seven, ?_⟩
  refine ((dbStoreI64_perTable_iff reachable ⟨1⟩ 2 ⟨3⟩ ⟨4⟩ 8 [11] _
    fun absent => absurd absent hasTable).mpr ?_).mpr noEight
  intro rowId row found isKey
  exact absurd isKey (MultiIndex.findBy_eq_none_iff.mp unused rowId row found)

/-- The key 7 cannot be stored in a second table. -/
theorem dbStoreI64_perTable_secondTable :
    ∃ eos : EosDb, Reachable (fun _ => 0) false eos.db ∧
      (eos.db.rows .tableId).rows[(6 : Int64)]? = none ∧
      ¬ (Succeeds (dbStoreI64 ⟨1⟩ 2 ⟨9⟩ ⟨4⟩ 7 [11] ⟨⟨48, 6⟩, ⟨64, 0⟩⟩) eos ↔
        eos.rowOf (⟨1⟩, 2, ⟨9⟩) 7 = none) := by
  obtain ⟨eos, reachable, test⟩ := reachable_of_any (fun _ => 0)
    false storeSeven (fun eos => decide (
      (eos.db.rows .tableId).rows[(6 : Int64)]? = none ∧
      ¬ Succeeds (dbStoreI64 ⟨1⟩ 2 ⟨9⟩ ⟨4⟩ 7 [11] ⟨⟨48, 6⟩, ⟨64, 0⟩⟩) eos ∧
      eos.rowOf (⟨1⟩, 2, ⟨9⟩) 7 = none)) (by decide +kernel)
  obtain ⟨unused, fails, absent⟩ := of_decide_eq_true test
  exact ⟨eos, reachable, unused, fun agrees => fails (agrees.mpr absent)⟩

end Primary

/-! ## Fresh names and keys -/

section Fresh

variable {sha : Bytes → Sha256} {ndebug : Bool} {eos : EosDb} {code : Name}
  {scope : Sha256} {table payer : Name} {kind : IndexKind} {id : UInt64}
  {value : SecondaryKey kind} {memory : Memory}

/-- The call stores a row for the key under an id that no row of the index
had. -/
def StoresIndexRow (kind : IndexKind) (name : TableName) (id : UInt64)
    (program : EosDbM Int) (eos : EosDb) : Prop :=
  ∃ iterator final row, program eos = .ok iterator final ∧
    final.indexRowOf kind name id = some row ∧
    (eos.db.rows (.index kind)).rows[row.id]? = none

/-- The ids in the memory of the new objects are not in use. -/
def UnsetIdsUnused (eos : EosDb) (kind : IndexKind) (name : TableName)
    (id : UInt64) (memory : Memory) : Prop :=
  (eos.db.rows (.index kind)).rows[memory.row.unset]? = none ∧
    (eos.tableNamed name = none →
      (eos.db.rows .tableId).rows[memory.table.unset]? = none ∧
      (eos.db.rows (.index kind)).findBy IndexObject.primary
        (memory.table.unset, id) = none)

theorem indexRowOf_of_table {tableObj : TableIdObject} {name : TableName}
    (named : eos.tableNamed name = some tableObj) :
    eos.indexRowOf kind name id =
      (eos.db.rows (.index kind)).findBy IndexObject.primary
        (tableObj.id, id) := by
  rw [indexRowOf, named, Option.bind_some]

/-- A row of a new key is refused only for the ids. -/
theorem succeeds_idxStore_iff (ready : eos.db.Ready)
    (absent : eos.indexRowOf kind (code, scope, table) id = none) :
    Succeeds (idxStore kind code scope table payer id value memory) eos ↔
      eos.UnsetIdsUnused kind (code, scope, table) id memory := by
  rw [idxStore, succeeds_storeRow_iff ready, MultiIndex.admits_iff]
  have noClash : ∀ tab : Int64,
      (∀ (rowId : Int64) (row : IndexObject (SecondaryKey kind)),
        (eos.db.rows (.index kind)).rows[rowId]? = some row →
          ¬ (secondaryIndex (SecondaryKey kind)).Clash
            { id := memory.row.unset, tId := tab, primaryKey := id
              payer := payer, secondaryKey := value } row) ↔
        (eos.db.rows (.index kind)).findBy IndexObject.primary (tab, id) =
          none := by
    intro tab
    rw [MultiIndex.findBy_eq_none_iff]
    refine forall_congr' fun rowId => forall_congr' fun row =>
      imp_congr_right fun _ => not_congr ?_
    rw [clash_secondary_iff]
    exact eq_comm
  unfold UnsetIdsUnused CanLocate tableFor
  cases named : eos.tableNamed (code, scope, table) with
  | some tableObj =>
      rw [indexRowOf_of_table named] at absent
      constructor
      · rintro ⟨_, unused, _⟩
        exact ⟨unused, nofun⟩
      · rintro ⟨unused, _⟩
        exact ⟨nofun, unused, (noClash tableObj.id).mpr absent⟩
  | none =>
      constructor
      · rintro ⟨canLocate, unused, distinct⟩
        exact ⟨unused, fun _ =>
          ⟨canLocate rfl, (noClash memory.table.unset).mp distinct⟩⟩
      · rintro ⟨unused, fresh⟩
        exact ⟨fun _ => (fresh rfl).1, unused,
          (noClash memory.table.unset).mpr (fresh rfl).2⟩

theorem storesIndexRow_idxStore_iff (ready : eos.db.Ready)
    (absent : eos.indexRowOf kind (code, scope, table) id = none) :
    StoresIndexRow kind (code, scope, table) id
        (idxStore kind code scope table payer id value memory) eos ↔
      eos.UnsetIdsUnused kind (code, scope, table) id memory := by
  rw [← succeeds_idxStore_iff ready absent]
  constructor
  · rintro ⟨iterator, final, _, returned, _⟩
    exact ⟨iterator, final, returned⟩
  · intro succeeds
    obtain ⟨canLocate, admits⟩ := (succeeds_storeRow_iff ready).mp succeeds
    obtain ⟨iterator, final, tableObj, stored, named, isId, row⟩ :=
      storeRow_of_admits (r := .index kind)
        (fun tab =>
          { id := memory.row.unset, tId := tab, primaryKey := id
            secondaryKey := value, payer := payer })
        ready canLocate admits
    have held : final.indexRowOf kind (code, scope, table) id =
        some { id := memory.row.unset
               tId := eos.tableFor (code, scope, table) memory.table
               primaryKey := id, secondaryKey := value, payer := payer } := by
      rw [indexRowOf_of_table named]
      refine MultiIndex.findBy_of_row
        (fun left right => (clash_secondary_iff left right).mpr) row ?_
      rw [isId]
      rfl
    exact ⟨iterator, final, _, stored, held, admits.1⟩

/-- A table with a new name and a row with a new key are created with a new id
if and only if the ids in their memory are not in use. -/
theorem created_with_newId_iff (reachable : Reachable sha ndebug eos.db)
    (code : Name) (scope : Sha256) (table payer : Name) :
    (∀ block : Block, eos.tableNamed (code, scope, table) = none →
      (CreatesTable (code, scope, table)
          (findOrCreateTable code scope table payer block) eos ↔
        (eos.db.rows .tableId).rows[block.unset]? = none)) ∧
    (∀ (buffer : Bytes) (block : Block),
      eos.tableNamed (code, scope, table) = none →
        (CreatesTable (code, scope, table)
            (dbStoreByScope code scope table payer buffer block) eos ↔
          (eos.db.rows .tableId).rows[block.unset]? = none)) ∧
    ∀ (kind : IndexKind) (id : UInt64) (value : SecondaryKey kind)
      (memory : Memory),
      eos.indexRowOf kind (code, scope, table) id = none →
        (StoresIndexRow kind (code, scope, table) id
            (idxStore kind code scope table payer id value memory) eos ↔
          eos.UnsetIdsUnused kind (code, scope, table) id memory) := by
  have ready := reachable.allWellMade.ready
  refine ⟨?_, ?_, ?_⟩
  · exact fun _ absent => createsTable_findOrCreateTable_iff ready absent
  · exact fun _ _ absent => createsTable_dbStoreByScope_iff ready absent
  · exact fun _ _ _ _ absent => storesIndexRow_idxStore_iff ready absent

theorem created_with_newId_iff_secondTable :
    ∃ eos : EosDb, Reachable (fun _ => 0) false eos.db ∧
      CreatesTable (⟨1⟩, 2, ⟨9⟩) (findOrCreateTable ⟨1⟩ 2 ⟨9⟩ ⟨4⟩ ⟨48, 6⟩)
        eos := by
  obtain ⟨eos, reachable, test⟩ := reachable_of_any (fun _ => 0)
    false storeSeven (fun eos => decide (eos.tableNamed (⟨1⟩, 2, ⟨9⟩) = none ∧
      (eos.db.rows .tableId).rows[(6 : Int64)]? = none)) (by decide +kernel)
  obtain ⟨absent, unused⟩ := of_decide_eq_true test
  exact ⟨eos, reachable,
    ((created_with_newId_iff reachable ⟨1⟩ 2 ⟨9⟩ ⟨4⟩).1 ⟨48, 6⟩ absent).mpr
      unused⟩

/-- The memory of a second table holds the id of the first one. -/
theorem created_with_usedId :
    ∃ eos : EosDb, Reachable (fun _ => 0) false eos.db ∧
      eos.tableNamed (⟨1⟩, 2, ⟨9⟩) = none ∧
      ¬ Succeeds (findOrCreateTable ⟨1⟩ 2 ⟨9⟩ ⟨4⟩ ⟨48, 5⟩) eos ∧
      ¬ Succeeds (dbStoreByScope ⟨1⟩ 2 ⟨9⟩ ⟨4⟩ [] ⟨48, 5⟩) eos ∧
      ¬ Succeeds
        (idxStore .idx64 ⟨1⟩ 2 ⟨9⟩ ⟨4⟩ 7 1 ⟨⟨48, 5⟩, ⟨64, 0⟩⟩) eos := by
  obtain ⟨eos, reachable, test⟩ := reachable_of_any (fun _ => 0)
    false storeSeven (fun eos => decide (eos.tableNamed (⟨1⟩, 2, ⟨9⟩) = none ∧
      ¬ Succeeds (findOrCreateTable ⟨1⟩ 2 ⟨9⟩ ⟨4⟩ ⟨48, 5⟩) eos ∧
      ¬ Succeeds (dbStoreByScope ⟨1⟩ 2 ⟨9⟩ ⟨4⟩ [] ⟨48, 5⟩) eos ∧
      ¬ Succeeds
        (idxStore .idx64 ⟨1⟩ 2 ⟨9⟩ ⟨4⟩ 7 1 ⟨⟨48, 5⟩, ⟨64, 0⟩⟩) eos))
    (by decide +kernel)
  exact ⟨eos, reachable, of_decide_eq_true test⟩

end Fresh

end EosDb

end StateDatabase
