import Mathlib
import StateDatabase.EosDb

/-!
# What the steps of `eos_db` do

Each program of `EosDb` is described by its effect on the rows, the addresses
and the caches.  Later modules use these descriptions and do not look into the
programs again.
-/

namespace StateDatabase

open Programs GenericIndex

/-! ## A database with all its indices -/

namespace Database

variable {τ : Type} [DecidableEq τ] {F : IndexFamily τ} {database : Database F}
  {t other : τ}

/-- Every index type is registered and stored. -/
structure Ready (database : Database F) : Prop where
  registered : ∀ t, t ∈ database.indexList
  stored : ∀ t, ∃ index, database.segment t = some index

omit [DecidableEq τ] in
theorem Ready.segment_eq (ready : database.Ready) (t : τ) :
    database.segment t = some (database.index t) := by
  obtain ⟨index, found⟩ := ready.stored t
  rw [Database.index, found, Option.getD_some]

theorem Ready.setIndex (ready : database.Ready)
    (final : GenericIndex (F.indexType t)) :
    (database.setIndex t final).Ready where
  registered := ready.registered
  stored := by
    intro tested
    by_cases same : tested = t
    · subst same
      exact ⟨final, setIndex_segment_self tested final⟩
    · rw [setIndex_segment_ne same]
      exact ready.stored tested

@[simp]
theorem index_setIndex_self (final : GenericIndex (F.indexType t)) :
    (database.setIndex t final).index t = final := by
  rw [index, setIndex_segment_self, Option.getD_some]

theorem index_setIndex_ne (different : other ≠ t)
    (final : GenericIndex (F.indexType t)) :
    (database.setIndex t final).index other = database.index other := by
  rw [index, setIndex_segment_ne different, index]

theorem rows_setIndex (final : GenericIndex (F.indexType t)) :
    (database.setIndex t final).rows =
      Function.update database.rows t final.indices := by
  funext tested
  by_cases same : tested = t
  · subst same
    rw [rows, index_setIndex_self, Function.update_self]
  · rw [rows, index_setIndex_ne same, Function.update_of_ne same, rows]

theorem Ready.onRegistered_ok {α : Type} {value : α}
    {program : IndexM (F.indexType t) α}
    {final : GenericIndex (F.indexType t)} (ready : database.Ready)
    (returned : program (database.index t) = .ok value final) :
    onRegistered t program database =
      .ok value (database.setIndex t final) := by
  unfold onRegistered
  rw [bind_apply_of_ok _ (get_apply database), if_pos (ready.registered t),
    onIndex]
  simp only [ready.segment_eq t, returned]

theorem Ready.onRegistered_error {α : Type} {fault : Fault}
    {program : IndexM (F.indexType t) α}
    {final : GenericIndex (F.indexType t)} (ready : database.Ready)
    (failed : program (database.index t) = .error fault final) :
    onRegistered t program database =
      .error fault (database.setIndex t final) := by
  unfold onRegistered
  rw [bind_apply_of_ok _ (get_apply database), if_pos (ready.registered t),
    onIndex]
  simp only [ready.segment_eq t, failed]

/-- Writing the index back that is there. -/
theorem Ready.setIndex_index (ready : database.Ready) (t : τ) :
    database.setIndex t (database.index t) = database :=
  setIndex_self (ready.segment_eq t)

theorem Ready.indices_apply (ready : database.Ready) (t : τ) :
    indices t database = .ok (database.rows t) database := by
  have read : (do return (← get).indices :
      IndexM (F.indexType t) (MultiIndex (F.indexType t))) (database.index t) =
        .ok (database.rows t) (database.index t) := rfl
  rw [indices, ready.onRegistered_ok read, ready.setIndex_index]

/-- One table has new rows. -/
structure Wrote (t : τ) (contents : MultiIndex (F.indexType t))
    (before after : Database F) : Prop where
  ready : after.Ready
  rows : after.rows = Function.update before.rows t contents

theorem Ready.create_some {value : (F.indexType t).Value}
    {inserted : MultiIndex (F.indexType t)} (ready : database.Ready)
    (success : (database.rows t).emplace value = some inserted) :
    ∃ final, create t value database = .ok ⟨⟩ final ∧
      Wrote t inserted database final := by
  refine ⟨_, ready.onRegistered_ok (emplace_apply_some success),
    ready.setIndex _, ?_⟩
  rw [rows_setIndex, recordHead_indices]

theorem Ready.create_none {value : (F.indexType t).Value}
    (ready : database.Ready)
    (refused : (database.rows t).emplace value = none) :
    create t value database =
      .error (.logicError uniquenessMessage) database := by
  rw [create, ready.onRegistered_error (emplace_apply_none refused),
    ready.setIndex_index]

theorem Ready.modify_of_interchangeable {id : (F.indexType t).Id}
    {value : (F.indexType t).Value}
    {modifier : (F.indexType t).Value → (F.indexType t).Value}
    (ready : database.Ready)
    (found : (database.rows t).rows[id]? = some value)
    (same : (F.indexType t).Interchangeable value (modifier value)) :
    ∃ final modified, modify t id modifier database = .ok ⟨⟩ final ∧
      Wrote t modified database final ∧
      ∀ tested : (F.indexType t).Id, modified.rows[tested]? =
        if id = tested then some (modifier value)
        else (database.rows t).rows[tested]? := by
  obtain ⟨modified, success, isRows⟩ :=
    StateDatabase.modify_of_interchangeable found same
  refine ⟨_, modified,
    ready.onRegistered_ok (modify_apply_some found success),
    ⟨ready.setIndex _, rows_setIndex _⟩, isRows⟩

theorem Ready.remove_of_row {id : (F.indexType t).Id}
    {value : (F.indexType t).Value} (ready : database.Ready)
    (found : (database.rows t).rows[id]? = some value) :
    ∃ final, remove t id database = .ok ⟨⟩ final ∧
      Wrote t ((database.rows t).erase id) database final :=
  ⟨_, ready.onRegistered_ok (remove_apply found),
    ready.setIndex _, rows_setIndex _⟩

end Database

theorem emptyTables_ready : emptyTables.Ready where
  registered := by
    intro t
    cases t with
    | index kind => cases kind <;> decide
    | _ => decide
  stored := fun t => ⟨GenericIndex.empty (indexOf t), rfl⟩

/-! ## Changes that exclude the same rows -/

section Modifiers

theorem interchangeable_count (table : TableIdObject) (count : UInt32) :
    tableIdMultiIndex.Interchangeable table { table with count := count } :=
  IndexType.KeepsKeys.interchangeable
    ⟨rfl, by simp [TableIdObject.codeScopeTable]⟩

theorem interchangeable_scope (table : TableIdObject) (payer : Name)
    (value : Bytes) :
    tableIdMultiIndex.Interchangeable table
      { table with value := value, payer := payer } :=
  IndexType.KeepsKeys.interchangeable
    ⟨rfl, by simp [TableIdObject.codeScopeTable]⟩

theorem interchangeable_keyValue (row : KeyValueObject) (payer : Name)
    (value : Bytes) :
    keyValueIndex.Interchangeable row
      { row with value := value, payer := payer } :=
  IndexType.KeepsKeys.interchangeable
    ⟨rfl, by simp [KeyValueObject.scopePrimary]⟩

/-- The secondary key is part of a unique key, but does not decide which rows
clash. -/
theorem interchangeable_secondary {Key : Type} [DecidableEq Key]
    (row : IndexObject Key) (payer : Name) (secondary : Key) :
    (secondaryIndex Key).Interchangeable row
      { row with secondaryKey := secondary, payer := payer } := by
  refine ⟨rfl, fun other => ?_⟩
  rw [clash_secondary_iff, clash_secondary_iff]
  rfl

end Modifiers

/-! ## The steps -/

namespace EosDb

variable {eos : EosDb}

theorem onDatabase_ok {α : Type} {value : α}
    {program : Database.DatabaseM eosDbTables α}
    {final : Database eosDbTables} (returned : program eos.db = .ok value final) :
    onDatabase program eos = .ok value { eos with db := final } := by
  simp only [onDatabase, zoom, returned]

theorem onDatabase_error {α : Type} {fault : Fault}
    {program : Database.DatabaseM eosDbTables α}
    {final : Database eosDbTables} (failed : program eos.db = .error fault final) :
    onDatabase program eos = .error fault { eos with db := final } := by
  simp only [onDatabase, zoom, failed]

/-- The addresses after an object was built in a block. -/
def placed (place : (t : TableType) → (indexOf t).Id → Address)
    (t : TableType) (id : (indexOf t).Id) (address : Address) :
    (t : TableType) → (indexOf t).Id → Address :=
  Function.update place t (Function.update (place t) id address)

theorem create_some {t : TableType} {block : Block}
    {value : (indexOf t).Value} {inserted : MultiIndex (indexOf t)}
    (ready : eos.db.Ready)
    (success : (eos.db.rows t).emplace value = some inserted) :
    ∃ db, create t block value eos =
        .ok ⟨⟩ { eos with
          db := db
          place := placed eos.place t ((indexOf t).id value) block.address } ∧
      Database.Wrote t inserted eos.db db := by
  obtain ⟨db, created, wrote⟩ := ready.create_some success
  refine ⟨db, ?_, wrote⟩
  rw [create, bind_apply_of_ok _ (onDatabase_ok created),
    bind_apply_of_ok _ (get_apply _)]
  rfl

theorem create_none {t : TableType} {block : Block}
    {value : (indexOf t).Value} (ready : eos.db.Ready)
    (refused : (eos.db.rows t).emplace value = none) :
    create t block value eos =
      .error (.logicError uniquenessMessage) eos := by
  rw [create, bind_apply_of_error _ (onDatabase_error (ready.create_none refused))]

theorem modify_of_interchangeable {t : TableType} {id : (indexOf t).Id}
    {value : (indexOf t).Value}
    (modifier : (indexOf t).Value → (indexOf t).Value) (ready : eos.db.Ready)
    (found : (eos.db.rows t).rows[id]? = some value)
    (same : (indexOf t).Interchangeable value (modifier value)) :
    ∃ db modified, modify t id modifier eos = .ok ⟨⟩ { eos with db := db } ∧
      Database.Wrote t modified eos.db db ∧
      ∀ tested : (indexOf t).Id, modified.rows[tested]? =
        if id = tested then some (modifier value)
        else (eos.db.rows t).rows[tested]? := by
  obtain ⟨db, modified, success, wrote, rows⟩ :=
    ready.modify_of_interchangeable found same
  exact ⟨db, modified, onDatabase_ok success, wrote, rows⟩

theorem remove_of_row {t : TableType} {id : (indexOf t).Id}
    {value : (indexOf t).Value} (ready : eos.db.Ready)
    (found : (eos.db.rows t).rows[id]? = some value) :
    ∃ db, remove t id eos = .ok ⟨⟩ { eos with db := db } ∧
      Database.Wrote t ((eos.db.rows t).erase id) eos.db db := by
  obtain ⟨db, success, wrote⟩ := ready.remove_of_row found
  exact ⟨db, onDatabase_ok success, wrote⟩

theorem indices_apply (ready : eos.db.Ready) (t : TableType) :
    indices t eos = .ok (eos.db.rows t) eos :=
  onDatabase_ok (ready.indices_apply t)

/-- Two objects of one type never share an address. -/
def Apart (eos : EosDb) (t : TableType) : Prop :=
  ∀ (left right : (indexOf t).Id),
    (eos.db.rows t).rows[left]? ≠ none → (eos.db.rows t).rows[right]? ≠ none →
      eos.place t left = eos.place t right → left = right

/-- No object of the type stands at the address. -/
def Vacant (eos : EosDb) (t : TableType) (address : Address) : Prop :=
  ∀ entry ∈ (eos.db.rows t).rows.toList, eos.place t entry.1 ≠ address

instance (eos : EosDb) (t : TableType) (address : Address) :
    Decidable (eos.Vacant t address) :=
  inferInstanceAs (Decidable
    (∀ entry ∈ (eos.db.rows t).rows.toList, eos.place t entry.1 ≠ address))

/-- A pointer to a stored object leads to it. -/
theorem objectAt_of_row {t : TableType} {id : (indexOf t).Id}
    {value : (indexOf t).Value} {address : Address} (ready : eos.db.Ready)
    (apart : eos.Apart t) (found : (eos.db.rows t).rows[id]? = some value)
    (isAddress : eos.place t id = address) :
    objectAt t address eos = .ok value eos := by
  rw [objectAt, bind_apply_of_ok _ (indices_apply ready t),
    bind_apply_of_ok _ (get_apply eos)]
  have entry : (eos.db.rows t).rows.toList.find?
      (fun entry => eos.place t entry.1 = address) = some (id, value) := by
    cases hit : (eos.db.rows t).rows.toList.find?
        (fun entry => eos.place t entry.1 = address) with
    | none =>
        have missed := List.find?_eq_none.mp hit (id, value)
          ((Maps.mem_map_toList _ _ _).mpr found)
        simp [isAddress] at missed
    | some other =>
        have row := (Maps.mem_map_toList _ _ _).mp
          (List.mem_of_find?_eq_some hit)
        have otherAddress : eos.place t other.1 = address := by
          simpa using List.find?_some hit
        have sameId := apart other.1 id (by rw [row]; nofun)
          (by rw [found]; nofun) (otherAddress.trans isAddress.symm)
        have sameValue : other.2 = value := by
          rw [sameId, found] at row
          exact (Option.some.inj row).symm
        rw [← sameId, ← sameValue]
  rw [entry]
  rfl

/-! ### Tables -/

theorem findTable_apply (ready : eos.db.Ready) (code : Name) (scope : Sha256)
    (table : Name) :
    findTable code scope table eos =
      .ok ((eos.db.rows .tableId).findBy TableIdObject.codeScopeTable
        (code, scope, table)) eos := by
  rw [findTable, bind_apply_of_ok _ (indices_apply ready .tableId)]
  rfl

section Tables

variable {code : Name} {scope : Sha256} {table payer : Name} {block : Block}

theorem findOrCreateTable_found {existing : TableIdObject}
    (ready : eos.db.Ready)
    (found : (eos.db.rows .tableId).findBy TableIdObject.codeScopeTable
      (code, scope, table) = some existing) :
    findOrCreateTable code scope table payer block eos =
      .ok existing.id eos := by
  rw [findOrCreateTable, bind_apply_of_ok _ (findTable_apply ready _ _ _),
    found]
  rfl

theorem findOrCreateTable_created
    {inserted : MultiIndex tableIdMultiIndex} (ready : eos.db.Ready)
    (absent : (eos.db.rows .tableId).findBy TableIdObject.codeScopeTable
      (code, scope, table) = none)
    (success : (eos.db.rows .tableId).emplace
      (newTable code scope table payer [] block) = some inserted) :
    ∃ db, findOrCreateTable code scope table payer block eos =
        .ok block.unset { eos with
          db := db
          place := placed eos.place .tableId block.unset block.address } ∧
      Database.Wrote .tableId inserted eos.db db := by
  obtain ⟨db, created, wrote⟩ := create_some ready success
  refine ⟨db, ?_, wrote⟩
  rw [findOrCreateTable, bind_apply_of_ok _ (findTable_apply ready _ _ _),
    absent]
  simp only
  rw [bind_apply_of_ok _ created]
  rfl

theorem findOrCreateTable_refused (ready : eos.db.Ready)
    (absent : (eos.db.rows .tableId).findBy TableIdObject.codeScopeTable
      (code, scope, table) = none)
    (refused : (eos.db.rows .tableId).emplace
      (newTable code scope table payer [] block) = none) :
    findOrCreateTable code scope table payer block eos =
      .error (.logicError uniquenessMessage) eos := by
  rw [findOrCreateTable, bind_apply_of_ok _ (findTable_apply ready _ _ _),
    absent]
  simp only
  rw [bind_apply_of_error _ (create_none ready refused)]

end Tables

/-! ### Rows -/

section Rows

variable {r : RowTable} {code : Name} {scope : Sha256} {table payer : Name}
  {newRow : Int64 → (indexOf r.type).Value} {memory : Memory}
  {located : EosDb} {tab : Int64}

theorem type_ne_tableId (r : RowTable) : r.type ≠ .tableId := by
  cases r with
  | keyValue => nofun
  | index kind => nofun

theorem placed_self (place : (t : TableType) → (indexOf t).Id → Address)
    (t : TableType) (id : (indexOf t).Id) (address : Address) :
    placed place t id address t id = address := by
  rw [placed, Function.update_self, Function.update_self]

theorem placed_other_id (place : (t : TableType) → (indexOf t).Id → Address)
    {t : TableType} {id other : (indexOf t).Id} (different : other ≠ id)
    (address : Address) :
    placed place t id address t other = place t other := by
  rw [placed, Function.update_self, Function.update_of_ne different]

theorem placed_other_type
    (place : (t : TableType) → (indexOf t).Id → Address) {t other : TableType} (different : other ≠ t) (id : (indexOf t).Id)
    (address : Address) :
    placed place t id address other = place other := by
  rw [placed, Function.update_of_ne different]

/-- The cache of a row table and the iterator after a row was stored. -/
def cachedRow (cache : IteratorCache) (tab : Int64)
    (tableAddress rowAddress : Address) : Int × IteratorCache :=
  (cache.cacheTable tab tableAddress).2.add rowAddress

/-- A stored row is in its table, the count has gone up, and the row has an
iterator. -/
theorem storeRow_ok {tableObj : TableIdObject}
    {inserted : MultiIndex (indexOf r.type)}
    (isLocated : findOrCreateTable code scope table payer memory.table eos =
      .ok tab located)
    (ready : located.db.Ready)
    (hasTable : (located.db.rows .tableId).rows[tab]? = some tableObj)
    (success : (located.db.rows r.type).emplace (newRow tab) = some inserted) :
    ∃ db counted, storeRow r code scope table payer newRow memory eos =
        .ok (cachedRow (located.caches r) tab (located.place .tableId tab)
            memory.row.address).1
          { db := db
            place := placed located.place r.type
              ((indexOf r.type).id (newRow tab)) memory.row.address
            caches := Function.update located.caches r
              (cachedRow (located.caches r) tab (located.place .tableId tab)
                memory.row.address).2 } ∧
      db.Ready ∧
      db.rows = Function.update
        (Function.update located.db.rows r.type inserted) .tableId counted ∧
      ∀ tested : Int64, counted.rows[tested]? =
        if tab = tested then some { tableObj with count := tableObj.count + 1 }
        else (located.db.rows .tableId).rows[tested]? := by
  obtain ⟨withRow, created, rowWrote⟩ :=
    create_some ready success
  have rowReady : ({ located with
      db := withRow
      place := placed located.place r.type
        ((indexOf r.type).id (newRow tab)) memory.row.address } :
      EosDb).db.Ready := rowWrote.ready
  have sameTables : withRow.rows .tableId = located.db.rows .tableId := by
    rw [rowWrote.rows, Function.update_of_ne (type_ne_tableId r).symm]
  obtain ⟨db, counted, counts, tableWrote, rows⟩ :=
    modify_of_interchangeable (t := .tableId)
      (fun t => { t with count := t.count + 1 }) rowReady
      (sameTables ▸ hasTable) (interchangeable_count tableObj _)
  refine ⟨db, counted, ?_, tableWrote.ready, ?_, ?_⟩
  · rw [storeRow, bind_apply_of_ok _ isLocated, bind_apply_of_ok _ created,
      bind_apply_of_ok _ counts]
    have sameAddress : placed located.place r.type
        ((indexOf r.type).id (newRow tab)) memory.row.address .tableId tab =
          located.place .tableId tab := by
      rw [placed_other_type _ (type_ne_tableId r).symm]
    simp only [cacheTable, addObject, setCache, cachedRow, bind, EStateM.bind,
      get, getThe, MonadStateOf.get, EStateM.get, set, EStateM.set, pure,
      EStateM.pure, Function.update_self, Function.update_idem, sameAddress,
      placed_self]
  · rw [tableWrote.rows, rowWrote.rows]
  · intro tested
    rw [rows tested]
    simp only [sameTables]

/-- A row that violates uniqueness is not stored; a table that was created for
it stays. -/
theorem storeRow_refused
    (isLocated : findOrCreateTable code scope table payer memory.table eos =
      .ok tab located)
    (ready : located.db.Ready)
    (refused : (located.db.rows r.type).emplace (newRow tab) = none) :
    storeRow r code scope table payer newRow memory eos =
      .error (.logicError uniquenessMessage) located := by
  rw [storeRow, bind_apply_of_ok _ isLocated,
    bind_apply_of_error _ (create_none ready refused)]

theorem storeRow_error {fault : Fault}
    (failed : findOrCreateTable code scope table payer memory.table eos =
      .error fault located) :
    storeRow r code scope table payer newRow memory eos =
      .error fault located := by
  rw [storeRow, bind_apply_of_error _ failed]

/-- The count goes down and the row goes. -/
theorem dropRow_ok {row : (indexOf r.type).Id}
    {value : (indexOf r.type).Value} {tableObj : TableIdObject}
    (ready : eos.db.Ready)
    (found : (eos.db.rows r.type).rows[row]? = some value)
    (hasTable : (eos.db.rows .tableId).rows[tab]? = some tableObj) :
    ∃ db counted, dropRow r row tab eos = .ok ⟨⟩ { eos with db := db } ∧
      db.Ready ∧
      db.rows = Function.update
        (Function.update eos.db.rows .tableId counted) r.type
        ((eos.db.rows r.type).erase row) ∧
      ∀ tested : Int64, counted.rows[tested]? =
        if tab = tested then some { tableObj with count := tableObj.count - 1 }
        else (eos.db.rows .tableId).rows[tested]? := by
  obtain ⟨middle, counted, counts, tableWrote, rows⟩ :=
    modify_of_interchangeable (t := .tableId)
      (fun t => { t with count := t.count - 1 }) ready hasTable (interchangeable_count tableObj _)
  have middleReady : ({ eos with db := middle } : EosDb).db.Ready :=
    tableWrote.ready
  have sameRows : middle.rows r.type = eos.db.rows r.type := by
    rw [tableWrote.rows, Function.update_of_ne (type_ne_tableId r)]
  obtain ⟨db, removed, rowWrote⟩ :=
    remove_of_row middleReady (sameRows ▸ found)
  refine ⟨db, counted, ?_, rowWrote.ready, ?_, rows⟩
  · rw [dropRow, bind_apply_of_ok _ counts]
    exact removed
  · rw [rowWrote.rows]
    simp only [sameRows, tableWrote.rows]

end Rows

end EosDb

end StateDatabase
