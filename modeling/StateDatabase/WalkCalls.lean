import Mathlib
import StateDatabase.Navigation

/-!
# Calls on rows keep tables walkable

Every call on rows of the primary table and of the secondary indices, through
any iterator, leaves a state in which tables can be walked through, unless it
ends the process.
-/

namespace StateDatabase

open Programs GenericIndex

namespace EosDb

/-- The program leaves a navigable state, unless it ends the process. -/
def LeavesNavigable {α : Type} (used : List Int64) (program : EosDbM α)
    (eos : EosDb) : Prop :=
  Ends program eos
    (fun _ final => Navigable final (final.liveTables ++ used))
    (fun fault final => fault.isException = true →
      Navigable final (final.liveTables ++ used))

variable {eos final : EosDb} {used : List Int64} {ndebug : Bool}
  {code : Name} {scope : Sha256} {table payer : Name} {id : UInt64}
  {iterator : Int} {memory : Memory}

theorem Navigable.live (navigable : Navigable eos used) :
    Navigable eos (eos.liveTables ++ used) :=
  navigable.mono (List.subset_append_right _ _)

/-- A program that reads first. -/
theorem leavesNavigable_of_reads {α β : Type} {program : EosDbM α}
    {continuation : α → EosDbM β} {post : α → Prop}
    (reads : Reads program eos post)
    (rest : ∀ value, post value →
      LeavesNavigable used (continuation value) eos) :
    LeavesNavigable used (program >>= continuation) eos := by
  apply ends_bind
  apply reads.imp
  · rintro value middle ⟨rfl, holds⟩
    exact rest value holds
  · intro fault _ endsProcess isException
    rw [endsProcess] at isException
    cases isException

/-- The row that an iterator leads to, with the entry of its table. -/
theorem Navigable.reads_getObject (navigable : Navigable eos used) :
    Reads (getObject ndebug .keyValue iterator) eos
      (fun obj => ∃ (position : Nat) (entry : Address × Int),
        iterator = position ∧
        eos.keyvalEntries[position]? =
          some (some (eos.place .keyValue obj.id)) ∧
        (eos.db.rows .keyValue).rows[obj.id]? = some obj ∧
        (eos.caches .keyValue).tableCache[obj.tId]? = some entry) := by
  apply (reads_getObject_place navigable.ready).imp
  · rintro obj middle ⟨rfl, position, address, isPosition, live, found, rfl⟩
    obtain ⟨otherId, row, isRow, samePlace, entry, cached⟩ :=
      navigable.cache.entries position _ live
    have same : otherId = obj.id := navigable.rowsApart otherId obj.id
      (by rw [isRow]; exact Option.some_ne_none row)
      (by rw [found]; exact Option.some_ne_none obj) samePlace
    rw [same, found] at isRow
    cases isRow
    exact ⟨rfl, position, entry, isPosition, live, found, cached⟩
  · exact fun _ _ endsProcess => endsProcess

/-! ## Storing rows -/

/-- What `find_or_create_table` leaves. -/
theorem Navigable.ends_findOrCreateTable {block : Block}
    (navigable : Navigable eos used)
    (granted : eos.tableNamed (code, scope, table) = none →
      eos.TableBlock used block) :
    Ends (findOrCreateTable code scope table payer block) eos
      (fun tab located => Navigable located (located.liveTables ++ used) ∧
        (∃ tableObj, (located.db.rows .tableId).rows[tab]? = some tableObj) ∧
        ∀ (t : TableType) (address : Address), t ≠ .tableId →
          eos.Vacant t address → located.Vacant t address)
      (fun _ left => left = eos) := by
  cases named : (eos.db.rows .tableId).findBy TableIdObject.codeScopeTable
      (code, scope, table) with
  | some existing =>
      apply ends_of_ok (findOrCreateTable_found navigable.ready named)
      exact ⟨navigable.live, ⟨existing, (row_of_tableNamed named).1⟩,
        fun _ _ _ vacant => vacant⟩
  | none =>
      obtain ⟨vacant, notUsed⟩ := granted named
      cases attempt : (eos.db.rows .tableId).emplace
          (newTable code scope table payer [] block) with
      | none =>
          exact ends_of_error
            (findOrCreateTable_refused navigable.ready named attempt) rfl
      | some tables =>
          obtain ⟨db, creates, wrote⟩ :=
            findOrCreateTable_created navigable.ready named attempt
          obtain ⟨absent, entries⟩ := MultiIndex.emplace_some attempt
          have isTables : db.rows .tableId = tables := by
            rw [wrote.rows, Function.update_self]
          have isStored : (db.rows .tableId).rows[block.unset]? =
              some (newTable code scope table payer [] block) := by
            rw [isTables, entries]
            exact if_pos rfl
          have otherRows : ∀ t, t ≠ .tableId → db.rows t = eos.db.rows t := by
            intro t different
            rw [wrote.rows, Function.update_of_ne different]
          have isNew : block.unset ∉ used :=
            fun member => notUsed member absent
          have created := navigable.tableCreated
            { eos with
              db := db
              place := placed eos.place .tableId block.unset block.address }
            attempt isNew vacant wrote.ready isTables
            (otherRows .keyValue (by decide)) rfl rfl
          apply ends_of_ok creates
          refine ⟨created.mono ?_, ⟨_, isStored⟩, ?_⟩
          · intro tab member
            rw [List.mem_append]
            rcases List.mem_cons.mp member with rfl | isUsed
            · left
              rw [mem_liveTables]
              change (db.rows .tableId).rows[block.unset]? ≠ none
              rw [isStored]
              exact Option.some_ne_none _
            · exact Or.inr isUsed
          · intro t address different isVacant entry member
            have isRows : (db.rows t) = eos.db.rows t := otherRows t different
            change entry ∈ (db.rows t).rows.toList at member
            rw [isRows] at member
            change placed eos.place .tableId block.unset block.address t _ ≠ _
            rw [placed_other_type eos.place different]
            exact isVacant entry member

/-- The tables after a row was stored and counted. -/
theorem stored_counted_iff {contents : Contents}
    {counted : MultiIndex tableIdMultiIndex} {r : RowTable}
    {rows : MultiIndex (indexOf r.type)} {tab : Int64}
    {tableObj new : TableIdObject}
    (hasTable : (eos.db.rows .tableId).rows[tab]? = some tableObj)
    (isRows : contents = Function.update
      (Function.update eos.db.rows r.type rows) .tableId counted)
    (entries : ∀ tested : Int64, counted.rows[tested]? =
      if tab = tested then some new
      else (eos.db.rows .tableId).rows[tested]?)
    (tested : Int64) :
    (contents .tableId).rows[tested]? ≠ none ↔
      (eos.db.rows .tableId).rows[tested]? ≠ none := by
  rw [isRows, Function.update_self]
  exact stored_replaced_iff hasTable entries tested

/-- The same tables are stored. -/
theorem Navigable.sameTables {middle : EosDb}
    (navigable : Navigable final (middle.liveTables ++ used))
    (same : ∀ tab : Int64, (final.db.rows .tableId).rows[tab]? ≠ none ↔
      (middle.db.rows .tableId).rows[tab]? ≠ none) :
    Navigable final (final.liveTables ++ used) := by
  apply navigable.mono
  intro tab member
  rw [List.mem_append, mem_liveTables, same, ← mem_liveTables,
    ← List.mem_append]
  exact member

theorem keyValue_ne_index {kind : IndexKind} :
    TableType.keyValue ≠ .index kind := nofun

theorem tableId_ne_index {kind : IndexKind} :
    TableType.tableId ≠ .index kind := nofun

/-- `keyval_cache` is not the cache of a secondary index. -/
theorem keyvalCache_update (caches : RowTable → IteratorCache)
    (kind : IndexKind) (cache : IteratorCache) :
    Function.update caches (.index kind) cache .keyValue =
      caches .keyValue :=
  Function.update_of_ne (show RowTable.keyValue ≠ .index kind from nofun)
    cache caches

/-- A change of the cache of a secondary index. -/
theorem leavesNavigable_setCache {kind : IndexKind} {cache : IteratorCache}
    (navigable : Navigable eos used) :
    LeavesNavigable used (setCache (.index kind) cache) eos := by
  have sets : setCache (.index kind) cache eos = .ok ⟨⟩ { eos with
      caches := Function.update eos.caches (.index kind) cache } := rfl
  apply ends_of_ok sets
  apply Navigable.live
  apply navigable.unchanged { eos with
    caches := Function.update eos.caches (.index kind) cache }
    navigable.ready _ rfl rfl
  · exact fun tab stored => ⟨stored, rfl⟩
  · simp only [keyvalCache_update]

section Stores

variable {buffer : Bytes} {kind : IndexKind} {value : SecondaryKey kind}

theorem leavesNavigable_dbStoreI64 (navigable : Navigable eos used)
    (granted : eos.tableNamed (code, scope, table) = none →
      eos.TableBlock used memory.table)
    (vacant : eos.Vacant .keyValue memory.row.address) :
    LeavesNavigable used
      (dbStoreI64 code scope table payer id buffer memory) eos := by
  have locates : Ends (findOrCreateTable code scope table payer memory.table)
      eos _ _ := navigable.ends_findOrCreateTable granted
  cases located : findOrCreateTable code scope table payer memory.table eos with
  | error fault left =>
      have same := locates.of_error located
      subst same
      apply ends_of_error (storeRow_error located)
      exact fun _ => navigable.live
  | ok tab middle =>
      obtain ⟨isLocated, ⟨tableObj, hasTable⟩, staysVacant⟩ :=
        locates.of_ok located
      cases attempt : (middle.db.rows .keyValue).emplace
          (newKeyValue payer id buffer tab) with
      | none =>
          have refuses : storeRow .keyValue code scope table payer
              (newKeyValue payer id buffer) memory eos = _ :=
            storeRow_refused located isLocated.ready attempt
          apply ends_of_error refuses
          exact fun _ => isLocated
      | some inserted =>
          obtain ⟨db, counted, stores, ready, isRows, entries⟩ :
              ∃ db counted, storeRow .keyValue code scope table payer
                (newKeyValue payer id buffer) memory eos = _ ∧ _ :=
            storeRow_ok located isLocated.ready hasTable attempt
          have sameStored := stored_counted_iff hasTable isRows entries
          have hasTable' : (middle.db.rows .tableId).rows[tab]? ≠ none := by
            rw [hasTable]
            exact Option.some_ne_none tableObj
          have isInserted : db.rows .keyValue = inserted := by
            rw [isRows, Function.update_of_ne (by decide),
              Function.update_self]
          have sameTable : placed middle.place .keyValue id.toInt64
              memory.row.address .tableId tab = middle.place .tableId tab := by
            rw [placed_other_type middle.place (by decide)]
          have isFinal := withTable_withObject
            { middle with
              db := db
              place := placed middle.place .keyValue id.toInt64
                memory.row.address }
            sameTable (placed_self middle.place .keyValue id.toInt64 memory.row.address)
          have stored := isLocated.rowStoredAndCached
            { middle with
              db := db
              place := placed middle.place .keyValue id.toInt64
                memory.row.address }
            hasTable' (staysVacant .keyValue _ (by decide) vacant) attempt ready
            isInserted rfl (fun tested => (sameStored tested).mp) rfl
          apply ends_of_ok (stores.trans (congrArg _ isFinal.symm))
          exact stored.sameTables sameStored

/-- The row that `store` of a secondary index builds for a table. -/
def newIndexRow (payer : Name) (id : UInt64) (value : SecondaryKey kind)
    (block : Block) (tab : Int64) : IndexObject (SecondaryKey kind) :=
  { id := block.unset
    tId := tab
    primaryKey := id
    secondaryKey := value
    payer := payer }

/-- A row of a secondary index is no row of the primary table. -/
theorem leavesNavigable_idxStore (navigable : Navigable eos used)
    (granted : eos.tableNamed (code, scope, table) = none →
      eos.TableBlock used memory.table) :
    LeavesNavigable used
      (idxStore kind code scope table payer id value memory) eos := by
  have locates : Ends (findOrCreateTable code scope table payer memory.table)
      eos _ _ := navigable.ends_findOrCreateTable granted
  cases located : findOrCreateTable code scope table payer memory.table eos with
  | error fault left =>
      have same := locates.of_error located
      subst same
      apply ends_of_error (storeRow_error located)
      exact fun _ => navigable.live
  | ok tab middle =>
      obtain ⟨isLocated, ⟨tableObj, hasTable⟩, _⟩ := locates.of_ok located
      cases attempt : (middle.db.rows (.index kind)).emplace
          (newIndexRow payer id value memory.row tab) with
      | none =>
          have refuses : storeRow (.index kind) code scope table payer
              (newIndexRow payer id value memory.row) memory eos = _ :=
            storeRow_refused located isLocated.ready attempt
          apply ends_of_error refuses
          exact fun _ => isLocated
      | some inserted =>
          obtain ⟨db, counted, stores, ready, isRows, entries⟩ :
              ∃ db counted, storeRow (.index kind) code scope table payer
                (newIndexRow payer id value memory.row) memory eos = _ ∧ _ :=
            storeRow_ok located isLocated.ready hasTable attempt
          have sameStored := stored_counted_iff hasTable isRows entries
          apply ends_of_ok stores
          have otherType : ∀ t : TableType, t ≠ .index kind →
              placed middle.place (.index kind) memory.row.unset
                memory.row.address t = middle.place t := by
            intro t different
            rw [placed_other_type middle.place different]
          apply Navigable.sameTables _ sameStored
          apply isLocated.unchanged _ ready
          · simp only [keyvalCache_update]
          · change db.rows .keyValue = _
            rw [isRows, Function.update_of_ne (by decide),
              Function.update_of_ne keyValue_ne_index]
          · exact otherType .keyValue nofun
          · intro tested isStored
            exact ⟨(sameStored tested).mp isStored,
              congrFun (otherType .tableId nofun) tested⟩

end Stores

/-! ## Changing and removing rows -/

section Changes

variable {buffer : Bytes} {kind : IndexKind} {secondary : SecondaryKey kind}

theorem leavesNavigable_dbUpdateI64 (navigable : Navigable eos used) :
    LeavesNavigable used (dbUpdateI64 ndebug iterator payer buffer) eos := by
  apply leavesNavigable_of_reads navigable.reads_getObject
  rintro obj ⟨_, _, _, _, found, _⟩
  obtain ⟨db, modified, changes, wrote, entries⟩ :=
    modify_of_interchangeable (t := .keyValue)
      (fun o => { o with value := buffer, payer := payer }) navigable.ready
      found (interchangeable_keyValue obj payer buffer)
  have isRows : db.rows .keyValue = modified := by
    rw [wrote.rows, Function.update_self]
  have isTables : db.rows .tableId = eos.db.rows .tableId := by
    rw [wrote.rows, Function.update_of_ne (by decide)]
  apply ends_of_ok changes
  apply Navigable.live
  apply navigable.kept { eos with db := db } wrote.ready
    navigable.cache.mirrored rfl rfl
  · intro tab stored
    change (db.rows .tableId).rows[tab]? ≠ none at stored
    rw [isTables] at stored
    exact ⟨stored, rfl⟩
  · intro id new isNew
    change (db.rows .keyValue).rows[id]? = some new at isNew
    rw [isRows, entries] at isNew
    refine ⟨rfl, ?_⟩
    by_cases same : obj.id = id
    · rw [if_pos same] at isNew
      rw [← same, ← Option.some.inj isNew]
      exact ⟨obj, found, rfl⟩
    · rw [if_neg same] at isNew
      exact ⟨new, isNew, rfl⟩
  · intro position address live
    refine ⟨live, ?_⟩
    intro id row isRow _
    change (db.rows .keyValue).rows[id]? ≠ none
    rw [isRows, entries]
    split
    · exact Option.some_ne_none _
    · rw [isRow]
      exact Option.some_ne_none row

/-- The row goes with its entry. -/
theorem leavesNavigable_dbRemoveI64 (navigable : Navigable eos used) :
    LeavesNavigable used (dbRemoveI64 ndebug iterator) eos := by
  apply leavesNavigable_of_reads navigable.reads_getObject
  rintro obj ⟨position, _, rfl, live, found, _⟩
  apply leavesNavigable_of_reads (reads_getTable .keyValue obj.tId)
  intro tableAddress _
  apply leavesNavigable_of_reads
    (reads_objectAt navigable.ready .tableId tableAddress)
  intro tableObj hasTable
  obtain ⟨db, removes, ready, isErased, fewer⟩ :=
    removeI64Row_rows navigable.ready found hasTable
  have clears : removeIterator ndebug .keyValue position
      { eos with db := db } = _ := removeIterator_apply live
  have isCache : (EosDb.withoutObject { eos with db := db } position
      (eos.place .keyValue obj.id)).caches .keyValue =
      (eos.caches .keyValue).cleared position (eos.place .keyValue obj.id) :=
    withoutObject_cache position (eos.place .keyValue obj.id)
  apply ends_bind
  apply ends_of_ok removes
  apply ends_of_ok clears
  apply Navigable.live
  apply navigable.kept _ ready
  · rw [isCache]
    exact navigable.cache.mirrored.clear live
  · rw [isCache]
    rfl
  · rw [isCache]
    rfl
  · exact fun tab stored => ⟨fewer tab stored, rfl⟩
  · intro id new isNew
    change (db.rows .keyValue).rows[id]? = some new at isNew
    rw [isErased, MultiIndex.erase_row] at isNew
    split at isNew
    · cases isNew
    · exact ⟨rfl, new, isNew, rfl⟩
  · intro tested address isLive
    rw [keyvalEntries, isCache, IteratorCache.cleared_entry] at isLive
    obtain ⟨notCleared, wasLive⟩ := isLive
    refine ⟨wasLive, ?_⟩
    intro id row isRow isAddress
    have different : obj.id ≠ id := by
      intro same
      rw [← isAddress, ← same] at wasLive
      exact notCleared (navigable.cache.mirrored.unique live wasLive)
    change (db.rows .keyValue).rows[id]? ≠ none
    rw [isErased, MultiIndex.erase_row, if_neg different, isRow]
    exact Option.some_ne_none row

theorem leavesNavigable_idxUpdate (navigable : Navigable eos used) :
    LeavesNavigable used (idxUpdate ndebug kind iterator payer secondary)
      eos := by
  apply leavesNavigable_of_reads
    (EosDb.reads_getObject navigable.ready (.index kind) iterator)
  intro obj found
  apply leavesNavigable_of_reads (reads_getTable (.index kind) obj.tId)
  intro _ _
  obtain ⟨db, modified, changes, wrote, _⟩ :=
    modify_of_interchangeable (t := .index kind)
      (fun o => { o with secondaryKey := secondary, payer := payer })
      navigable.ready found (interchangeable_secondary obj payer secondary)
  have sameRows : ∀ t, t ≠ .index kind → db.rows t = eos.db.rows t := by
    intro t different
    rw [wrote.rows, Function.update_of_ne different]
  apply ends_of_ok changes
  apply Navigable.live
  apply navigable.unchanged { eos with db := db } wrote.ready rfl
    (sameRows .keyValue nofun) rfl
  intro tab stored
  change (db.rows .tableId).rows[tab]? ≠ none at stored
  rw [sameRows .tableId nofun] at stored
  exact ⟨stored, rfl⟩

theorem leavesNavigable_idxRemove (navigable : Navigable eos used) :
    LeavesNavigable used (idxRemove ndebug kind iterator) eos := by
  apply leavesNavigable_of_reads
    (EosDb.reads_getObject navigable.ready (.index kind) iterator)
  intro obj found
  apply leavesNavigable_of_reads (reads_getTable (.index kind) obj.tId)
  intro tableAddress _
  apply leavesNavigable_of_reads
    (reads_objectAt navigable.ready .tableId tableAddress)
  intro tableObj hasTable
  obtain ⟨db, counted, drops, ready, isRows, entries⟩ :=
    dropRow_ok (r := .index kind) navigable.ready found hasTable
  have dropped : Navigable { eos with db := db } used := by
    apply navigable.unchanged { eos with db := db } ready rfl _ rfl
    · intro tab stored
      change (db.rows .tableId).rows[tab]? ≠ none at stored
      rw [isRows, Function.update_of_ne tableId_ne_index,
        Function.update_self] at stored
      exact ⟨(stored_replaced_iff hasTable entries tab).mp stored, rfl⟩
    · change db.rows .keyValue = _
      rw [isRows, Function.update_of_ne keyValue_ne_index,
        Function.update_of_ne (by decide)]
  apply ends_bind
  apply ends_of_ok drops
  apply leavesNavigable_of_reads (reads_ofExcept fun _ => remove_fault)
  intro cache _
  exact leavesNavigable_setCache dropped

end Changes

/-! ## Looking for rows -/

/-- A row of a cached table gets an iterator. -/
theorem leavesNavigable_addObject {row : KeyValueObject} {tab : Int64}
    {entry : Address × Int} (navigable : Navigable eos used)
    (found : (eos.db.rows .keyValue).rows[row.id]? = some row)
    (inTable : row.tId = tab)
    (cached : (eos.caches .keyValue).tableCache[tab]? = some entry) :
    LeavesNavigable used (addObject .keyValue row.id) eos := by
  rw [← inTable] at cached
  apply ends_of_ok (addObject_apply row.id)
  exact (navigable.rowAdded found cached).live

/-- A result made of what a program returns. -/
theorem LeavesNavigable.thenPure {α β : Type} {program : EosDbM α}
    (leaves : LeavesNavigable used program eos) (result : α → β) :
    LeavesNavigable used (program >>= fun value => pure (result value)) eos :=
  ends_bind leaves

/-- The calls that look for a table and go on with it. -/
theorem leavesNavigable_findTable {continuation : TableIdObject → EosDbM Int}
    (navigable : Navigable eos used)
    (rest : ∀ tab : TableIdObject,
      (eos.db.rows .tableId).rows[tab.id]? ≠ none →
        LeavesNavigable used (continuation tab) eos) :
    LeavesNavigable used
      (do
        match ← findTable code scope table with
        | none => return -1
        | some tab => continuation tab) eos := by
  apply ends_bind
  apply ends_of_ok (findTable_apply navigable.ready code scope table)
  cases named : (eos.db.rows .tableId).findBy TableIdObject.codeScopeTable
      (code, scope, table) with
  | none => exact ends_pure navigable.live
  | some tab =>
      exact rest tab (stored_of_tableNamed named)

theorem leavesNavigable_cacheTable {α : Type} {continuation : Int → EosDbM α}
    {tab : Int64} (navigable : Navigable eos used)
    (stored : (eos.db.rows .tableId).rows[tab]? ≠ none)
    (rest : ∀ (tableEnd : Int) (entry : Address × Int),
      Navigable (eos.withTable tab) used →
      ((eos.withTable tab).caches .keyValue).tableCache[tab]? = some entry →
        LeavesNavigable used (continuation tableEnd) (eos.withTable tab)) :
    LeavesNavigable used (cacheTable .keyValue tab >>= continuation) eos := by
  obtain ⟨tableAddress, cached⟩ := eos.withTable_cached tab
  apply ends_bind
  apply ends_of_ok (cacheTable_apply tab)
  exact rest _ _ (navigable.tableCached stored) cached

theorem leavesNavigable_dbEndI64 (navigable : Navigable eos used) :
    LeavesNavigable used (dbEndI64 code scope table) eos := by
  apply leavesNavigable_findTable navigable
  intro tab stored
  apply ends_of_ok (cacheTable_apply tab.id)
  exact (navigable.tableCached stored).live

theorem leavesNavigable_dbFindI64 (navigable : Navigable eos used) :
    LeavesNavigable used (dbFindI64 code scope table id) eos := by
  apply leavesNavigable_findTable navigable
  intro tab stored
  apply leavesNavigable_cacheTable navigable stored
  intro tableEnd entry isCached cached
  apply ends_bind
  apply ends_of_ok (indices_apply isCached.ready .keyValue)
  split
  · exact ends_pure isCached.live
  · rename_i obj looked
    obtain ⟨found, isKey⟩ := MultiIndex.findBy_some looked
    have inTable : obj.tId = tab.id := congrArg Prod.fst isKey
    exact leavesNavigable_addObject isCached found inTable cached

theorem leavesNavigable_rowAtBound
    {bound : List KeyValueObject → Int64 × UInt64 → Nat}
    (navigable : Navigable eos used) :
    LeavesNavigable used (rowAtBound bound code scope table id) eos := by
  apply leavesNavigable_findTable navigable
  intro tab stored
  apply leavesNavigable_cacheTable navigable stored
  intro tableEnd entry isCached cached
  apply ends_bind
  apply ends_of_ok (indices_apply isCached.ready .keyValue)
  dsimp only
  split
  · exact ends_pure isCached.live
  · rename_i row isRow
    split
    · exact ends_pure isCached.live
    · rename_i inTable
      have found := mem_byScopePrimary.mp (List.mem_of_getElem? isRow)
      exact leavesNavigable_addObject isCached found (not_not.mp inTable)
        cached

theorem leavesNavigable_dbGetI64 {bufferSize : Nat}
    (navigable : Navigable eos used) :
    LeavesNavigable used (dbGetI64 ndebug iterator bufferSize) eos := by
  apply leavesNavigable_of_reads navigable.reads_getObject
  intro obj _
  split
  · exact ends_pure navigable.live
  · exact ends_pure navigable.live

/-! ## Going to the neighbours -/

section Neighbours

variable {primary : UInt64}

theorem getEndIteratorByTableId_fault {cache : IteratorCache} {tab : Int64}
    {fault : Fault}
    (failed : cache.getEndIteratorByTableId ndebug tab = .error fault) :
    fault.isException = false := by
  unfold IteratorCache.getEndIteratorByTableId at failed
  split at failed
  · cases failed
  · cases failed
    exact Fault.failedAssert_isException ndebug _

theorem leavesNavigable_getEnd {tab : Int64} (navigable : Navigable eos used) :
    LeavesNavigable used
      (do
        return (← ofExcept (((← get).caches .keyValue).getEndIteratorByTableId
          ndebug tab), primary)) eos := by
  apply ends_bind
  apply ends_of_ok (get_apply eos)
  apply leavesNavigable_of_reads
    (reads_ofExcept fun _ => getEndIteratorByTableId_fault)
  exact fun _ _ => ends_pure navigable.live

theorem leavesNavigable_dbNextI64 (navigable : Navigable eos used) :
    LeavesNavigable used (dbNextI64 ndebug iterator primary) eos := by
  unfold dbNextI64
  split
  · exact ends_pure navigable.live
  · apply leavesNavigable_of_reads navigable.reads_getObject
    rintro obj ⟨_, entry, _, _, _, cached⟩
    apply ends_bind
    apply ends_of_ok (indices_apply navigable.ready .keyValue)
    dsimp only
    split
    · rename_i next isNext
      split
      · exact leavesNavigable_getEnd navigable
      · rename_i inTable
        have found := mem_byScopePrimary.mp (List.mem_of_getElem? isNext)
        exact (leavesNavigable_addObject navigable found
          (not_not.mp inTable) cached).thenPure _
    · exact leavesNavigable_getEnd navigable

/-- The table is cached, if it has rows. -/
theorem leavesNavigable_stepBack {itr : Nat} {tab : Int64}
    (navigable : Navigable eos used)
    (cached : ∀ (id : Int64) (row : KeyValueObject),
      (eos.db.rows .keyValue).rows[id]? = some row → row.tId = tab →
        ∃ entry, (eos.caches .keyValue).tableCache[tab]? = some entry) :
    LeavesNavigable used
      (stepBack (byScopePrimary (eos.db.rows .keyValue)) itr tab primary)
      eos := by
  unfold stepBack
  split
  · exact ends_pure navigable.live
  · split
    · apply ends_of_error (throw_apply _ _)
      intro isException
      cases isException
    · rename_i previous isPrevious
      split
      · exact ends_pure navigable.live
      · rename_i inTable
        have found := mem_byScopePrimary.mp (List.mem_of_getElem? isPrevious)
        obtain ⟨entry, isCached⟩ := cached previous.id previous found
          (not_not.mp inTable)
        exact (leavesNavigable_addObject navigable found
          (not_not.mp inTable) isCached).thenPure _

theorem mem_of_findTableByEndIterator {cache : IteratorCache}
    {address : Address}
    (located : cache.findTableByEndIterator ndebug iterator =
      .ok (some address)) :
    address ∈ cache.endIteratorToTable := by
  unfold IteratorCache.findTableByEndIterator at located
  split at located
  · unfold IteratorCache.endIteratorToIndex at located
    split at located
    · cases located
    · exact List.mem_of_getElem? (Except.ok.inj located)
  · cases located

theorem findTableByEndIterator_fault {cache : IteratorCache} {fault : Fault}
    (failed : cache.findTableByEndIterator ndebug iterator = .error fault) :
    fault.isException = false := by
  unfold IteratorCache.findTableByEndIterator at failed
  split at failed
  · unfold IteratorCache.endIteratorToIndex at failed
    split at failed
    · cases failed
      rfl
    · cases failed
  · cases failed
    exact Fault.failedAssert_isException ndebug _

/-- The table that an end iterator leads to need not be the one that the
iterator was made for. -/
theorem leavesNavigable_dbPreviousI64 (navigable : Navigable eos used) :
    LeavesNavigable used (dbPreviousI64 ndebug iterator primary) eos := by
  unfold dbPreviousI64
  apply ends_bind
  apply ends_of_ok (indices_apply navigable.ready .keyValue)
  dsimp only
  split
  · apply ends_bind
    apply ends_of_ok (get_apply eos)
    apply leavesNavigable_of_reads
      (reads_ofExcept fun _ => findTableByEndIterator_fault)
    intro located isLocated
    split
    · apply ends_of_error (throw_apply _ _)
      intro isException
      rw [Fault.failedAssert_isException] at isException
      cases isException
    · rename_i address
      split
      · exact ends_pure navigable.live
      · apply leavesNavigable_of_reads
          (reads_objectAt_place navigable.ready .tableId address)
        rintro tab ⟨hasTable, isAddress⟩
        apply leavesNavigable_stepBack navigable
        intro id row found inTable
        apply navigable.strays tab.id id row _ _ found inTable
        · rw [hasTable]
          exact Option.some_ne_none tab
        · rw [isAddress]
          exact mem_of_findTableByEndIterator isLocated
  · apply leavesNavigable_of_reads navigable.reads_getObject
    rintro obj ⟨_, entry, _, _, _, cached⟩
    apply leavesNavigable_stepBack navigable
    exact fun _ _ _ _ => ⟨entry, cached⟩

end Neighbours

end EosDb

end StateDatabase
