import Mathlib
import StateDatabase.WalkRuns

/-!
# Storing and removing a set of rows

A program stores rows in a new table through one `eos_db`, changes some of
them, and then finds and removes them through another one, in any order.  The
table is created with the first row, whichever that is, and goes with the last
one, so the database is what it was.
-/

namespace StateDatabase

open Programs

namespace EosDb

/-! ## The program -/

/-- A row as the caller of `db_store_i64` gives it. -/
structure NewRow where
  id : UInt64
  payer : Name
  buffer : Bytes
deriving DecidableEq

/-- An iterator that `db_store_i64` has returned, or one that `db_find_i64`
returns. -/
inductive RowHandle where
  | returned (iterator : Int)
  | found (id : UInt64)

structure RowUpdate where
  handle : RowHandle
  payer : Name
  buffer : Bytes

/-- The iterator has been returned, or the id is one of these. -/
def RowHandle.Known (iterators : List Int) (ids : List UInt64) :
    RowHandle → Prop
  | .returned iterator => iterator ∈ iterators
  | .found id => id ∈ ids

section Programs

variable (ndebug : Bool) (code : Name) (scope : Sha256) (table : Name)

/-- The rows are stored one after the other, each in a block of its own. -/
def storeAll (tableBlock : Block) :
    List (NewRow × Block) → EosDbM (List Int)
  | [] => return []
  | (row, block) :: rest => do
      let iterator ← dbStoreI64 code scope table row.payer row.id row.buffer
        ⟨tableBlock, block⟩
      return iterator :: (← storeAll tableBlock rest)

def RowHandle.iterator : RowHandle → EosDbM Int
  | .returned iterator => return iterator
  | .found id => dbFindI64 code scope table id

def updateAll : List RowUpdate → EosDbM PUnit
  | [] => return ⟨⟩
  | update :: rest => do
      let iterator ← update.handle.iterator code scope table
      dbUpdateI64 ndebug iterator update.payer update.buffer
      updateAll rest

def removeAll : List UInt64 → EosDbM PUnit
  | [] => return ⟨⟩
  | id :: rest => do
      let iterator ← dbFindI64 code scope table id
      dbRemoveI64 ndebug iterator
      removeAll rest

end Programs

/-! ## The rows that are there in addition -/

/-- The row that is stored. -/
def NewRow.object (tab : Int64) (row : NewRow) : KeyValueObject :=
  newKeyValue row.payer row.id row.buffer tab

/-- The table is not there, and no table and no row has its id. -/
structure NewTable (start : Contents) (name : TableName) (tab : Int64) :
    Prop where
  noName : ∀ (tested : Int64) (tableObj : TableIdObject),
    (start .tableId).rows[tested]? = some tableObj →
      tableObj.codeScopeTable ≠ name
  noTable : (start .tableId).rows[tab]? = none
  noRow : ∀ (id : Int64) (row : KeyValueObject),
    (start .keyValue).rows[id]? = some row → row.tId ≠ tab

/-- The rows can be stored in the table `tab` one after the other. -/
structure Addable (start : Contents) (tab : Int64)
    (rows : List KeyValueObject) : Prop where
  inTable : ∀ row ∈ rows, row.tId = tab
  keyed : ∀ row ∈ rows, row.id = row.primaryKey.toInt64
  distinct : (rows.map KeyValueObject.primaryKey).Nodup
  absent : ∀ row ∈ rows, (start .keyValue).rows[row.id]? = none

/-- The rows and their table are there in addition to the contents `start`. -/
structure Added (start : Contents) (name : TableName) (tab : Int64)
    (rows : List KeyValueObject) (eos : EosDb) : Prop where
  otherTypes : ∀ t, t ≠ .keyValue → t ≠ .tableId → eos.db.rows t = start t
  added : ∀ row ∈ rows, (eos.db.rows .keyValue).rows[row.id]? = some row
  otherRows : ∀ id : Int64, (∀ row ∈ rows, row.id ≠ id) →
    (eos.db.rows .keyValue).rows[id]? = (start .keyValue).rows[id]?
  table : rows ≠ [] → ∃ tableObj : TableIdObject,
    (eos.db.rows .tableId).rows[tab]? = some tableObj ∧
      tableObj.codeScopeTable = name ∧
      tableObj.count = UInt32.ofNat rows.length
  noTable : rows = [] → (eos.db.rows .tableId).rows[tab]? = none
  otherTables : ∀ tested : Int64, tab ≠ tested →
    (eos.db.rows .tableId).rows[tested]? = (start .tableId).rows[tested]?

variable {start : Contents} {name : TableName} {tab : Int64}
  {rows rest : List KeyValueObject} {row : KeyValueObject}
  {eos final : EosDb} {used : List Int64} {ndebug : Bool}

theorem added_nil (newTable : NewTable start name tab)
    (same : eos.db.rows = start) : Added start name tab [] eos where
  otherTypes := fun t _ _ => by rw [same]
  added := nofun
  otherRows := fun id _ => by rw [same]
  table := fun notEmpty => absurd rfl notEmpty
  noTable := fun _ => by
    rw [same]
    exact newTable.noTable
  otherTables := fun tested _ => by rw [same]

/-- Addresses and caches do not matter. -/
theorem Added.of_rows (added : Added start name tab rows eos)
    (same : final.db.rows = eos.db.rows) :
    Added start name tab rows final where
  otherTypes := fun t => by
    rw [same]
    exact added.otherTypes t
  added := by
    rw [same]
    exact added.added
  otherRows := by
    rw [same]
    exact added.otherRows
  table := by
    rw [same]
    exact added.table
  noTable := by
    rw [same]
    exact added.noTable
  otherTables := by
    rw [same]
    exact added.otherTables

/-- Without additional rows, the contents are what they were. -/
theorem Added.rows_eq (added : Added start name tab [] eos)
    (newTable : NewTable start name tab) (t : TableType) :
    eos.db.rows t = start t := by
  by_cases isRows : t = .keyValue
  · subst isRows
    apply MultiIndex.ext_row
    exact fun id => added.otherRows id nofun
  · by_cases isTables : t = .tableId
    · subst isTables
      apply MultiIndex.ext_row
      intro tested
      by_cases same : tab = tested
      · subst same
        exact (added.noTable rfl).trans newTable.noTable.symm
      · exact added.otherTables tested same
    · exact added.otherTypes t isRows isTables

/-- The order of the rows does not matter. -/
theorem Added.perm {other : List KeyValueObject}
    (added : Added start name tab rows eos) (same : rows.Perm other) :
    Added start name tab other eos where
  otherTypes := added.otherTypes
  added := fun row member => added.added row (same.mem_iff.mpr member)
  otherRows := fun id noRow =>
    added.otherRows id fun row member => noRow row (same.mem_iff.mp member)
  table := by
    intro notEmpty
    rw [← same.length_eq]
    apply added.table
    rintro rfl
    exact notEmpty same.nil_eq.symm
  noTable := by
    rintro rfl
    exact added.noTable same.eq_nil
  otherTables := added.otherTables

theorem Addable.perm {other : List KeyValueObject}
    (addable : Addable start tab rows) (same : rows.Perm other) :
    Addable start tab other where
  inTable := fun row member => addable.inTable row (same.mem_iff.mpr member)
  keyed := fun row member => addable.keyed row (same.mem_iff.mpr member)
  distinct := (same.map KeyValueObject.primaryKey).nodup_iff.mp addable.distinct
  absent := fun row member => addable.absent row (same.mem_iff.mpr member)

theorem Addable.of_append {back : List KeyValueObject}
    (addable : Addable start tab (rows ++ back)) : Addable start tab rows where
  inTable := fun row member =>
    addable.inTable row (List.mem_append_left _ member)
  keyed := fun row member => addable.keyed row (List.mem_append_left _ member)
  distinct := by
    have distinct := addable.distinct
    rw [List.map_append, List.nodup_append] at distinct
    exact distinct.1
  absent := fun row member =>
    addable.absent row (List.mem_append_left _ member)

theorem Addable.of_cons (addable : Addable start tab (row :: rest)) :
    Addable start tab rest where
  inTable := fun other member =>
    addable.inTable other (List.mem_cons_of_mem _ member)
  keyed := fun other member =>
    addable.keyed other (List.mem_cons_of_mem _ member)
  distinct := (List.nodup_cons.mp addable.distinct).2
  absent := fun other member =>
    addable.absent other (List.mem_cons_of_mem _ member)

/-- Rows with different keys have different ids. -/
theorem Addable.id_inj (addable : Addable start tab rows)
    {left right : KeyValueObject} (isLeft : left ∈ rows) (isRight : right ∈ rows)
    (same : left.id = right.id) : left = right := by
  rw [addable.keyed left isLeft, addable.keyed right isRight] at same
  have sameKey := congrArg Int64.toUInt64 same
  simp only [UInt64.toUInt64_toInt64] at sameKey
  exact List.inj_on_of_nodup_map addable.distinct isLeft isRight sameKey

/-- A stored row is one of the additional rows or was there before. -/
theorem Added.row_cases (added : Added start name tab rows eos) {id : Int64}
    (found : (eos.db.rows .keyValue).rows[id]? = some row) :
    row ∈ rows ∨ (start .keyValue).rows[id]? = some row := by
  by_cases isAdded : ∃ other ∈ rows, other.id = id
  · obtain ⟨other, member, isId⟩ := isAdded
    have stored := added.added other member
    rw [isId, found] at stored
    rw [Option.some.inj stored]
    exact Or.inl member
  · rw [added.otherRows id fun other member isId =>
      isAdded ⟨other, member, isId⟩] at found
    exact Or.inr found

/-- The last row is none of the others. -/
theorem Addable.last_ne (addable : Addable start tab (rows ++ [row]))
    {other : KeyValueObject} (member : other ∈ rows) :
    other.primaryKey ≠ row.primaryKey ∧ other.id ≠ row.id := by
  have isLast : row ∈ rows ++ [row] :=
    List.mem_append_right _ (List.mem_singleton_self row)
  have distinct := addable.distinct
  rw [List.map_append, List.nodup_append] at distinct
  have differentKeys := distinct.2.2 _ (List.mem_map_of_mem member) _
    (List.mem_singleton_self _)
  refine ⟨differentKeys, ?_⟩
  intro sameId
  have same := addable.id_inj (List.mem_append_left _ member) isLast sameId
  exact differentKeys (congrArg KeyValueObject.primaryKey same)

/-- One more row is admitted. -/
theorem Added.admits (newTable : NewTable start name tab)
    (added : Added start name tab rows eos)
    (addable : Addable start tab (rows ++ [row])) :
    (eos.db.rows .keyValue).Admits row := by
  have isLast : row ∈ rows ++ [row] :=
    List.mem_append_right _ (List.mem_singleton_self row)
  rw [MultiIndex.admits_iff]
  constructor
  · rw [← addable.absent row isLast]
    exact added.otherRows row.id fun other member => (addable.last_ne member).2
  · intro id other found clash
    have sameKey := (clash_keyValue_iff _ _).mp clash
    rcases added.row_cases found with member | wasStored
    · exact (addable.last_ne member).1 (congrArg Prod.snd sameKey).symm
    · have inTable := addable.inTable row isLast
      exact newTable.noRow id other wasStored
        ((congrArg Prod.fst sameKey).symm.trans inTable)

/-! ## Storing -/

section Stores

variable {code : Name} {scope : Sha256} {table payer : Name} {id : UInt64}
  {buffer : Bytes} {memory : Memory}

/-- `db_store_i64` in a table that has been found or created. -/
theorem Navigable.dbStoreI64_apply {middle : EosDb} {tableObj : TableIdObject}
    (navigable : Navigable middle used)
    (located : findOrCreateTable code scope table payer memory.table eos =
      .ok tab middle)
    (hasTable : (middle.db.rows .tableId).rows[tab]? = some tableObj)
    (vacant : middle.Vacant .keyValue memory.row.address)
    (admits : (middle.db.rows .keyValue).Admits
      (newKeyValue payer id buffer tab)) :
    ∃ final, dbStoreI64 code scope table payer id buffer memory eos =
        .ok (toInt32 middle.keyvalEntries.length) final ∧
      Navigable final used ∧
      final.place .keyValue = Function.update (middle.place .keyValue)
        id.toInt64 memory.row.address ∧
      final.keyvalEntries = middle.keyvalEntries ++
        [some memory.row.address] ∧
      (∀ t, t ≠ .keyValue → t ≠ .tableId →
        final.db.rows t = middle.db.rows t) ∧
      (∀ tested : Int64, (final.db.rows .keyValue).rows[tested]? =
        if id.toInt64 = tested then some (newKeyValue payer id buffer tab)
        else (middle.db.rows .keyValue).rows[tested]?) ∧
      ∀ tested : Int64, (final.db.rows .tableId).rows[tested]? =
        if tab = tested then some { tableObj with count := tableObj.count + 1 }
        else (middle.db.rows .tableId).rows[tested]? := by
  have success := MultiIndex.emplace_of_admits admits
  obtain ⟨db, counted, stores, ready, isRows, tables⟩ :
      ∃ db counted, storeRow .keyValue code scope table payer
        (newKeyValue payer id buffer) memory eos = _ ∧ _ :=
    storeRow_ok located navigable.ready hasTable success
  have isInserted : db.rows .keyValue =
      (middle.db.rows .keyValue).insert (newKeyValue payer id buffer tab)
        admits := by
    rw [isRows, Function.update_of_ne (by decide), Function.update_self]
  have isCounted : db.rows .tableId = counted := by
    rw [isRows, Function.update_self]
  have hasTable' : (middle.db.rows .tableId).rows[tab]? ≠ none := by
    rw [hasTable]
    exact Option.some_ne_none tableObj
  have sameTable : placed middle.place .keyValue id.toInt64
      memory.row.address .tableId tab = middle.place .tableId tab := by
    rw [placed_other_type middle.place (by decide)]
  have isFinal := withTable_withObject
    { middle with
      db := db
      place := placed middle.place .keyValue id.toInt64 memory.row.address }
    sameTable (placed_self middle.place .keyValue id.toInt64 memory.row.address)
  have isNavigable := navigable.rowStoredAndCached
    { middle with
      db := db
      place := placed middle.place .keyValue id.toInt64 memory.row.address }
    hasTable' vacant success ready isInserted rfl
    (fun tested => (stored_counted_iff hasTable isRows tables tested).mp) rfl
  rw [show (newKeyValue payer id buffer tab).tId = tab from rfl,
    show (newKeyValue payer id buffer tab).id = id.toInt64 from rfl,
    isFinal] at isNavigable
  have misses := navigable.misses vacant
  have mirrored := navigable.cache.mirrored.cacheTable tab
    (middle.place .tableId tab)
  have isNew : ((middle.caches .keyValue).cacheTable tab
      (middle.place .tableId tab)).2.Misses memory.row.address := by
    intro position live
    rw [IteratorCache.cacheTable_iteratorToObject] at live
    exact misses position live
  have adds := mirrored.add_of_new isNew
  have isIterator : (cachedRow (middle.caches .keyValue) tab
      (middle.place .tableId tab) memory.row.address).1 =
      toInt32 middle.keyvalEntries.length := by
    rw [cachedRow, adds, keyvalEntries]
    simp only [IteratorCache.cacheTable_iteratorToObject]
  refine ⟨_, stores.trans (congrArg (EStateM.Result.ok · _) isIterator),
    isNavigable, ?_, ?_, ?_, ?_, ?_⟩
  · change placed middle.place .keyValue id.toInt64 memory.row.address
      .keyValue = _
    rw [placed, Function.update_self]
  · rw [keyvalEntries]
    simp only [Function.update_self]
    rw [cachedRow, adds]
    simp only [IteratorCache.pushed]
    rw [IteratorCache.cacheTable_iteratorToObject]
    rfl
  · intro t notRows notTables
    change db.rows t = _
    rw [isRows, Function.update_of_ne notTables,
      Function.update_of_ne notRows]
  · intro tested
    change (db.rows .keyValue).rows[tested]? = _
    rw [isInserted]
    exact (MultiIndex.emplace_some success).2 tested
  · intro tested
    change (db.rows .tableId).rows[tested]? = _
    rw [isCounted]
    exact tables tested

/-- The table is created for the first row and found for the others. -/
theorem Added.findOrCreateTable_apply {block : Block}
    (newTable : NewTable start (code, scope, table) tab)
    (added : Added start (code, scope, table) tab rows eos)
    (navigable : Navigable eos used)
    (granted : rows = [] → eos.TableBlock used block ∧ block.unset = tab) :
    ∃ middle tableObj used',
      findOrCreateTable code scope table payer block eos = .ok tab middle ∧
      Navigable middle used' ∧
      (middle.db.rows .tableId).rows[tab]? = some tableObj ∧
      tableObj.codeScopeTable = (code, scope, table) ∧
      tableObj.count = UInt32.ofNat rows.length ∧
      (∀ t, t ≠ .tableId → middle.db.rows t = eos.db.rows t) ∧
      (∀ tested : Int64, tab ≠ tested →
        (middle.db.rows .tableId).rows[tested]? =
          (eos.db.rows .tableId).rows[tested]?) ∧
      middle.place .keyValue = eos.place .keyValue ∧
      middle.caches = eos.caches := by
  by_cases isEmpty : rows = []
  · obtain ⟨tableBlock, rfl⟩ := granted isEmpty
    have locates : Ends (findOrCreateTable code scope table payer block) eos
        _ _ := navigable.ends_findOrCreateTable fun _ => tableBlock
    have noTable := added.noTable isEmpty
    have unnamed : ∀ (tested : Int64) (tableObj : TableIdObject),
        (eos.db.rows .tableId).rows[tested]? = some tableObj →
          tableObj.codeScopeTable ≠ (code, scope, table) := by
      intro tested tableObj found
      by_cases same : block.unset = tested
      · rw [← same, noTable] at found
        cases found
      · rw [added.otherTables tested same] at found
        exact newTable.noName tested tableObj found
    have absent : (eos.db.rows .tableId).findBy TableIdObject.codeScopeTable
        (code, scope, table) = none :=
      MultiIndex.findBy_eq_none_iff.mpr unnamed
    have admits : (eos.db.rows .tableId).Admits
        (EosDb.newTable code scope table payer [] block) := by
      rw [MultiIndex.admits_iff]
      refine ⟨noTable, ?_⟩
      intro tested tableObj found clash
      exact unnamed tested tableObj found
        ((clash_tableId_iff _ _).mp clash).symm
    have success := MultiIndex.emplace_of_admits admits
    have entries := (MultiIndex.emplace_some success).2
    obtain ⟨db, creates, wrote⟩ :=
      findOrCreateTable_created navigable.ready absent success
    obtain ⟨isNavigable, _, _⟩ := locates.of_ok creates
    have isTables : db.rows .tableId =
        (eos.db.rows .tableId).insert _ admits := by
      rw [wrote.rows, Function.update_self]
    refine ⟨_, EosDb.newTable code scope table payer [] block, _, creates,
      isNavigable, ?_, rfl, ?_, ?_, ?_, ?_, rfl⟩
    · change (db.rows .tableId).rows[block.unset]? = _
      rw [isTables, entries]
      exact if_pos rfl
    · rw [isEmpty]
      rfl
    · intro t different
      change db.rows t = _
      rw [wrote.rows, Function.update_of_ne different]
    · intro tested different
      change (db.rows .tableId).rows[tested]? = _
      rw [isTables, entries]
      exact if_neg different
    · change placed eos.place .tableId block.unset block.address .keyValue = _
      rw [placed_other_type eos.place (by decide)]
  · obtain ⟨tableObj, hasTable, isName, isCount⟩ := added.table isEmpty
    have isId : tableObj.id = tab := (eos.db.rows .tableId).keyed hasTable
    have finds : findOrCreateTable code scope table payer block eos = _ :=
      findOrCreateTable_found navigable.ready
        (tableNamed_of_row tab hasTable isName)
    rw [isId] at finds
    exact ⟨eos, tableObj, used, finds, navigable, hasTable, isName, isCount,
      fun _ _ => rfl, fun _ _ => rfl, rfl, rfl⟩

/-- The `k`-th entry of `keyval_cache` is that of the `k`-th row. -/
def IssuedInOrder (eos : EosDb) (rows : List KeyValueObject) : Prop :=
  eos.keyvalEntries = rows.map fun row => some (eos.place .keyValue row.id)

/-- One more row is stored. -/
theorem Added.dbStoreI64_apply {new : NewRow} {tableBlock block : Block}
    (newTable : NewTable start (code, scope, table) tab)
    (added : Added start (code, scope, table) tab rows eos)
    (addable : Addable start tab (rows ++ [new.object tab]))
    (navigable : Navigable eos used)
    (granted : rows = [] →
      eos.TableBlock used tableBlock ∧ tableBlock.unset = tab)
    (vacant : eos.Vacant .keyValue block.address)
    (inOrder : eos.IssuedInOrder rows) :
    ∃ final used', dbStoreI64 code scope table new.payer new.id new.buffer
        ⟨tableBlock, block⟩ eos = .ok (toInt32 rows.length) final ∧
      Navigable final used' ∧
      Added start (code, scope, table) tab (rows ++ [new.object tab]) final ∧
      final.IssuedInOrder (rows ++ [new.object tab]) ∧
      ∀ other : Address, eos.Vacant .keyValue other → block.address ≠ other →
        final.Vacant .keyValue other := by
  obtain ⟨middle, tableObj, used', located, isNavigable, hasTable, isName,
    isCount, otherTypes, otherTables, samePlace, sameCaches⟩ :
      ∃ middle tableObj used', findOrCreateTable code scope table new.payer
        tableBlock eos = .ok tab middle ∧ _ :=
    added.findOrCreateTable_apply newTable navigable granted
  have sameRows : middle.db.rows .keyValue = eos.db.rows .keyValue :=
    otherTypes .keyValue (by decide)
  have sameEntries : middle.keyvalEntries = eos.keyvalEntries := by
    rw [keyvalEntries, sameCaches]
    rfl
  have stillVacant : middle.Vacant .keyValue block.address := by
    intro entry member
    rw [sameRows] at member
    rw [samePlace]
    exact vacant entry member
  have admits := added.admits newTable addable
  rw [← sameRows] at admits
  obtain ⟨final, stores, finalNavigable, isPlace, entries, finalTypes,
    finalRows, finalTables⟩ : ∃ final, dbStoreI64 code scope table new.payer
      new.id new.buffer ⟨tableBlock, block⟩ eos = .ok _ final ∧ _ :=
    isNavigable.dbStoreI64_apply located hasTable stillVacant admits
  have isPlaced : final.place .keyValue = Function.update
      (eos.place .keyValue) (new.object tab).id block.address := by
    rw [← samePlace]
    exact isPlace
  have isRows : ∀ tested : Int64, (final.db.rows .keyValue).rows[tested]? =
      if (new.object tab).id = tested then some (new.object tab)
      else (eos.db.rows .keyValue).rows[tested]? := by
    rw [← sameRows]
    exact finalRows
  have isLength : middle.keyvalEntries.length = rows.length := by
    rw [sameEntries, inOrder, List.length_map]
  rw [isLength] at stores
  rw [sameEntries, inOrder] at entries
  have isLast : new.object tab ∈ rows ++ [new.object tab] :=
    List.mem_append_right _ (List.mem_singleton_self _)
  refine ⟨final, used', stores, finalNavigable, ?_, ?_, ?_⟩
  rotate_left
  · rw [IssuedInOrder, entries, List.map_append, isPlaced]
    congr 1
    · apply List.map_congr_left
      intro row member
      rw [Function.update_of_ne (addable.last_ne member).2]
    · rw [List.map_singleton, Function.update_self]
  · intro other isVacant different entry member
    have found := (Maps.mem_map_toList _ _ _).mp member
    rw [isRows] at found
    rw [isPlaced]
    by_cases same : (new.object tab).id = entry.1
    · rw [← same, Function.update_self]
      exact different
    · rw [if_neg same] at found
      rw [Function.update_of_ne (Ne.symm same)]
      exact isVacant entry ((Maps.mem_map_toList _ _ _).mpr found)
  exact
    { otherTypes := by
        intro t notRows notTables
        rw [finalTypes t notRows notTables, otherTypes t notTables]
        exact added.otherTypes t notRows notTables
      added := by
        intro row member
        rw [isRows]
        rcases List.mem_append.mp member with isOld | isNew
        · rw [if_neg]
          · exact added.added row isOld
          · exact fun sameId => (addable.last_ne isOld).2 sameId.symm
        · rw [List.mem_singleton.mp isNew]
          exact if_pos rfl
      otherRows := by
        intro id noRow
        rw [isRows, if_neg (noRow _ isLast)]
        exact added.otherRows id fun row member =>
          noRow row (List.mem_append_left _ member)
      table := by
        intro _
        refine ⟨{ tableObj with count := tableObj.count + 1 }, ?_, isName, ?_⟩
        · rw [finalTables, if_pos rfl]
        · rw [isCount, List.length_append, List.length_singleton,
            UInt32.ofNat_add]
          rfl
      noTable := fun isEmpty =>
        absurd isEmpty (List.append_ne_nil_of_right_ne_nil _
          (List.cons_ne_nil _ _))
      otherTables := by
        intro tested different
        rw [finalTables, if_neg different, otherTables tested different]
        exact added.otherTables tested different }

/-- The memory for the rows: no row stands there, and the blocks are
different. -/
structure RowBlocks (eos : EosDb) (calls : List (NewRow × Block)) : Prop where
  vacant : ∀ call ∈ calls, eos.Vacant .keyValue call.2.address
  distinct : (calls.map fun call => call.2.address).Nodup

/-- The rows of the calls. -/
def objects (tab : Int64) (calls : List (NewRow × Block)) :
    List KeyValueObject :=
  calls.map fun call => call.1.object tab

/-- The rows are stored one after the other, and the iterators count them. -/
theorem Added.storeAll_apply {tableBlock : Block}
    {calls : List (NewRow × Block)}
    (newTable : NewTable start (code, scope, table) tab)
    (added : Added start (code, scope, table) tab rows eos)
    (addable : Addable start tab (rows ++ objects tab calls))
    (navigable : Navigable eos used)
    (granted : rows = [] →
      eos.TableBlock used tableBlock ∧ tableBlock.unset = tab)
    (blocks : eos.RowBlocks calls) (inOrder : eos.IssuedInOrder rows) :
    ∃ final used', storeAll code scope table tableBlock calls eos =
        .ok ((List.range' rows.length calls.length).map fun n : Nat => toInt32 n)
          final ∧
      Navigable final used' ∧
      Added start (code, scope, table) tab (rows ++ objects tab calls) final ∧
      final.IssuedInOrder (rows ++ objects tab calls) := by
  induction calls generalizing rows eos used with
  | nil =>
      rw [objects, List.map_nil, List.append_nil]
      exact ⟨eos, used, rfl, navigable, added, inOrder⟩
  | cons call calls inductionHypothesis =>
      have isSplit : rows ++ objects tab (call :: calls) =
          (rows ++ [call.1.object tab]) ++ objects tab calls := by
        rw [objects, List.map_cons, List.append_assoc]
        rfl
      rw [isSplit] at addable ⊢
      obtain ⟨notAmong, distinct⟩ := List.nodup_cons.mp blocks.distinct
      obtain ⟨middle, used', stores, isNavigable, isAdded, isInOrder, vacant⟩ :
          ∃ middle used', dbStoreI64 code scope table call.1.payer call.1.id
            call.1.buffer ⟨tableBlock, call.2⟩ eos = _ ∧ _ :=
        added.dbStoreI64_apply newTable addable.of_append navigable granted
          (blocks.vacant call List.mem_cons_self) inOrder
      have restBlocks : middle.RowBlocks calls := by
        refine ⟨?_, distinct⟩
        intro other member
        apply vacant _ (blocks.vacant other (List.mem_cons_of_mem _ member))
        intro same
        exact notAmong (List.mem_map.mpr ⟨other, member, same.symm⟩)
      obtain ⟨final, used'', storesRest, finalNavigable, finalAdded,
        finalInOrder⟩ := inductionHypothesis isAdded addable isNavigable
          (fun isEmpty => absurd isEmpty (by simp)) restBlocks isInOrder
      refine ⟨final, used'', ?_, finalNavigable, finalAdded, finalInOrder⟩
      rw [List.length_append, List.length_singleton] at storesRest
      rw [List.length_cons, List.range'_succ, List.map_cons]
      refine (bind_apply_of_ok _ stores).trans ?_
      exact bind_apply_of_ok _ storesRest

end Stores

/-! ## Updating -/

/-- An update changes the row with this id. -/
def changed (id : Int64) (payer : Name) (buffer : Bytes)
    (row : KeyValueObject) : KeyValueObject :=
  if row.id = id then { row with value := buffer, payer := payer } else row

section Updates

variable {code : Name} {scope : Sha256} {table payer : Name} {id : Int64}
  {buffer : Bytes}

@[simp]
theorem changed_id : (changed id payer buffer row).id = row.id := by
  unfold changed
  split
  · rfl
  · rfl

@[simp]
theorem changed_tId : (changed id payer buffer row).tId = row.tId := by
  unfold changed
  split
  · rfl
  · rfl

@[simp]
theorem changed_primaryKey :
    (changed id payer buffer row).primaryKey = row.primaryKey := by
  unfold changed
  split
  · rfl
  · rfl

theorem keys_changed (rows : List KeyValueObject) :
    (rows.map (changed id payer buffer)).map KeyValueObject.primaryKey =
      rows.map KeyValueObject.primaryKey := by
  rw [List.map_map]
  apply List.map_congr_left
  exact fun row _ => changed_primaryKey

theorem Addable.changed (addable : Addable start tab rows) :
    Addable start tab (rows.map (EosDb.changed id payer buffer)) where
  inTable := by
    intro other member
    obtain ⟨row, isRow, rfl⟩ := List.mem_map.mp member
    rw [changed_tId]
    exact addable.inTable row isRow
  keyed := by
    intro other member
    obtain ⟨row, isRow, rfl⟩ := List.mem_map.mp member
    rw [changed_id, changed_primaryKey]
    exact addable.keyed row isRow
  distinct := by
    rw [keys_changed]
    exact addable.distinct
  absent := by
    intro other member
    obtain ⟨row, isRow, rfl⟩ := List.mem_map.mp member
    rw [changed_id]
    exact addable.absent row isRow

/-- The `k`-th iterator is that of the `k`-th row. -/
theorem Added.denotes {number : Nat}
    (added : Added start name tab rows eos) (inOrder : eos.IssuedInOrder rows)
    (isRow : rows[number]? = some row) (few : rows.length ≤ 2 ^ 31) :
    Denotes eos number row := by
  have inside := (List.getElem?_eq_some_iff.mp isRow).1
  refine ⟨added.added row (List.mem_of_getElem? isRow), number, rfl,
    by omega, ?_⟩
  rw [inOrder, List.getElem?_map, isRow]
  rfl

/-- A row is updated. -/
theorem Added.dbUpdateI64_apply {number : Nat}
    (added : Added start name tab rows eos)
    (addable : Addable start tab rows) (navigable : Navigable eos used)
    (inOrder : eos.IssuedInOrder rows) (isRow : rows[number]? = some row)
    (few : rows.length ≤ 2 ^ 31) :
    ∃ final used', dbUpdateI64 ndebug number payer buffer eos =
        .ok ⟨⟩ final ∧
      Navigable final used' ∧
      Added start name tab (rows.map (EosDb.changed row.id payer buffer))
        final ∧
      final.IssuedInOrder (rows.map (EosDb.changed row.id payer buffer)) := by
  have leaves : LeavesNavigable used
      (dbUpdateI64 ndebug number payer buffer) eos :=
    leavesNavigable_dbUpdateI64 navigable
  have member := List.mem_of_getElem? isRow
  have found := added.added row member
  have got : getObject ndebug .keyValue number eos = _ :=
    (added.denotes inOrder isRow few).getObject navigable
  obtain ⟨db, modified, changes, wrote, entries⟩ :=
    modify_of_interchangeable (t := .keyValue)
      (fun o => { o with value := buffer, payer := payer }) navigable.ready
      found (interchangeable_keyValue row payer buffer)
  have updates : dbUpdateI64 ndebug number payer buffer eos =
      .ok ⟨⟩ { eos with db := db } := (bind_apply_of_ok _ got).trans changes
  have isModified : db.rows .keyValue = modified := by
    rw [wrote.rows, Function.update_self]
  have sameTables : db.rows .tableId = eos.db.rows .tableId := by
    rw [wrote.rows, Function.update_of_ne (by decide)]
  refine ⟨{ eos with db := db }, _, updates, leaves.of_ok updates, ?_, ?_⟩
  · exact
      { otherTypes := by
          intro t notRows notTables
          change db.rows t = _
          rw [wrote.rows, Function.update_of_ne notRows]
          exact added.otherTypes t notRows notTables
        added := by
          intro new isNew
          obtain ⟨other, isOther, rfl⟩ := List.mem_map.mp isNew
          change (db.rows .keyValue).rows[_]? = _
          rw [isModified, entries, changed_id]
          by_cases same : row.id = other.id
          · have sameRow := addable.id_inj member isOther same
            rw [if_pos same, ← sameRow, EosDb.changed, if_pos rfl]
          · rw [if_neg same, EosDb.changed, if_neg (Ne.symm same)]
            exact added.added other isOther
        otherRows := by
          intro id noRow
          have notChanged : row.id ≠ id := by
            have differs := noRow _ (List.mem_map_of_mem member)
            rw [changed_id] at differs
            exact differs
          change (db.rows .keyValue).rows[id]? = _
          rw [isModified, entries, if_neg notChanged]
          apply added.otherRows
          intro other isOther
          have differs := noRow _ (List.mem_map_of_mem isOther)
          rw [changed_id] at differs
          exact differs
        table := by
          intro notEmpty
          change ∃ tableObj, (db.rows .tableId).rows[tab]? = some tableObj ∧ _
          rw [sameTables, List.length_map]
          exact added.table fun isEmpty => notEmpty (by rw [isEmpty]; rfl)
        noTable := by
          intro isEmpty
          change (db.rows .tableId).rows[tab]? = none
          rw [sameTables]
          exact added.noTable (List.map_eq_nil_iff.mp isEmpty)
        otherTables := by
          intro tested different
          change (db.rows .tableId).rows[tested]? = _
          rw [sameTables]
          exact added.otherTables tested different }
  · change eos.keyvalEntries = _
    rw [inOrder, List.map_map]
    apply List.map_congr_left
    intro other _
    simp only [Function.comp_apply, changed_id]

theorem Added.dbFindI64_apply (added : Added start (code, scope, table) tab rows eos)
    (addable : Addable start tab rows) (navigable : Navigable eos used)
    (member : row ∈ rows) :
    dbFindI64 code scope table row.primaryKey eos =
      addObject .keyValue row.id (eos.withTable tab) := by
  obtain ⟨tableObj, hasTable, isName, _⟩ :=
    added.table (List.ne_nil_of_mem member)
  have isId : tableObj.id = tab := (eos.db.rows .tableId).keyed hasTable
  have named := tableNamed_of_row tab hasTable isName
  rw [← isId]
  apply dbFindI64_of_row navigable named (added.added row member)
  rw [addable.inTable row member, isId]

theorem Added.table_stored (added : Added start name tab rows eos)
    (member : row ∈ rows) : (eos.db.rows .tableId).rows[tab]? ≠ none := by
  obtain ⟨tableObj, hasTable, _⟩ := added.table (List.ne_nil_of_mem member)
  rw [hasTable]
  exact Option.some_ne_none tableObj

/-- The caller has the iterator of one of the rows. -/
theorem Added.iterator_apply {handle : RowHandle}
    (added : Added start (code, scope, table) tab rows eos)
    (addable : Addable start tab rows) (navigable : Navigable eos used)
    (inOrder : eos.IssuedInOrder rows) (few : rows.length ≤ 2 ^ 31)
    (known : handle.Known
      ((List.range' 0 rows.length).map fun n : Nat => toInt32 n)
      (rows.map KeyValueObject.primaryKey)) :
    ∃ (number : Nat) (row : KeyValueObject) (middle : EosDb),
      rows[number]? = some row ∧
      handle.iterator code scope table eos = .ok number middle ∧
      Navigable middle used ∧
      Added start (code, scope, table) tab rows middle ∧
      middle.IssuedInOrder rows := by
  cases handle with
  | returned iterator =>
      obtain ⟨number, isNumber, rfl⟩ := List.mem_map.mp known
      have inside : number < rows.length := by
        have bounds := List.mem_range'_1.mp isNumber
        omega
      have isIterator : toInt32 number = number :=
        toInt32_eq (by omega) (by omega)
      refine ⟨number, rows[number], eos, List.getElem?_eq_getElem inside, ?_,
        navigable, added, inOrder⟩
      rw [isIterator]
      rfl
  | found id =>
      obtain ⟨row, member, rfl⟩ := List.mem_map.mp known
      obtain ⟨number, isRow⟩ := List.mem_iff_getElem?.mp member
      have isCached := navigable.tableCached (added.table_stored member)
      have cachedInOrder : (eos.withTable tab).IssuedInOrder rows := by
        rw [IssuedInOrder, withTable_entries]
        exact inOrder
      have isAdded : Added start (code, scope, table) tab rows
          (eos.withTable tab) := added.of_rows rfl
      have denotes := isAdded.denotes cachedInOrder isRow few
      refine ⟨number, row, eos.withTable tab, isRow, ?_, isCached, isAdded,
        cachedInOrder⟩
      exact (added.dbFindI64_apply addable navigable member).trans
        (denotes.addObject isCached)

/-- The rows are updated, in any order and as often as the caller likes. -/
theorem Added.updateAll_apply {updates : List RowUpdate}
    (added : Added start (code, scope, table) tab rows eos)
    (addable : Addable start tab rows) (navigable : Navigable eos used)
    (inOrder : eos.IssuedInOrder rows) (few : rows.length ≤ 2 ^ 31)
    (known : ∀ update ∈ updates, update.handle.Known
      ((List.range' 0 rows.length).map fun n : Nat => toInt32 n)
      (rows.map KeyValueObject.primaryKey)) :
    ∃ final rows' used', updateAll ndebug code scope table updates eos =
        .ok ⟨⟩ final ∧
      Navigable final used' ∧
      Added start (code, scope, table) tab rows' final ∧
      Addable start tab rows' ∧
      rows'.map KeyValueObject.primaryKey =
        rows.map KeyValueObject.primaryKey := by
  induction updates generalizing rows eos used with
  | nil => exact ⟨eos, rows, used, rfl, navigable, added, addable, rfl⟩
  | cons update updates inductionHypothesis =>
      obtain ⟨number, row, middle, isRow, resolves, isNavigable, isAdded,
        isInOrder⟩ := added.iterator_apply addable navigable inOrder few
          (known update List.mem_cons_self)
      obtain ⟨changedEos, used', changes, changedNavigable, changedAdded,
        changedInOrder⟩ : ∃ final used', dbUpdateI64 ndebug number
          update.payer update.buffer middle = .ok ⟨⟩ final ∧ _ :=
        isAdded.dbUpdateI64_apply addable isNavigable isInOrder isRow few
      have sameLength : (rows.map (changed row.id update.payer
          update.buffer)).length = rows.length := List.length_map _
      obtain ⟨final, rows', used'', updatesRest, finalNavigable, finalAdded,
        finalAddable, sameKeys⟩ :=
        inductionHypothesis changedAdded addable.changed changedNavigable
          changedInOrder (by omega) (by
            intro other isOther
            rw [sameLength, keys_changed]
            exact known other (List.mem_cons_of_mem _ isOther))
      rw [keys_changed] at sameKeys
      refine ⟨final, rows', used'', ?_, finalNavigable, finalAdded,
        finalAddable, sameKeys⟩
      refine (bind_apply_of_ok _ resolves).trans ?_
      exact (bind_apply_of_ok _ changes).trans updatesRest

end Updates

/-! ## Finding and removing -/

section Removals

variable {code : Name} {scope : Sha256} {table : Name} {size : Nat}

/-- In a cache from which every row has been removed again, a row gets the next
iterator. -/
theorem Added.find_apply (added : Added start (code, scope, table) tab rows eos)
    (addable : Addable start tab rows) (navigable : Navigable eos used)
    (cleared : eos.keyvalEntries = List.replicate size none)
    (member : row ∈ rows) :
    ∃ middle entry, dbFindI64 code scope table row.primaryKey eos =
        .ok (toInt32 size) middle ∧
      middle.db = eos.db ∧ Navigable middle used ∧
      middle.keyvalEntries = List.replicate size none ++
        [some (middle.place .keyValue row.id)] ∧
      (middle.caches .keyValue).tableCache[tab]? = some entry := by
  have isCached := navigable.tableCached (added.table_stored member)
  obtain ⟨entry, cached⟩ : ∃ entry,
      ((eos.withTable tab).caches .keyValue).tableCache[tab]? = some entry :=
    ⟨_, (eos.withTable_cached tab).choose_spec⟩
  have found := added.added row member
  have cachedRow : ((eos.withTable tab).caches .keyValue).tableCache[
      row.tId]? = some entry := by
    rw [addable.inTable row member]
    exact cached
  have entries : (eos.withTable tab).keyvalEntries =
      List.replicate size none := by
    rw [withTable_entries]
    exact cleared
  have misses : ((eos.withTable tab).caches .keyValue).Misses
      (eos.place .keyValue row.id) := by
    intro position live
    change (eos.withTable tab).keyvalEntries[position]? = _ at live
    rw [entries] at live
    have isNone := List.eq_of_mem_replicate (List.mem_of_getElem? live)
    cases isNone
  have adds := isCached.cache.mirrored.add_of_new misses
  refine ⟨(eos.withTable tab).withObject row.id, entry, ?_, rfl,
    isCached.rowAdded found cachedRow, ?_, ?_⟩
  · rw [added.dbFindI64_apply addable navigable member, addObject_apply]
    change EStateM.Result.ok (IteratorCache.add _
      (eos.place .keyValue row.id)).1 _ = _
    have isLength : ((eos.withTable tab).caches
        .keyValue).iteratorToObject.length = size := by
      change (eos.withTable tab).keyvalEntries.length = size
      rw [entries, List.length_replicate]
    rw [adds]
    simp only [isLength]
  · rw [keyvalEntries, withObject_cache]
    change (IteratorCache.add _ (eos.place .keyValue row.id)).2.iteratorToObject
      = _
    rw [adds]
    change (eos.withTable tab).keyvalEntries ++ _ = _
    rw [entries]
    rfl
  · rw [withObject_tableCache]
    exact cached

/-- The count of a table with at most 2^32 rows is 1 only for one row. -/
theorem count_eq_one_iff (short : size + 1 ≤ 2 ^ 32) :
    UInt32.ofNat (size + 1) = 1 ↔ size = 0 := by
  rw [← UInt32.toNat_inj, UInt32.toNat_ofNat']
  change (size + 1) % 2 ^ 32 = 1 ↔ _
  omega

/-- `get_table` returns the address of a stored table. -/
theorem Navigable.getTable_apply {tab : Int64} {tableObj : TableIdObject}
    {entry : Address × Int} (navigable : Navigable eos used)
    (hasTable : (eos.db.rows .tableId).rows[tab]? = some tableObj)
    (cached : (eos.caches .keyValue).tableCache[tab]? = some entry) :
    getTable ndebug .keyValue tab eos =
      .ok (eos.place .tableId tab) eos := by
  have isPlace := (navigable.cache.tables tab entry cached).2
    (by rw [hasTable]; exact Option.some_ne_none tableObj)
  rw [getTable, bind_apply_of_ok _ (get_apply eos), IteratorCache.getTable,
    cached, isPlace]
  rfl

/-- `db_remove_i64` for a row whose table is stored: the row goes, and the table
goes if it counted no other. -/
theorem Navigable.dbRemoveI64_apply {position : Nat} {obj : KeyValueObject}
    {tableObj : TableIdObject} {entry : Address × Int}
    (navigable : Navigable eos used)
    (live : eos.keyvalEntries[position]? =
      some (some (eos.place .keyValue obj.id)))
    (found : (eos.db.rows .keyValue).rows[obj.id]? = some obj)
    (hasTable : (eos.db.rows .tableId).rows[obj.tId]? = some tableObj)
    (cached : (eos.caches .keyValue).tableCache[obj.tId]? = some entry) :
    ∃ db, dbRemoveI64 ndebug position eos =
        .ok ⟨⟩ (EosDb.withoutObject { eos with db := db } position
          (eos.place .keyValue obj.id)) ∧
      db.rows .keyValue = (eos.db.rows .keyValue).erase obj.id ∧
      (∀ t, t ≠ .keyValue → t ≠ .tableId → db.rows t = eos.db.rows t) ∧
      ∀ tested : Int64, (db.rows .tableId).rows[tested]? =
        if obj.tId = tested then
          if tableObj.count = 1 then none
          else some { tableObj with count := tableObj.count - 1 }
        else (eos.db.rows .tableId).rows[tested]? := by
  have isId : tableObj.id = obj.tId := (eos.db.rows .tableId).keyed hasTable
  have got : getObject ndebug .keyValue position eos = .ok obj eos :=
    navigable.getObject_of_live live found
  have locates : getTable ndebug .keyValue obj.tId eos = _ :=
    navigable.getTable_apply hasTable cached
  have follows : objectAt .tableId (eos.place .tableId obj.tId) eos = _ :=
    objectAt_of_row navigable.ready navigable.tablesApart hasTable rfl
  obtain ⟨db, removes, _, isErased, otherRows, tables⟩ :=
    removeI64Row_exact navigable.ready found hasTable
  have clears : removeIterator ndebug .keyValue position
      { eos with db := db } = _ := removeIterator_apply live
  refine ⟨db, ?_, isErased, otherRows, ?_⟩
  · refine (bind_apply_of_ok _ got).trans ?_
    refine (bind_apply_of_ok _ locates).trans ?_
    refine (bind_apply_of_ok _ follows).trans ?_
    rw [isId]
    exact (bind_apply_of_ok _ removes).trans clears
  · intro tested
    rw [tables]
    simp only [sub_eq_zero]

/-- A row is removed through the iterator that it has just got. -/
theorem Added.dbRemoveI64_apply
    (added : Added start name tab (row :: rest) eos)
    (addable : Addable start tab (row :: rest)) (navigable : Navigable eos used)
    {entry : Address × Int}
    (entries : eos.keyvalEntries = List.replicate size none ++
      [some (eos.place .keyValue row.id)])
    (cached : (eos.caches .keyValue).tableCache[tab]? = some entry)
    (short : rest.length + 1 ≤ 2 ^ 32) :
    ∃ final used', dbRemoveI64 ndebug size eos = .ok ⟨⟩ final ∧
      Navigable final used' ∧ Added start name tab rest final ∧
      final.keyvalEntries = List.replicate (size + 1) none := by
  have leaves : LeavesNavigable used (dbRemoveI64 ndebug size) eos :=
    leavesNavigable_dbRemoveI64 navigable
  have isHead : row ∈ row :: rest := List.mem_cons_self
  have inTable := addable.inTable row isHead
  have isNotInRest : ∀ other ∈ rest, row.id ≠ other.id := by
    intro other member sameId
    have same := addable.id_inj isHead (List.mem_cons_of_mem _ member) sameId
    have distinct := addable.distinct
    rw [List.map_cons, List.nodup_cons] at distinct
    rw [same] at distinct
    exact distinct.1 (List.mem_map_of_mem member)
  obtain ⟨tableObj, hasTable, isName, isCount⟩ :=
    added.table (List.cons_ne_nil row rest)
  have live : eos.keyvalEntries[size]? =
      some (some (eos.place .keyValue row.id)) := by
    rw [entries, List.getElem?_append_right (by simp)]
    simp
  have cachedRow : (eos.caches .keyValue).tableCache[row.tId]? =
      some entry := by
    rw [inTable]
    exact cached
  have hasTableRow : (eos.db.rows .tableId).rows[row.tId]? =
      some tableObj := by
    rw [inTable]
    exact hasTable
  obtain ⟨db, removes, isErased, otherTypes, tables⟩ :
      ∃ db, dbRemoveI64 ndebug size eos = _ ∧ _ :=
    navigable.dbRemoveI64_apply live (added.added row isHead) hasTableRow
      cachedRow
  rw [inTable] at tables
  refine ⟨_, _, removes, leaves.of_ok removes, ?_, ?_⟩
  · exact
      { otherTypes := by
          intro t notRows notTables
          change db.rows t = _
          rw [otherTypes t notRows notTables]
          exact added.otherTypes t notRows notTables
        added := by
          intro other member
          change (db.rows .keyValue).rows[other.id]? = _
          rw [isErased, MultiIndex.erase_row, if_neg (isNotInRest other member)]
          exact added.added other (List.mem_cons_of_mem _ member)
        otherRows := by
          intro id noRow
          change (db.rows .keyValue).rows[id]? = _
          rw [isErased, MultiIndex.erase_row]
          by_cases same : row.id = id
          · rw [if_pos same, ← same]
            exact (addable.absent row isHead).symm
          · rw [if_neg same]
            apply added.otherRows
            intro other member
            rcases List.mem_cons.mp member with rfl | inRest
            · exact same
            · exact noRow other inRest
        table := by
          intro notEmpty
          have notLast : tableObj.count ≠ 1 := by
            rw [isCount, List.length_cons]
            intro isOne
            have isZero := (count_eq_one_iff short).mp isOne
            exact notEmpty (List.eq_nil_of_length_eq_zero isZero)
          refine ⟨{ tableObj with count := tableObj.count - 1 }, ?_, isName, ?_⟩
          · change (db.rows .tableId).rows[tab]? = _
            rw [tables, if_pos rfl, if_neg notLast]
          · rw [isCount, List.length_cons, UInt32.ofNat_add]
            exact add_sub_cancel_right _ _
        noTable := by
          intro isEmpty
          have isLast : tableObj.count = 1 := by
            rw [isCount, isEmpty]
            rfl
          change (db.rows .tableId).rows[tab]? = none
          rw [tables, if_pos rfl, if_pos isLast]
        otherTables := by
          intro tested different
          change (db.rows .tableId).rows[tested]? = _
          rw [tables, if_neg different]
          exact added.otherTables tested different }
  · rw [keyvalEntries, withoutObject_cache]
    change List.set eos.keyvalEntries size none = _
    rw [entries, List.set_append_right _ _ (by simp), List.replicate_succ']
    simp

/-- Rows are found and removed one after the other, in any order. -/
theorem Added.removeAll_apply {ids later : List UInt64}
    (added : Added start (code, scope, table) tab rows eos)
    (addable : Addable start tab rows) (navigable : Navigable eos used)
    (cleared : eos.keyvalEntries = List.replicate size none)
    (same : (ids ++ later).Perm (rows.map KeyValueObject.primaryKey))
    (few : size + ids.length ≤ 2 ^ 31) (short : rows.length ≤ 2 ^ 32) :
    ∃ final rest used', removeAll ndebug code scope table ids eos =
        .ok ⟨⟩ final ∧
      Navigable final used' ∧
      Added start (code, scope, table) tab rest final ∧
      Addable start tab rest ∧
      final.keyvalEntries = List.replicate (size + ids.length) none ∧
      later.Perm (rest.map KeyValueObject.primaryKey) := by
  induction ids generalizing rows eos used size with
  | nil => exact ⟨eos, rows, used, rfl, navigable, added, addable, cleared, same⟩
  | cons id ids inductionHypothesis =>
      rw [List.length_cons] at few
      have isKey : id ∈ rows.map KeyValueObject.primaryKey :=
        same.subset List.mem_cons_self
      obtain ⟨row, member, rfl⟩ := List.mem_map.mp isKey
      have split := List.perm_cons_erase member
      have isLength := split.length_eq
      rw [List.length_cons] at isLength
      have isIterator : toInt32 size = size := toInt32_eq (by omega) (by omega)
      obtain ⟨middle, entry, finds, sameDb, isNavigable, entries, cached⟩ :=
        added.find_apply addable navigable cleared member
      rw [isIterator] at finds
      have isAdded : Added start (code, scope, table) tab
          (row :: rows.erase row) middle :=
        (added.of_rows (by rw [sameDb])).perm split
      have isAddable := addable.perm split
      obtain ⟨next, used', removes, nextNavigable, nextAdded, nextCleared⟩ :
          ∃ final used', dbRemoveI64 ndebug size middle = .ok ⟨⟩ final ∧ _ :=
        isAdded.dbRemoveI64_apply isAddable isNavigable entries cached
          (by omega)
      have sameRest : (ids ++ later).Perm
          ((rows.erase row).map KeyValueObject.primaryKey) :=
        (same.trans (split.map KeyValueObject.primaryKey)).cons_inv
      obtain ⟨final, rest, used'', removesRest, finalNavigable, finalAdded,
        finalAddable, finalCleared, finalSame⟩ :=
        inductionHypothesis nextAdded isAddable.of_cons nextNavigable
          nextCleared sameRest (by omega) (by omega)
      refine ⟨final, rest, used'', ?_, finalNavigable, finalAdded,
        finalAddable, ?_, finalSame⟩
      · refine (bind_apply_of_ok _ finds).trans ?_
        exact (bind_apply_of_ok _ removes).trans removesRest
      · rw [finalCleared, List.length_cons, Nat.add_right_comm, Nat.add_assoc]

end Removals

/-! ## The whole program -/

section Identity

variable (ndebug : Bool) (code : Name) (scope : Sha256) (table : Name)

/-- The memory with which the rows can be stored in a new table. -/
structure Supplied (eos : EosDb) (tab : Int64) (tableBlock : Block)
    (calls : List (NewRow × Block)) : Prop where
  tableVacant : eos.Vacant .tableId tableBlock.address
  isTab : tableBlock.unset = tab
  rows : eos.RowBlocks calls

/-- The rows are stored, updated in any order, and found and removed through
another `eos_db` in any order, and every table of the database is what it
was. -/
def RemovedAgain (db : Database eosDbTables)
    (place : (t : TableType) → (indexOf t).Id → Address) (tableBlock : Block)
    (calls : List (NewRow × Block)) : Prop :=
  ∃ iterators stored,
    storeAll code scope table tableBlock calls (ofDatabase db place) =
      .ok iterators stored ∧
    ∀ updates : List RowUpdate,
      (∀ update ∈ updates, update.handle.Known iterators
        (calls.map fun call => call.1.id)) →
      ∃ updated,
        updateAll ndebug code scope table updates stored = .ok ⟨⟩ updated ∧
        ∀ removals : List UInt64,
          removals.Perm (calls.map fun call => call.1.id) →
          ∃ final, removeAll ndebug code scope table removals
              (ofDatabase updated.db updated.place) = .ok ⟨⟩ final ∧
            ∀ t, final.db.rows t = db.rows t

/-- The rows and the count of the table are the same, whichever order the rows
are stored in. -/
def SameAfterStores (db : Database eosDbTables)
    (place : (t : TableType) → (indexOf t).Id → Address)
    (tableBlock otherBlock : Block) (calls others : List (NewRow × Block)) :
    Prop :=
  ∃ iterators stored otherIterators otherStored,
    storeAll code scope table tableBlock calls (ofDatabase db place) =
      .ok iterators stored ∧
    storeAll code scope table otherBlock others (ofDatabase db place) =
      .ok otherIterators otherStored ∧
    stored.db.rows .keyValue = otherStored.db.rows .keyValue ∧
    (stored.tableNamed (code, scope, table)).map TableIdObject.count =
      (otherStored.tableNamed (code, scope, table)).map TableIdObject.count

variable {ndebug code scope table}

theorem Added.rows_unique (added : Added start name tab rows eos)
    (other : Added start name tab rows final) :
    eos.db.rows .keyValue = final.db.rows .keyValue := by
  apply MultiIndex.ext_row
  intro id
  by_cases isAdded : ∃ row ∈ rows, row.id = id
  · obtain ⟨row, member, rfl⟩ := isAdded
    exact (added.added row member).trans (other.added row member).symm
  · have noRow : ∀ row ∈ rows, row.id ≠ id :=
      fun row member isId => isAdded ⟨row, member, isId⟩
    exact (added.otherRows id noRow).trans (other.otherRows id noRow).symm

/-- The count of the table, if it is there. -/
theorem Added.count_eq (newTable : NewTable start name tab)
    (added : Added start name tab rows eos) :
    (eos.tableNamed name).map TableIdObject.count =
      if rows = [] then none else some (UInt32.ofNat rows.length) := by
  by_cases isEmpty : rows = []
  · rw [if_pos isEmpty, Option.map_eq_none_iff]
    apply MultiIndex.findBy_eq_none_iff.mpr
    intro tested tableObj found
    by_cases same : tab = tested
    · rw [← same] at found
      rw [show (eos.db.rows .tableId).rows[tab]? = none from
        added.noTable isEmpty] at found
      cases found
    · exact newTable.noName tested tableObj
        ((added.otherTables tested same).symm.trans found)
  · obtain ⟨tableObj, hasTable, isName, isCount⟩ := added.table isEmpty
    rw [tableNamed_of_row tab hasTable isName, if_neg isEmpty, Option.map_some,
      isCount]

variable {db : Database eosDbTables}
  {place : (t : TableType) → (indexOf t).Id → Address}
  {tableBlock : Block} {calls : List (NewRow × Block)}

theorem keys_objects (calls : List (NewRow × Block)) :
    (objects tab calls).map KeyValueObject.primaryKey =
      calls.map fun call => call.1.id := by
  rw [objects, List.map_map]
  rfl

theorem addable_objects
    (distinct : (calls.map fun call => call.1.id).Nodup)
    (newIds : ∀ call ∈ calls,
      (db.rows .keyValue).rows[call.1.id.toInt64]? = none) :
    Addable db.rows tab (objects tab calls) where
  inTable := by
    intro row member
    obtain ⟨call, _, rfl⟩ := List.mem_map.mp member
    rfl
  keyed := by
    intro row member
    obtain ⟨call, _, rfl⟩ := List.mem_map.mp member
    rfl
  distinct := by
    rw [keys_objects]
    exact distinct
  absent := by
    intro row member
    obtain ⟨call, isCall, rfl⟩ := List.mem_map.mp member
    exact newIds call isCall

/-- The rows are stored through a new `eos_db`. -/
theorem storeAll_ofDatabase (ready : db.Ready)
    (rowsApart : (ofDatabase db place).Apart .keyValue)
    (tablesApart : (ofDatabase db place).Apart .tableId)
    (newTable : NewTable db.rows (code, scope, table) tab)
    (addable : Addable db.rows tab (objects tab calls))
    (supplied : (ofDatabase db place).Supplied tab tableBlock calls) :
    ∃ stored used, storeAll code scope table tableBlock calls
        (ofDatabase db place) =
          .ok ((List.range' 0 calls.length).map fun n : Nat => toInt32 n)
            stored ∧
      Navigable stored used ∧
      Added db.rows (code, scope, table) tab (objects tab calls) stored ∧
      stored.IssuedInOrder (objects tab calls) := by
  have navigable := EosWithTableIds.navigable_start ready rowsApart tablesApart
  have added : Added db.rows (code, scope, table) tab []
      (ofDatabase db place) := added_nil newTable rfl
  have notUsed :
      tableBlock.unset ∉ (EosWithTableIds.start db place).tableIds := by
    rw [supplied.isTab]
    intro isUsed
    rcases List.mem_append.mp isUsed with isLive | isOfRow
    · exact mem_liveTables.mp isLive newTable.noTable
    · obtain ⟨entry, member, isTab⟩ := List.mem_map.mp isOfRow
      exact newTable.noRow entry.1 entry.2
        ((Maps.mem_map_toList _ _ _).mp member) isTab
  exact added.storeAll_apply newTable addable navigable
    (fun _ => ⟨⟨supplied.tableVacant, fun isUsed => absurd isUsed notUsed⟩,
      supplied.isTab⟩) supplied.rows rfl

/-- What a new `eos_db` on the same database starts with. -/
theorem Navigable.restart (navigable : Navigable eos used) :
    Navigable (ofDatabase eos.db eos.place)
      (EosWithTableIds.start eos.db eos.place).tableIds :=
  EosWithTableIds.navigable_start navigable.ready navigable.rowsApart
    navigable.tablesApart

/-- Storing at most 2^31 rows in a new table, updating any of them, and finding
and removing them through another `eos_db` in any order is the identity on the
database; the rows and the count in between do not depend on the order of the
stores. -/
theorem storing_and_removing_is_identity (ndebug : Bool) (code : Name)
    (scope : Sha256) (table : Name) (tab : Int64) (db : Database eosDbTables)
    (place : (t : TableType) → (indexOf t).Id → Address)
    (tableBlock otherBlock : Block) (calls others : List (NewRow × Block))
    (ready : db.Ready) (rowsApart : (ofDatabase db place).Apart .keyValue)
    (tablesApart : (ofDatabase db place).Apart .tableId)
    (newTable : NewTable db.rows (code, scope, table) tab)
    (distinct : (calls.map fun call => call.1.id).Nodup)
    (newIds : ∀ call ∈ calls,
      (db.rows .keyValue).rows[call.1.id.toInt64]? = none)
    (supplied : (ofDatabase db place).Supplied tab tableBlock calls)
    (few : calls.length ≤ 2 ^ 31)
    (reordered : (calls.map Prod.fst).Perm (others.map Prod.fst))
    (othersSupplied : (ofDatabase db place).Supplied tab otherBlock others) :
    RemovedAgain ndebug code scope table db place tableBlock calls ∧
      SameAfterStores code scope table db place tableBlock otherBlock calls
        others := by
  have addable : Addable db.rows tab (objects tab calls) :=
    addable_objects distinct newIds
  have samePerm : (objects tab calls).Perm (objects tab others) := by
    have isMapped : ∀ list : List (NewRow × Block), objects tab list =
        (list.map Prod.fst).map (NewRow.object tab) := by
      intro list
      rw [objects, List.map_map]
      rfl
    rw [isMapped, isMapped]
    exact reordered.map _
  obtain ⟨stored, used, stores, navigable, added, inOrder⟩ :=
    storeAll_ofDatabase ready rowsApart tablesApart newTable addable supplied
  obtain ⟨otherStored, _, otherStores, _, otherAdded, _⟩ :=
    storeAll_ofDatabase ready rowsApart tablesApart newTable
      (addable.perm samePerm) othersSupplied
  have isLength : (objects tab calls).length = calls.length :=
    List.length_map _
  constructor
  · refine ⟨_, stored, stores, ?_⟩
    intro updates known
    have isIds : (objects tab calls).map KeyValueObject.primaryKey = _ :=
      keys_objects calls
    rw [← isLength, ← isIds] at known
    obtain ⟨updated, rows, _, updates, updatedNavigable, updatedAdded,
      updatedAddable, sameKeys⟩ :=
      added.updateAll_apply addable navigable inOrder (by omega) known
    refine ⟨updated, updates, ?_⟩
    intro removals reorders
    have isKeys : (removals ++ []).Perm
        (rows.map KeyValueObject.primaryKey) := by
      rw [List.append_nil, sameKeys, keys_objects]
      exact reorders
    have sameSize := reorders.length_eq
    rw [List.length_map] at sameSize
    have rowsSize := congrArg List.length sameKeys
    rw [List.length_map, List.length_map, isLength] at rowsSize
    have freshAdded : Added db.rows (code, scope, table) tab rows
        (ofDatabase updated.db updated.place) := updatedAdded.of_rows rfl
    have noEntries : (ofDatabase updated.db updated.place).keyvalEntries =
        List.replicate 0 none := rfl
    obtain ⟨final, rest, _, removes, _, finalAdded, _, _, isNil⟩ :=
      freshAdded.removeAll_apply updatedAddable updatedNavigable.restart
        noEntries isKeys (by omega) (by omega)
    have isEmpty : rest = [] := List.map_eq_nil_iff.mp isNil.nil_eq.symm
    rw [isEmpty] at finalAdded
    exact ⟨final, removes, finalAdded.rows_eq newTable⟩
  · have sameAdded := otherAdded.perm samePerm.symm
    refine ⟨_, stored, _, otherStored, stores, otherStores,
      added.rows_unique sameAdded, ?_⟩
    rw [added.count_eq newTable, sameAdded.count_eq newTable]

end Identity

/-! ## On an empty database -/

section Empty

theorem emptyTables_newTable (name : TableName) (tab : Int64) :
    NewTable emptyTables.rows name tab where
  noName := by
    intro tested tableObj found
    rw [show (emptyTables.rows .tableId).rows[tested]? = none from
      MultiIndex.empty_row tested] at found
    cases found
  noTable := MultiIndex.empty_row tab
  noRow := by
    intro id row found
    rw [show (emptyTables.rows .keyValue).rows[id]? = none from
      MultiIndex.empty_row id] at found
    cases found

theorem emptyTables_supplied (tableBlock : Block)
    {calls : List (NewRow × Block)}
    (distinct : (calls.map fun call => call.2.address).Nodup) :
    (ofDatabase emptyTables fun _ _ => 0).Supplied tableBlock.unset tableBlock
      calls where
  tableVacant := by
    intro entry member
    change entry ∈ [] at member
    cases member
  isTab := rfl
  rows := by
    refine ⟨?_, distinct⟩
    intro call _ entry member
    change entry ∈ [] at member
    cases member

def threeRows : List (NewRow × Block) :=
  [(⟨7, ⟨4⟩, [10]⟩, ⟨32, 0⟩), (⟨18446744073709551615, ⟨4⟩, []⟩, ⟨64, 0⟩),
    (⟨3, ⟨5⟩, [11, 12]⟩, ⟨96, 0⟩)]

/-- The same rows in another order, in the blocks in the same order. -/
def threeRowsTurned : List (NewRow × Block) :=
  [(⟨3, ⟨5⟩, [11, 12]⟩, ⟨32, 0⟩), (⟨7, ⟨4⟩, [10]⟩, ⟨64, 0⟩),
    (⟨18446744073709551615, ⟨4⟩, []⟩, ⟨96, 0⟩)]

theorem storing_and_removing_is_identity_threeRows :
    RemovedAgain false ⟨1⟩ 2 ⟨3⟩ emptyTables (fun _ _ => 0) ⟨16, 5⟩ threeRows ∧
      SameAfterStores ⟨1⟩ 2 ⟨3⟩ emptyTables (fun _ _ => 0) ⟨16, 5⟩ ⟨48, 5⟩
        threeRows threeRowsTurned :=
  storing_and_removing_is_identity false ⟨1⟩ 2 ⟨3⟩ 5 emptyTables
    (fun _ _ => 0) ⟨16, 5⟩ ⟨48, 5⟩ threeRows threeRowsTurned emptyTables_ready
    (EosWithIssued.emptyTables_apart _ .keyValue)
    (EosWithIssued.emptyTables_apart _ .tableId)
    (emptyTables_newTable (⟨1⟩, 2, ⟨3⟩) 5) (by decide)
    (fun call _ => MultiIndex.empty_row call.1.id.toInt64)
    (emptyTables_supplied ⟨16, 5⟩ (by decide)) (by decide) (by decide)
    (emptyTables_supplied ⟨48, 5⟩ (by decide))

/-! ### More rows than an `int` can count -/

/-- The rows with the keys below `size`, each in its own block. -/
def rowsBelow (size : Nat) : List (NewRow × Block) :=
  (List.range size).map fun number =>
    (⟨UInt64.ofNat number, ⟨4⟩, []⟩, ⟨EosWithTableIds.rowAddress number, 0⟩)

theorem rowsBelow_ids (size : Nat) :
    (rowsBelow size).map (fun call => call.1.id) =
      (List.range size).map UInt64.ofNat := by
  rw [rowsBelow, List.map_map]
  rfl

theorem rowsBelow_length (size : Nat) : (rowsBelow size).length = size := by
  rw [rowsBelow, List.length_map, List.length_range]

theorem rowsBelow_distinct {size : Nat} (bound : size ≤ 2 ^ 64) :
    ((rowsBelow size).map fun call => call.1.id).Nodup := by
  rw [rowsBelow_ids]
  apply List.Nodup.map_on _ List.nodup_range
  intro left isLeft right isRight same
  rw [List.mem_range] at isLeft isRight
  have sameNat := congrArg UInt64.toNat same
  rwa [UInt64.toNat_ofNat', UInt64.toNat_ofNat', Nat.mod_eq_of_lt (by omega),
    Nat.mod_eq_of_lt (by omega)] at sameNat

theorem rowsBelow_supplied (size : Nat) :
    (ofDatabase emptyTables fun _ _ => 0).Supplied 5 ⟨16, 5⟩
      (rowsBelow size) := by
  apply emptyTables_supplied ⟨16, 5⟩
  rw [rowsBelow, List.map_map]
  apply List.Nodup.map_on _ List.nodup_range
  exact fun _ _ _ _ same => EosWithTableIds.rowAddress_inj same

variable {ndebug : Bool} {code : Name} {scope : Sha256} {table : Name}

theorem removeAll_append (front back : List UInt64) :
    removeAll ndebug code scope table (front ++ back) =
      (do
        removeAll ndebug code scope table front
        removeAll ndebug code scope table back) := by
  induction front with
  | nil => rfl
  | cons id front inductionHypothesis =>
      rw [List.cons_append, removeAll, removeAll, inductionHypothesis]
      simp only [bind_assoc]

/-- The cache has no row under a number below -1. -/
theorem dbRemoveI64_endIterator {iterator : Int} (isEnd : iterator < -1) :
    dbRemoveI64 false iterator eos =
      .error (.assertion "dereference of end iterator") eos := by
  have isError : (eos.caches .keyValue).get false iterator =
      .error (.assertion "dereference of end iterator") := by
    rw [IteratorCache.get, if_neg (by omega), if_pos (by omega)]
    rfl
  exact bind_apply_of_error _ (getObject_error isError)

/-- 2^31 + 1 rows can be stored, but the last one that is to be removed gets a
number below -1 from `db_find_i64`, and `db_remove_i64` rejects it. -/
theorem too_many_rows_to_remove :
    NewTable emptyTables.rows (⟨1⟩, 2, ⟨3⟩) 5 ∧
      ((rowsBelow (EosWithTableIds.manyRows + 1)).map
        fun call => call.1.id).Nodup ∧
      (∀ call ∈ rowsBelow (EosWithTableIds.manyRows + 1),
        (emptyTables.rows .keyValue).rows[call.1.id.toInt64]? = none) ∧
      (ofDatabase emptyTables fun _ _ => 0).Supplied 5 ⟨16, 5⟩
        (rowsBelow (EosWithTableIds.manyRows + 1)) ∧
      ¬ RemovedAgain false ⟨1⟩ 2 ⟨3⟩ emptyTables (fun _ _ => 0) ⟨16, 5⟩
        (rowsBelow (EosWithTableIds.manyRows + 1)) := by
  have newTable := emptyTables_newTable (⟨1⟩, 2, ⟨3⟩) 5
  have isMany : EosWithTableIds.manyRows = 2 ^ 31 := by
    unfold EosWithTableIds.manyRows
    rfl
  have distinct : ((rowsBelow (EosWithTableIds.manyRows + 1)).map
      fun call => call.1.id).Nodup := rowsBelow_distinct (by omega)
  have newIds : ∀ call ∈ rowsBelow (EosWithTableIds.manyRows + 1),
      (emptyTables.rows .keyValue).rows[call.1.id.toInt64]? = none :=
    fun call _ => MultiIndex.empty_row call.1.id.toInt64
  have supplied := rowsBelow_supplied (EosWithTableIds.manyRows + 1)
  refine ⟨newTable, distinct, newIds, supplied, ?_⟩
  rintro ⟨_, stored, stores, updating⟩
  have addable : Addable emptyTables.rows 5
      (objects 5 (rowsBelow (EosWithTableIds.manyRows + 1))) :=
    addable_objects distinct newIds
  obtain ⟨_, _, stores', navigable, added, _⟩ :=
    storeAll_ofDatabase emptyTables_ready
      (EosWithIssued.emptyTables_apart _ .keyValue)
      (EosWithIssued.emptyTables_apart _ .tableId) newTable addable supplied
  rw [stores] at stores'
  injection stores' with _ sameStored
  rw [← sameStored] at navigable added
  obtain ⟨updated, updates, removing⟩ := updating [] nofun
  injection updates with _ sameUpdated
  rw [← sameUpdated] at removing
  obtain ⟨final, removes, _⟩ := removing _ (List.Perm.refl _)
  have isSplit : (rowsBelow (EosWithTableIds.manyRows + 1)).map
      (fun call => call.1.id) =
        (List.range EosWithTableIds.manyRows).map UInt64.ofNat ++
          [UInt64.ofNat EosWithTableIds.manyRows] := by
    rw [rowsBelow_ids, List.range_succ, List.map_append, List.map_singleton]
  have isKeys : ((List.range EosWithTableIds.manyRows).map UInt64.ofNat ++
      [UInt64.ofNat EosWithTableIds.manyRows]).Perm
        ((objects 5 (rowsBelow (EosWithTableIds.manyRows + 1))).map
          KeyValueObject.primaryKey) := by
    rw [keys_objects, isSplit]
  have noEntries : (ofDatabase stored.db stored.place).keyvalEntries =
      List.replicate 0 none := rfl
  have freshAdded : Added emptyTables.rows (⟨1⟩, 2, ⟨3⟩) 5
      (objects 5 (rowsBelow (EosWithTableIds.manyRows + 1)))
        (ofDatabase stored.db stored.place) := added.of_rows rfl
  have isLength :
      (objects 5 (rowsBelow (EosWithTableIds.manyRows + 1))).length =
        EosWithTableIds.manyRows + 1 := by
    rw [objects, List.length_map, rowsBelow_length]
  obtain ⟨middle, rest, _, removesMany, isNavigable, isAdded, isAddable,
    cleared, isLast⟩ : ∃ middle rest used', removeAll false ⟨1⟩ 2 ⟨3⟩ _ _ = _ ∧ _ :=
    freshAdded.removeAll_apply addable navigable.restart noEntries isKeys
      (by rw [List.length_map, List.length_range]; omega)
      (by rw [isLength]; omega)
  rw [List.length_map, List.length_range, Nat.zero_add] at cleared
  have isKey : UInt64.ofNat EosWithTableIds.manyRows ∈
      rest.map KeyValueObject.primaryKey :=
    isLast.subset (List.mem_singleton_self _)
  obtain ⟨row, member, isRow⟩ := List.mem_map.mp isKey
  obtain ⟨found, _, finds, _⟩ :=
    isAdded.find_apply isAddable isNavigable cleared member
  rw [isRow] at finds
  have rejects :
      dbRemoveI64 false (toInt32 EosWithTableIds.manyRows) found = _ :=
    dbRemoveI64_endIterator EosWithTableIds.toInt32_manyRows
  have fails :
      removeAll false ⟨1⟩ 2 ⟨3⟩ [UInt64.ofNat EosWithTableIds.manyRows] middle =
        .error (.assertion "dereference of end iterator") found :=
    (bind_apply_of_ok _ finds).trans (bind_apply_of_error _ rejects)
  rw [isSplit, removeAll_append, bind_apply_of_ok _ removesMany, fails]
    at removes
  cases removes

end Empty

end EosDb

end StateDatabase
