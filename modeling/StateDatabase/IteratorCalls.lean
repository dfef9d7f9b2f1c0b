import Mathlib
import StateDatabase.Creation
import StateDatabase.Handles

/-!
# The calls of `eos_db` on consistent states

What each call does when the counts are right and the caches lead where they
should.  A call through an iterator finds the row and its table; it fails an
assertion when the iterator leads nowhere.
-/

namespace StateDatabase

open Programs GenericIndex Maps

namespace EosDb

variable {eos : EosDb} {used : List Int64} {r : RowTable} {ndebug : Bool}

/-! ## Names of tables -/

/-- The table with this id has this name. -/
def HasName (eos : EosDb) (tab : Int64) (name : TableName) : Prop :=
  ∃ tableObj, (eos.db.rows .tableId).rows[tab]? = some tableObj ∧
    tableObj.codeScopeTable = name

theorem HasName.name_unique {tab : Int64} {left right : TableName}
    (isLeft : eos.HasName tab left) (isRight : eos.HasName tab right) :
    left = right := by
  obtain ⟨first, foundFirst, rfl⟩ := isLeft
  obtain ⟨second, foundSecond, rfl⟩ := isRight
  rw [foundFirst, Option.some.injEq] at foundSecond
  rw [foundSecond]

theorem HasName.id_unique {left right : Int64} {name : TableName}
    (isLeft : eos.HasName left name) (isRight : eos.HasName right name) :
    left = right := by
  obtain ⟨first, foundFirst, firstName⟩ := isLeft
  obtain ⟨second, foundSecond, secondName⟩ := isRight
  exact (eos.db.rows .tableId).unique foundFirst foundSecond
    ((clash_tableId_iff first second).mpr (firstName.trans secondName.symm))

theorem hasName_of_tableNamed {name : TableName} {tableObj : TableIdObject}
    (named : eos.tableNamed name = some tableObj) :
    eos.HasName tableObj.id name :=
  ⟨tableObj, row_of_tableNamed named⟩

theorem not_hasName_of_tableNamed {name : TableName}
    (absent : eos.tableNamed name = none) (tab : Int64) :
    ¬ eos.HasName tab name := by
  rintro ⟨tableObj, found, isName⟩
  exact MultiIndex.findBy_eq_none_iff.mp absent tab tableObj found isName

/-- The ids of the tables. -/
def liveTables (eos : EosDb) : List Int64 :=
  (eos.db.rows .tableId).rows.toList.map Prod.fst

theorem mem_liveTables {tab : Int64} :
    tab ∈ eos.liveTables ↔ (eos.db.rows .tableId).rows[tab]? ≠ none :=
  map_key_mem_iff _ _

/-! ## Finding or creating a table -/

/-- The block of a new table: no table stands there, and its id was not the id
of a table that is gone. -/
def TableBlock (eos : EosDb) (used : List Int64) (block : Block) : Prop :=
  eos.Vacant .tableId block.address ∧
    (block.unset ∈ used →
      (eos.db.rows .tableId).rows[block.unset]? ≠ none)

instance (eos : EosDb) (used : List Int64) (block : Block) :
    Decidable (eos.TableBlock used block) := by
  unfold TableBlock
  infer_instance

/-- What `find_or_create_table` leaves behind. -/
structure Located (eos : EosDb) (used : List Int64) (name : TableName)
    (tab : Int64) (located : EosDb) : Prop where
  consistent : located.Consistent (located.liveTables ++ used)
  hasName : located.HasName tab name
  names : ∀ (tested : Int64) (other : TableName),
    located.HasName tested other ↔
      eos.HasName tested other ∨ tested = tab ∧ other = name
  rows : ∀ t, t ≠ .tableId → located.db.rows t = eos.db.rows t
  place : ∀ t, t ≠ .tableId → located.place t = eos.place t
  caches : located.caches = eos.caches

section Tables

variable {code : Name} {scope : Sha256} {table payer : Name} {value : Bytes}
  {block : Block}

/-- Creating a table, by either function. -/
theorem Consistent.ends_createTable (consistent : eos.Consistent used)
    (granted : eos.tableNamed (code, scope, table) = none →
      eos.TableBlock used block) :
    Ends (create .tableId block (newTable code scope table payer value block))
      eos
      (fun _ final =>
        eos.Located used (code, scope, table) block.unset final)
      (fun fault final =>
        fault = .logicError uniquenessMessage ∧ final = eos) := by
  cases attempt : (eos.db.rows .tableId).emplace
      (newTable code scope table payer value block) with
  | none => exact ends_of_error (create_none consistent.ready attempt) ⟨rfl, rfl⟩
  | some tables =>
      obtain ⟨db, created, wrote⟩ :=
        create_some consistent.ready attempt
      obtain ⟨unused, entries⟩ := MultiIndex.emplace_some attempt
      have absent : eos.tableNamed (code, scope, table) = none := by
        have distinct := ((MultiIndex.admits_iff _ _).mp
          (MultiIndex.admits_of_emplace attempt)).2
        refine MultiIndex.findBy_eq_none_iff.mpr fun id row found isName => ?_
        exact distinct id row found ((clash_tableId_iff _ _).mpr isName.symm)
      obtain ⟨vacant, isFresh⟩ := granted absent
      have newTables : db.rows .tableId = tables := by
        rw [wrote.rows, Function.update_self]
      refine ends_of_ok created
        { consistent := ?_
          hasName := ⟨newTable code scope table payer value block, ?_, rfl⟩
          names := ?_
          rows := fun t different => by
            simp only [wrote.rows, Function.update_of_ne different]
          place := fun t different => placed_other_type _ different _ _
          caches := rfl }
      · refine Consistent.mono (consistent.tableCreated attempt rfl
          (fun isUsed => isFresh isUsed unused) vacant wrote) ?_
        refine List.cons_subset.mpr ⟨?_, List.subset_append_right _ _⟩
        refine List.mem_append_left _ (mem_liveTables.mpr ?_)
        simp only [newTables]
        rw [entries, if_pos rfl]
        exact Option.some_ne_none _
      · simp only [newTables]
        exact (entries _).trans (if_pos rfl)
      · intro tested other
        simp only [HasName, newTables]
        rw [entries]
        by_cases same : tableIdMultiIndex.id
            (newTable code scope table payer value block) = tested
        · have isUnset : block.unset = tested := same
          rw [if_pos same]
          constructor
          · rintro ⟨tableObj, isNew, isName⟩
            cases isNew
            exact Or.inr ⟨isUnset.symm, isName.symm⟩
          · rintro (⟨tableObj, found, _⟩ | ⟨_, isName⟩)
            · rw [← same, unused] at found
              cases found
            · exact ⟨_, rfl, isName.symm⟩
        · have different : tested ≠ block.unset := fun equal => same equal.symm
          rw [if_neg same]
          exact ⟨Or.inl, fun holds => holds.resolve_right
            fun isNew => different isNew.1⟩

theorem Consistent.ends_findOrCreateTable (consistent : eos.Consistent used)
    (payer : Name)
    (granted : eos.tableNamed (code, scope, table) = none →
      eos.TableBlock used block) :
    Ends (findOrCreateTable code scope table payer block) eos
      (fun tab final => eos.Located used (code, scope, table) tab final)
      (fun fault final =>
        fault = .logicError uniquenessMessage ∧ final = eos) := by
  refine ends_bind (ends_of_ok
    (findTable_apply consistent.ready code scope table) ?_)
  cases found : eos.tableNamed (code, scope, table) with
  | some existing =>
      have lookup : (eos.db.rows .tableId).findBy TableIdObject.codeScopeTable
          (code, scope, table) = some existing := found
      have hasName := hasName_of_tableNamed found
      simp only [lookup]
      refine ends_pure
        { consistent := consistent.mono (List.subset_append_right _ _)
          hasName := hasName
          names := fun tested other => ⟨Or.inl, ?_⟩
          rows := fun _ _ => rfl
          place := fun _ _ => rfl
          caches := rfl }
      rintro (holds | ⟨rfl, rfl⟩)
      · exact holds
      · exact hasName
  | none =>
      have lookup : (eos.db.rows .tableId).findBy TableIdObject.codeScopeTable
          (code, scope, table) = none := found
      simp only [lookup]
      exact ends_bind ((consistent.ends_createTable granted).imp
        (fun _ _ located => ends_pure located) fun _ _ failed => failed)

theorem Consistent.ends_dbStoreByScope {buffer : Bytes}
    (consistent : eos.Consistent used)
    (granted : eos.tableNamed (code, scope, table) = none →
      eos.TableBlock used block) :
    Ends (dbStoreByScope code scope table payer buffer block) eos
      (fun tab final => eos.Located used (code, scope, table) tab final)
      (fun fault final =>
        fault = .logicError uniquenessMessage ∧ final = eos) :=
  ends_bind ((consistent.ends_createTable granted).imp
    (fun _ _ located => ends_pure located) fun _ _ failed => failed)

/-- A table with a new payer and value. -/
theorem Consistent.dbUpdateByScope_ok {buffer : Bytes} {tab : Int64}
    {tableObj : TableIdObject} (consistent : eos.Consistent used)
    (found : (eos.db.rows .tableId).rows[tab]? = some tableObj) :
    ∃ final, dbUpdateByScope tab payer buffer eos = .ok ⟨⟩ final ∧
      final.Consistent used ∧ final.caches = eos.caches := by
  obtain ⟨db, modified, success, wrote, entries⟩ :=
    modify_of_interchangeable (t := .tableId)
      (fun t => { t with value := buffer, payer := payer })
      consistent.ready found (interchangeable_scope tableObj payer buffer)
  refine ⟨_, success, consistent.changed wrote.ready ?_ ?_ ?_, rfl⟩
  · rw [wrote.rows]
    have sameCount : { tableObj with value := buffer, payer := payer }.count =
        tableObj.count := rfl
    exact consistent.balanced.tableChanged found sameCount entries
  · intro t id
    rw [wrote.rows]
    by_cases same : t = .tableId
    · subst same
      rw [Function.update_self, entries]
      split
      · rename_i isTable
        rw [← isTable, found]
        simp
      · rfl
    · rw [Function.update_of_ne same]
  · intro r id row new isRow isNew
    rw [wrote.rows, Function.update_of_ne (type_ne_tableId r), isRow] at isNew
    cases isNew
    rfl

end Tables

/-! ## Storing a row -/

/-- What a stored row leaves behind. -/
structure Stored (eos : EosDb) (used : List Int64) (r : RowTable)
    (name : TableName) (row : (indexOf r.type).Value) (address : Address)
    (iterator : Int) (final : EosDb) : Prop where
  consistent : final.Consistent (final.liveTables ++ used)
  names : ∀ (tested : Int64) (other : TableName),
    final.HasName tested other ↔
      eos.HasName tested other ∨ tested = r.tId row ∧ other = name
  absent : (eos.db.rows r.type).rows[(indexOf r.type).id row]? = none
  rows : ∀ tested : (indexOf r.type).Id,
    (final.db.rows r.type).rows[tested]? =
      if (indexOf r.type).id row = tested then some row
      else (eos.db.rows r.type).rows[tested]?
  place : final.place r.type =
    Function.update (eos.place r.type) ((indexOf r.type).id row) address
  number : rowsOf final.db.rows = fun tested =>
    rowsOf eos.db.rows tested + if r.tId row = tested then 1 else 0
  iterator : iterator = toInt32 (eos.caches r).iteratorToObject.length
  caches : ∃ tableAddress, final.caches = Function.update eos.caches r
    (((eos.caches r).cacheTable (r.tId row) tableAddress).2.pushed address)

theorem rowsOf_congr {left right : Contents}
    (same : ∀ t, t ≠ .tableId → left t = right t) (tab : Int64) :
    rowsOf left tab = rowsOf right tab := by
  refine congrArg List.sum (List.map_congr_left fun r _ => ?_)
  rw [same r.type (type_ne_tableId r)]

section Rows

variable {code : Name} {scope : Sha256} {table payer : Name} {memory : Memory}
  {newRow : Int64 → (indexOf r.type).Value} {name : TableName} {tab : Int64}
  {located : EosDb}

/-- A table that was just created has no rows. -/
theorem Located.few (isLocated : eos.Located used name tab located)
    (consistent : eos.Consistent used)
    (few : ∀ tableObj ∈ eos.tableNamed name,
      rowsOf eos.db.rows tableObj.id + 1 < 2 ^ 32) :
    rowsOf located.db.rows tab + 1 < 2 ^ 32 := by
  rw [rowsOf_congr isLocated.rows]
  by_cases before : eos.HasName tab name
  · obtain ⟨tableObj, found, isName⟩ := before
    have isId : tableObj.id = tab := (eos.db.rows .tableId).keyed found
    rw [← isId]
    exact few tableObj (tableNamed_of_row _ found isName)
  · have gone : (eos.db.rows .tableId).rows[tab]? = none := by
      cases found : (eos.db.rows .tableId).rows[tab]? with
      | none => rfl
      | some tableObj =>
          -- a table has one name only
          have other : eos.HasName tab tableObj.codeScopeTable :=
            ⟨tableObj, found, rfl⟩
          have sameName := ((isLocated.names _ _).mpr
            (Or.inl other)).name_unique isLocated.hasName
          exact absurd (sameName ▸ other) before
    rw [consistent.balanced.rowsOf_of_gone gone]
    decide

/-- The caches of the row tables lead to no vacant address. -/
theorem Consistent.misses {address : Address} (consistent : eos.Consistent used)
    (vacant : eos.Vacant r.type address) :
    (eos.caches r).Misses address := by
  intro position held
  obtain ⟨id, row, found, isAddress, _⟩ :=
    (consistent.caches r).entries position address held
  exact vacant.ne (by rw [found]; exact Option.some_ne_none _) isAddress

theorem Located.vacant {address : Address}
    (isLocated : eos.Located used name tab located)
    (vacant : eos.Vacant r.type address) : located.Vacant r.type address := by
  intro entry member
  rw [isLocated.rows r.type (type_ne_tableId r)] at member
  rw [isLocated.place r.type (type_ne_tableId r)]
  exact vacant entry member

/-- A row was stored in a table that was found, and counted. -/
theorem Located.stored {row : (indexOf r.type).Value} {tableObj : TableIdObject}
    {rows : MultiIndex (indexOf r.type)}
    {tables : MultiIndex tableIdMultiIndex} {db : Database eosDbTables}
    {address : Address} (isLocated : eos.Located used name tab located)
    (isTable : r.tId row = tab)
    (hasTable : (located.db.rows .tableId).rows[tab]? = some tableObj)
    (success : (located.db.rows r.type).emplace row = some rows)
    (ready : db.Ready)
    (isRows : db.rows = Function.update
      (Function.update located.db.rows r.type rows) .tableId tables)
    (counts : ∀ tested : Int64, tables.rows[tested]? =
      if tab = tested then
        some { tableObj with count := tableObj.count + 1 }
      else (located.db.rows .tableId).rows[tested]?)
    (few : rowsOf located.db.rows tab + 1 < 2 ^ 32)
    (vacant : located.Vacant r.type address) :
    eos.Stored used r name row address
      (cachedRow (located.caches r) tab (located.place .tableId tab) address).1
      { db := db
        place := placed located.place r.type ((indexOf r.type).id row) address
        caches := Function.update located.caches r
          (cachedRow (located.caches r) tab (located.place .tableId tab)
            address).2 } := by
  subst isTable
  have consistent := isLocated.consistent
  obtain ⟨absent, entries⟩ := MultiIndex.emplace_some success
  have sameRows := isLocated.rows r.type (type_ne_tableId r)
  have newTables : db.rows .tableId = tables := by
    rw [isRows, Function.update_self]
  have newRows : db.rows r.type = rows := by
    rw [isRows, Function.update_of_ne (type_ne_tableId r),
      Function.update_self]
  have tableStays : (db.rows .tableId).rows[r.tId row]? ≠ none := by
    rw [newTables, counts, if_pos rfl]
    exact Option.some_ne_none _
  have isStored : (db.rows r.type).rows[(indexOf r.type).id row]? =
      some row := by
    rw [newRows, entries, if_pos rfl]
  have sameTables : ∀ (tested : Int64) (other : TableName),
      (∃ tableObj, (db.rows .tableId).rows[tested]? = some tableObj ∧
        tableObj.codeScopeTable = other) ↔ located.HasName tested other := by
    intro tested other
    rw [newTables, counts, HasName]
    split
    · rename_i same
      rw [← same, hasTable]
      simp [TableIdObject.codeScopeTable]
    · rfl
  -- the new row has no iterator yet
  have mirrored := (consistent.caches r).mirrored.cacheTable (r.tId row)
    (located.place .tableId (r.tId row))
  have misses : ((located.caches r).cacheTable (r.tId row)
      (located.place .tableId (r.tId row))).2.Misses address := by
    intro position
    rw [IteratorCache.cacheTable_iteratorToObject]
    exact consistent.misses vacant position
  have added := mirrored.add_of_new misses
  rw [cachedRow, added]
  refine
    { consistent := ?_
      names := ?_
      absent := ?_
      rows := ?_
      place := ?_
      number := ?_
      iterator := ?_
      caches := ?_ }
  · have counted := consistent.rowStored ready hasTable success few vacant
      isRows counts
    have cached := counted.tableCached (r := r) tableStays
    obtain ⟨entry, isCached⟩ := IteratorCache.cacheTable_cached
      (located.caches r) (r.tId row) (located.place .tableId (r.tId row))
    have tableAddress : placed located.place r.type ((indexOf r.type).id row)
        address .tableId (r.tId row) = located.place .tableId (r.tId row) :=
      congrFun (placed_other_type _ (type_ne_tableId r).symm _ _) _
    simp only [tableAddress] at cached
    have final := cached.rowAdded (r := r) isStored
      (by simp only [Function.update_self]; exact isCached)
    simp only [Function.update_self, Function.update_idem, placed_self, added]
      at final
    refine final.mono (List.append_subset.mpr ⟨?_,
      List.subset_append_right _ _⟩)
    intro tested live
    refine List.mem_append_left _ (mem_liveTables.mpr ?_)
    obtain ⟨found, isFound⟩ := Option.ne_none_iff_exists'.mp
      (mem_liveTables.mp live)
    obtain ⟨stays, isStays, _⟩ :=
      (sameTables tested _).mpr ⟨found, isFound, rfl⟩
    simp only [isStays]
    exact Option.some_ne_none _
  · intro tested other
    rw [← isLocated.names tested other]
    exact sameTables tested other
  · rw [← sameRows]
    exact absent
  · intro tested
    rw [← sameRows]
    simp only [newRows]
    exact entries tested
  · simp only [placed, Function.update_self,
      isLocated.place r.type (type_ne_tableId r)]
  · funext tested
    rw [← rowsOf_congr isLocated.rows tested]
    simp only [isRows, rowsOf_update_tableId]
    exact rowsOf_stored success
  · simp only [IteratorCache.cacheTable_iteratorToObject, isLocated.caches]
  · exact ⟨located.place .tableId (r.tId row), by rw [isLocated.caches]⟩

theorem Consistent.ends_storeRow (consistent : eos.Consistent used)
    (payer : Name)
    (granted : eos.tableNamed (code, scope, table) = none →
      eos.TableBlock used memory.table)
    (vacant : eos.Vacant r.type memory.row.address)
    (few : ∀ tableObj ∈ eos.tableNamed (code, scope, table),
      rowsOf eos.db.rows tableObj.id + 1 < 2 ^ 32)
    (ofTable : ∀ tab, r.tId (newRow tab) = tab) :
    Ends (storeRow r code scope table payer newRow memory) eos
      (fun iterator final => ∃ tab, eos.Stored used r (code, scope, table)
        (newRow tab) memory.row.address iterator final)
      (fun fault final => fault = .logicError uniquenessMessage ∧
        (final = eos ∨
          ∃ tab, eos.Located used (code, scope, table) tab final)) := by
  have first := consistent.ends_findOrCreateTable payer granted
  cases attempt : findOrCreateTable code scope table payer memory.table eos with
  | error fault final =>
      rw [Ends, attempt] at first
      exact ends_of_error (storeRow_error attempt) ⟨first.1, Or.inl first.2⟩
  | ok tab located =>
      rw [Ends, attempt] at first
      have isLocated : eos.Located used (code, scope, table) tab located := first
      have ready := isLocated.consistent.ready
      obtain ⟨tableObj, hasTable, _⟩ := isLocated.hasName
      cases emplaced : (located.db.rows r.type).emplace (newRow tab) with
      | none =>
          exact ends_of_error (storeRow_refused attempt ready emplaced)
            ⟨rfl, Or.inr ⟨tab, isLocated⟩⟩
      | some inserted =>
          obtain ⟨db, counted, stored, finalReady, rows, counts⟩ :=
            storeRow_ok attempt ready hasTable emplaced
          refine ends_of_ok stored ⟨tab, ?_⟩
          exact isLocated.stored (ofTable tab) hasTable emplaced finalReady
            rows counts (isLocated.few consistent few)
            (isLocated.vacant vacant)

end Rows

/-! ## Rows behind iterators -/

/-- The row behind an iterator, and its table. -/
structure Holds (eos : EosDb) (r : RowTable) (position : Nat)
    (address : Address) (id : (indexOf r.type).Id)
    (row : (indexOf r.type).Value) (tableObj : TableIdObject) : Prop where
  held : (eos.caches r).iteratorToObject[position]? = some (some address)
  found : (eos.db.rows r.type).rows[id]? = some row
  isAddress : eos.place r.type id = address
  hasTable : (eos.db.rows .tableId).rows[r.tId row]? = some tableObj
  cached : ∃ entry, (eos.caches r).tableCache[r.tId row]? = some entry

section Iterators

variable {position : Nat} {address : Address} {id : (indexOf r.type).Id}
  {row : (indexOf r.type).Value} {tableObj : TableIdObject}

theorem Consistent.holds (consistent : eos.Consistent used)
    (held : (eos.caches r).iteratorToObject[position]? = some (some address)) :
    ∃ id row tableObj, eos.Holds r position address id row tableObj := by
  obtain ⟨id, row, found, isAddress, cached⟩ :=
    (consistent.caches r).entries position address held
  obtain ⟨tableObj, hasTable⟩ := consistent.balanced.owned r id row found
  exact ⟨id, row, tableObj, held, found, isAddress, hasTable, cached⟩

/-- An iterator leads to a row, or its use ends the process. -/
theorem held_or_fault (cache : IteratorCache) (ndebug : Bool)
    (iterator : Int) :
    (∃ (position : Nat) (address : Address), iterator = position ∧
      cache.iteratorToObject[position]? = some (some address)) ∨
    ∃ fault, cache.get ndebug iterator = .error fault ∧
      fault.isException = false := by
  cases got : cache.get ndebug iterator with
  | ok address =>
      obtain ⟨position, isPosition, held⟩ := IteratorCache.get_ok got
      exact Or.inl ⟨position, address, isPosition, held⟩
  | error fault => exact Or.inr ⟨fault, rfl, get_fault got⟩

theorem getObject_error {iterator : Int} {fault : Fault}
    (failed : (eos.caches r).get ndebug iterator = .error fault) :
    getObject ndebug r iterator eos = .error fault eos := by
  rw [getObject, bind_apply_of_ok _ (get_apply eos), failed]
  exact bind_apply_of_error _ rfl

theorem Holds.getObject (holds : eos.Holds r position address id row tableObj)
    (consistent : eos.Consistent used) :
    EosDb.getObject ndebug r position eos = .ok row eos := by
  have got : (eos.caches r).get ndebug position = .ok address :=
    IteratorCache.get_of_live holds.held
  rw [EosDb.getObject, bind_apply_of_ok _ (get_apply eos), got]
  refine (bind_apply_of_ok _ rfl).trans ?_
  exact objectAt_of_row consistent.ready (consistent.apart r.type) holds.found
    holds.isAddress

/-- The table of a row is where the cache says. -/
theorem Holds.getTable (holds : eos.Holds r position address id row tableObj)
    (consistent : eos.Consistent used) :
    EosDb.getTable ndebug r (r.tId row) eos =
      .ok (eos.place .tableId (r.tId row)) eos := by
  obtain ⟨entry, cached⟩ := holds.cached
  have isPlace := ((consistent.caches r).tables _ entry cached).2
    (by rw [holds.hasTable]; exact Option.some_ne_none _)
  rw [EosDb.getTable, bind_apply_of_ok _ (get_apply eos),
    IteratorCache.getTable, cached, isPlace]
  rfl

/-- What the two functions do that remove a row: they find it and its table,
drop the row, and remove the iterator. -/
def removeThrough (ndebug : Bool) (r : RowTable)
    (drop : (indexOf r.type).Id → Int64 → EosDbM PUnit) (iterator : Int) :
    EosDbM PUnit := do
  let obj ← EosDb.getObject ndebug r iterator
  let tableObj ←
    objectAt .tableId (← EosDb.getTable ndebug r (r.tId obj))
  drop ((indexOf r.type).id obj) tableObj.id
  removeIterator ndebug r iterator

theorem dbRemoveI64_eq (iterator : Int) :
    dbRemoveI64 ndebug iterator =
      removeThrough ndebug .keyValue removeI64Row iterator := rfl

theorem idxRemove_eq (kind : IndexKind) (iterator : Int) :
    idxRemove ndebug kind iterator =
      removeThrough ndebug (.index kind) (dropRow (.index kind)) iterator := rfl

theorem Holds.removeThrough
    {drop : (indexOf r.type).Id → Int64 → EosDbM PUnit}
    {db : Database eosDbTables}
    (holds : eos.Holds r position address id row tableObj)
    (consistent : eos.Consistent used)
    (dropped : drop id (r.tId row) eos = .ok ⟨⟩ { eos with db := db }) :
    EosDb.removeThrough ndebug r drop position eos =
      .ok ⟨⟩ { eos with
        db := db
        caches := Function.update eos.caches r
          ((eos.caches r).cleared position address) } := by
  have isId : (indexOf r.type).id row = id :=
    (eos.db.rows r.type).keyed holds.found
  have isTable : tableObj.id = r.tId row :=
    (eos.db.rows .tableId).keyed holds.hasTable
  have tableFound := objectAt_of_row consistent.ready
    (consistent.apart .tableId) holds.hasTable rfl
  rw [EosDb.removeThrough, bind_apply_of_ok _ (holds.getObject consistent),
    bind_apply_of_ok _ (holds.getTable consistent),
    bind_apply_of_ok _ tableFound, isTable, isId, bind_apply_of_ok _ dropped,
    removeIterator, bind_apply_of_ok _ (get_apply _)]
  simp only [IteratorCache.remove_of_live holds.held]
  rfl

/-! ## Removing rows -/

/-- The row is gone and no table is new. -/
structure Dropped (eos : EosDb) (r : RowTable) (id : (indexOf r.type).Id)
    (db : Database eosDbTables) : Prop where
  ready : db.Ready
  balanced : Balanced db.rows
  rows : db.rows r.type = (eos.db.rows r.type).erase id
  otherRows : ∀ t, t ≠ r.type → t ≠ .tableId → db.rows t = eos.db.rows t
  names : ∀ (tab : Int64) (tableObj : TableIdObject),
    (db.rows .tableId).rows[tab]? = some tableObj →
      eos.HasName tab tableObj.codeScopeTable

/-- The row is dropped; the count of its table is the one before less one. -/
theorem Holds.dropRow_ok
    (holds : eos.Holds r position address id row tableObj)
    (consistent : eos.Consistent used) :
    ∃ db, dropRow r id (r.tId row) eos = .ok ⟨⟩ { eos with db := db } ∧
      eos.Dropped r id db ∧
      (db.rows .tableId).rows[r.tId row]? =
        some { tableObj with count := tableObj.count - 1 } := by
  obtain ⟨db, counted, dropped, ready, isRows, entries⟩ :=
    EosDb.dropRow_ok consistent.ready holds.found
      holds.hasTable
  have newTables : db.rows .tableId = counted := by
    rw [isRows, Function.update_of_ne (type_ne_tableId r).symm,
      Function.update_self]
  refine ⟨db, dropped, ?_, by rw [newTables, entries, if_pos rfl]⟩
  refine
    { ready := ready
      balanced := ?_
      rows := by rw [isRows, Function.update_self]
      otherRows := fun t notRow notTable => by
        rw [isRows, Function.update_of_ne notRow,
          Function.update_of_ne notTable]
      names := ?_ }
  · rw [isRows]
    exact consistent.balanced.rowDropped holds.found holds.hasTable entries
  · intro tab found isFound
    rw [newTables, entries] at isFound
    split at isFound
    · rename_i same
      cases isFound
      exact ⟨tableObj, same ▸ holds.hasTable, rfl⟩
    · exact ⟨found, isFound, rfl⟩

/-- `db_remove_i64` also removes the table when its count is zero. -/
theorem Holds.removeI64Row_ok {id : Int64} {row : KeyValueObject}
    (holds : eos.Holds .keyValue position address id row tableObj)
    (consistent : eos.Consistent used) :
    ∃ db, removeI64Row id row.tId eos = .ok ⟨⟩ { eos with db := db } ∧
      eos.Dropped .keyValue id db ∧
      ∀ left, (db.rows .tableId).rows[row.tId]? = some left →
        left.count ≠ 0 := by
  obtain ⟨middle, dropped, isDropped, hasTable⟩ := holds.dropRow_ok consistent
  change dropRow .keyValue id row.tId eos = _ at dropped
  have table : (middle.rows .tableId).find row.tId =
      some { tableObj with count := tableObj.count - 1 } := hasTable
  have middleReady : ({ eos with db := middle } : EosDb).db.Ready :=
    isDropped.ready
  have located := indices_apply middleReady .tableId
  by_cases isEmpty : tableObj.count - 1 = 0
  · obtain ⟨db, removed, wrote⟩ := 
      remove_of_row (t := .tableId) middleReady hasTable
    have newTables : db.rows .tableId = (middle.rows .tableId).erase row.tId := by
      rw [wrote.rows, Function.update_self]
      rfl
    have sameRows : ∀ t, t ≠ .tableId → db.rows t = middle.rows t :=
      fun t different => by rw [wrote.rows, Function.update_of_ne different]
    refine ⟨db, ?_, ?_, ?_⟩
    · rw [removeI64Row, bind_apply_of_ok _ dropped, bind_apply_of_ok _ located]
      simp only [table, isEmpty, if_true]
      exact removed
    · refine
        { ready := wrote.ready
          balanced := ?_
          rows := (sameRows .keyValue nofun).trans isDropped.rows
          otherRows := fun t notRow notTable =>
            (sameRows t notTable).trans (isDropped.otherRows t notRow notTable)
          names := ?_ }
      · rw [wrote.rows]
        exact isDropped.balanced.tableRemoved hasTable isEmpty
      · intro tab found isFound
        rw [newTables, MultiIndex.erase_row] at isFound
        split at isFound
        · cases isFound
        · exact isDropped.names tab found isFound
    · intro left isLeft
      rw [newTables, MultiIndex.erase_row, if_pos rfl] at isLeft
      cases isLeft
  · refine ⟨middle, ?_, isDropped, ?_⟩
    · rw [removeI64Row, bind_apply_of_ok _ dropped, bind_apply_of_ok _ located]
      simp only [table, isEmpty, if_false]
      rfl
    · intro left isLeft
      cases hasTable.symm.trans isLeft
      exact isEmpty

/-- What a removal through an iterator leaves behind. -/
structure Removed (eos : EosDb) (used : List Int64) (r : RowTable)
    (position : Nat) (address : Address) (id : (indexOf r.type).Id)
    (final : EosDb) : Prop where
  consistent : final.Consistent used
  dropped : eos.Dropped r id final.db
  place : final.place = eos.place
  caches : final.caches = Function.update eos.caches r
    ((eos.caches r).cleared position address)

theorem Holds.removed {drop : (indexOf r.type).Id → Int64 → EosDbM PUnit}
    {db : Database eosDbTables}
    (holds : eos.Holds r position address id row tableObj)
    (consistent : eos.Consistent used)
    (ran : drop id (r.tId row) eos = .ok ⟨⟩ { eos with db := db })
    (isDropped : eos.Dropped r id db) :
    ∃ final, EosDb.removeThrough ndebug r drop position eos = .ok ⟨⟩ final ∧
      eos.Removed used r position address id final := by
  refine ⟨_, holds.removeThrough consistent ran, ?_, isDropped, rfl, rfl⟩
  refine consistent.rowRemoved isDropped.ready isDropped.balanced holds.held
    holds.found holds.isAddress isDropped.rows ?_ isDropped.otherRows
  intro tab stored
  obtain ⟨found, isFound⟩ := Option.ne_none_iff_exists'.mp stored
  obtain ⟨before, isBefore, _⟩ := isDropped.names tab found isFound
  rw [isBefore]
  exact Option.some_ne_none _

theorem Holds.dbRemoveI64 {id : Int64} {row : KeyValueObject}
    (holds : eos.Holds .keyValue position address id row tableObj)
    (consistent : eos.Consistent used) :
    ∃ final, EosDb.dbRemoveI64 ndebug position eos = .ok ⟨⟩ final ∧
      eos.Removed used .keyValue position address id final := by
  obtain ⟨db, ran, isDropped, _⟩ := holds.removeI64Row_ok consistent
  rw [dbRemoveI64_eq]
  exact holds.removed consistent ran isDropped

/-- The table of the removed row is gone when it has no rows left. -/
theorem Holds.dbRemoveI64_count {id : Int64} {row : KeyValueObject}
    {final : EosDb} {left : TableIdObject}
    (holds : eos.Holds .keyValue position address id row tableObj)
    (consistent : eos.Consistent used)
    (removed : EosDb.dbRemoveI64 ndebug position eos = .ok ⟨⟩ final)
    (isLeft : (final.db.rows .tableId).rows[row.tId]? = some left) :
    left.count ≠ 0 := by
  obtain ⟨db, ran, _, notEmpty⟩ := holds.removeI64Row_ok consistent
  rw [dbRemoveI64_eq, holds.removeThrough consistent ran] at removed
  cases removed
  exact notEmpty left isLeft

theorem Holds.idxRemove {kind : IndexKind} {id : Int64}
    {row : IndexObject (SecondaryKey kind)}
    (holds : eos.Holds (.index kind) position address id row tableObj)
    (consistent : eos.Consistent used) :
    ∃ final, EosDb.idxRemove ndebug kind position eos = .ok ⟨⟩ final ∧
      eos.Removed used (.index kind) position address id final := by
  obtain ⟨db, ran, isDropped, _⟩ := holds.dropRow_ok consistent
  rw [idxRemove_eq]
  exact holds.removed consistent ran isDropped

/-! ## Changing rows -/

/-- What a change of a row leaves behind. -/
structure Rewritten (eos : EosDb) (used : List Int64) (r : RowTable)
    (id : (indexOf r.type).Id) (new : (indexOf r.type).Value)
    (final : EosDb) : Prop where
  consistent : final.Consistent used
  rows : ∀ tested : (indexOf r.type).Id,
    (final.db.rows r.type).rows[tested]? =
      if id = tested then some new else (eos.db.rows r.type).rows[tested]?
  tables : final.db.rows .tableId = eos.db.rows .tableId
  place : final.place = eos.place
  caches : final.caches = eos.caches

theorem Consistent.rowRewritten
    (consistent : eos.Consistent used)
    (modifier : (indexOf r.type).Value → (indexOf r.type).Value)
    (found : (eos.db.rows r.type).rows[id]? = some row)
    (same : (indexOf r.type).Interchangeable row (modifier row))
    (sameTable : r.tId (modifier row) = r.tId row) :
    ∃ final, modify r.type id modifier eos = .ok ⟨⟩ final ∧
      eos.Rewritten used r id (modifier row) final := by
  obtain ⟨db, modified, success, wrote, entries⟩ :=
    modify_of_interchangeable modifier consistent.ready found same
  have newRows : db.rows r.type = modified := by
    rw [wrote.rows, Function.update_self]
  refine ⟨_, success, consistent.changed wrote.ready ?_ ?_ ?_, ?_, ?_, rfl, rfl⟩
  · rw [wrote.rows]
    exact consistent.balanced.rowChanged found sameTable entries
  · intro t tested
    rw [wrote.rows]
    by_cases isRowTable : t = r.type
    · subst isRowTable
      rw [Function.update_self, entries]
      split
      · rename_i isId
        rw [← isId, found]
        simp
      · rfl
    · rw [Function.update_of_ne isRowTable]
  · intro other tested old new isOld isNew
    by_cases same : other = r
    · subst same
      rw [newRows, entries] at isNew
      split at isNew
      · rename_i isId
        cases isNew
        rw [← isId, found] at isOld
        cases isOld
        exact sameTable
      · rw [isOld] at isNew
        cases isNew
        rfl
    · rw [wrote.rows, Function.update_of_ne fun sameType =>
        same (type_injective sameType), isOld] at isNew
      cases isNew
      rfl
  · intro tested
    simp only [newRows]
    exact entries tested
  · simp only [wrote.rows, Function.update_of_ne (type_ne_tableId r).symm]

theorem Holds.dbUpdateI64 {id : Int64} {row : KeyValueObject} {payer : Name}
    {buffer : Bytes}
    (holds : eos.Holds .keyValue position address id row tableObj)
    (consistent : eos.Consistent used) :
    ∃ final, EosDb.dbUpdateI64 ndebug position payer buffer eos =
        .ok ⟨⟩ final ∧
      eos.Rewritten used .keyValue id
        { row with value := buffer, payer := payer } final := by
  have isId : row.id = id := (eos.db.rows .keyValue).keyed holds.found
  obtain ⟨final, changed, rewritten⟩ :=
    consistent.rowRewritten (r := .keyValue)
      (fun o => { o with value := buffer, payer := payer })
      holds.found (interchangeable_keyValue row payer buffer) rfl
  refine ⟨final, ?_, rewritten⟩
  rw [EosDb.dbUpdateI64, bind_apply_of_ok _ (holds.getObject consistent), isId]
  exact changed

theorem Holds.idxUpdate {kind : IndexKind} {id : Int64}
    {row : IndexObject (SecondaryKey kind)} {payer : Name}
    {secondary : SecondaryKey kind}
    (holds : eos.Holds (.index kind) position address id row tableObj)
    (consistent : eos.Consistent used) :
    ∃ final, EosDb.idxUpdate ndebug kind position payer secondary eos =
        .ok ⟨⟩ final ∧
      eos.Rewritten used (.index kind) id
        { row with secondaryKey := secondary, payer := payer } final := by
  have isId : row.id = id := (eos.db.rows (.index kind)).keyed holds.found
  obtain ⟨final, changed, rewritten⟩ :=
    consistent.rowRewritten (r := .index kind)
      (fun o =>
        { o with secondaryKey := secondary, payer := payer })
      holds.found (interchangeable_secondary row payer secondary) rfl
  refine ⟨final, ?_, rewritten⟩
  have located : EosDb.getTable ndebug (.index kind) row.tId eos = _ :=
    holds.getTable consistent
  rw [EosDb.idxUpdate, bind_apply_of_ok _ (holds.getObject consistent),
    bind_apply_of_ok _ located, isId]
  exact changed

theorem Holds.dbGetI64 {id : Int64} {row : KeyValueObject} {bufferSize : Nat}
    (holds : eos.Holds .keyValue position address id row tableObj)
    (consistent : eos.Consistent used) :
    EosDb.dbGetI64 ndebug position bufferSize eos =
      .ok (if bufferSize = 0 then (toInt32 row.value.length, [])
        else (toInt32 (min bufferSize row.value.length : Nat),
          row.value.take (min bufferSize row.value.length))) eos := by
  rw [EosDb.dbGetI64, bind_apply_of_ok _ (holds.getObject consistent)]
  split
  · rfl
  · rfl

end Iterators

/-! ## Finding rows -/

section Find

variable {code : Name} {scope : Sha256} {table : Name} {id : UInt64}

theorem dbFindI64_noTable (ready : eos.db.Ready)
    (absent : eos.tableNamed (code, scope, table) = none) :
    dbFindI64 code scope table id eos = .ok (-1) eos := by
  have lookup : (eos.db.rows .tableId).findBy TableIdObject.codeScopeTable
      (code, scope, table) = none := absent
  rw [dbFindI64, bind_apply_of_ok _ (findTable_apply ready code scope table),
    lookup]
  rfl

end Find

end EosDb

/-! ## Runs with a history -/

/-- An `eos_db`, the ids of all tables that it has had, and what the caller
remembers of the run. -/
structure Traced (γ : Type) where
  eos : EosDb
  tableIds : List Int64
  history : γ

namespace Traced

open EosDb

variable {γ : Type} (after : γ → EosCall → Reply → γ) (sha : Bytes → Sha256)
  (ndebug : Bool)

def moved (traced : Traced γ) (eos : EosDb) (history : γ) : Traced γ :=
  { eos := eos
    tableIds := eos.liveTables ++ traced.tableIds
    history := history }

/-- The caller remembers a call that has returned, and goes on after an
exception. -/
def step (traced : Traced γ) (call : EosCall) : Option (Traced γ) :=
  match call.program sha ndebug traced.eos with
  | .ok reply eos => some (traced.moved eos (after traced.history call reply))
  | .error fault eos =>
      if fault.isException then some (traced.moved eos traced.history)
      else none

variable {after sha ndebug} {traced : Traced γ} {invariant : Traced γ → Prop}
  {call : EosCall}

theorem step_preserves {next : Traced γ}
    (ends : Ends (call.program sha ndebug) traced.eos
      (fun reply eos =>
        invariant (traced.moved eos (after traced.history call reply)))
      (fun fault eos => fault.isException = true →
        invariant (traced.moved eos traced.history)))
    (stepped : traced.step after sha ndebug call = some next) :
    invariant next := by
  unfold step at stepped
  cases ran : call.program sha ndebug traced.eos with
  | ok reply eos =>
      rw [ran] at stepped
      cases stepped
      simpa only [Ends, ran] using ends
  | error fault eos =>
      rw [ran] at stepped
      simp only at stepped
      split at stepped
      · rename_i isException
        cases stepped
        have holds : fault.isException = true →
            invariant (traced.moved eos traced.history) := by
          simpa only [Ends, ran] using ends
        exact holds isException
      · cases stepped

theorem step_survives
    (ends : Ends (call.program sha ndebug) traced.eos
      (fun reply eos =>
        invariant (traced.moved eos (after traced.history call reply)))
      (fun fault eos => fault.isException = true ∧
        invariant (traced.moved eos traced.history))) :
    ∃ next, traced.step after sha ndebug call = some next ∧
      invariant next := by
  unfold step
  cases ran : call.program sha ndebug traced.eos with
  | ok reply eos => exact ⟨_, rfl, by simpa only [Ends, ran] using ends⟩
  | error fault eos =>
      have holds : fault.isException = true ∧
          invariant (traced.moved eos traced.history) := by
        simpa only [Ends, ran] using ends
      simp only [holds.1, if_true]
      exact ⟨_, rfl, holds.2⟩

end Traced

end StateDatabase
