import Mathlib
import StateDatabase.OrderedRows
import StateDatabase.UndoneIterators

/-!
# States in which tables can be walked through

The calls that walk through a table take rows from the index and iterators from
`keyval_cache`.  This module says what the two have to do with each other and
that every call on rows keeps it.  The counts of the tables do not matter, so a
table may be gone although it has rows.
-/

namespace StateDatabase

open Programs GenericIndex

namespace EosDb

/-- The rows and the tables stand apart, and `keyval_cache` leads where it
should; `used` are the ids of all tables that there have been. -/
structure Navigable (eos : EosDb) (used : List Int64) : Prop where
  ready : eos.db.Ready
  rowsApart : eos.Apart .keyValue
  tablesApart : eos.Apart .tableId
  tableIds : ∀ tab : Int64,
    (eos.db.rows .tableId).rows[tab]? ≠ none → tab ∈ used
  rowTables : ∀ (id : Int64) (row : KeyValueObject),
    (eos.db.rows .keyValue).rows[id]? = some row → row.tId ∈ used
  cache : CacheSound eos used .keyValue
  charted : (eos.caches .keyValue).Charted
  /-- a table at the address of a cached one is cached itself, if it has rows -/
  strays : ∀ (tab id : Int64) (row : KeyValueObject),
    (eos.db.rows .tableId).rows[tab]? ≠ none →
      eos.place .tableId tab ∈ (eos.caches .keyValue).endIteratorToTable →
      (eos.db.rows .keyValue).rows[id]? = some row → row.tId = tab →
        ∃ entry, (eos.caches .keyValue).tableCache[tab]? = some entry

/-! ## Cached tables and rows -/

section Caches

variable {eos : EosDb}

/-- The table is in the cache afterwards. -/
theorem withTable_cached (eos : EosDb) (tab : Int64) :
    ∃ tableAddress, ((eos.withTable tab).caches .keyValue).tableCache[tab]? =
      some (tableAddress, ((eos.caches .keyValue).cacheTable tab
        (eos.place .tableId tab)).1) := by
  rw [withTable_cache]
  exact IteratorCache.cacheTable_endIterator _ _ _

@[simp]
theorem withObject_tableCache (id : Int64) :
    ((eos.withObject id).caches .keyValue).tableCache =
      (eos.caches .keyValue).tableCache := by
  rw [withObject_cache, IteratorCache.add_tableCache]

@[simp]
theorem withObject_endIteratorToTable (id : Int64) :
    ((eos.withObject id).caches .keyValue).endIteratorToTable =
      (eos.caches .keyValue).endIteratorToTable := by
  rw [withObject_cache, IteratorCache.add_endIteratorToTable]

end Caches

namespace Navigable

variable {eos final : EosDb} {used : List Int64}

theorem mono {used' : List Int64} (navigable : Navigable eos used)
    (subset : used ⊆ used') : Navigable eos used' where
  ready := navigable.ready
  rowsApart := navigable.rowsApart
  tablesApart := navigable.tablesApart
  tableIds := fun tab stored => subset (navigable.tableIds tab stored)
  rowTables := fun id row found => subset (navigable.rowTables id row found)
  cache :=
    { mirrored := navigable.cache.mirrored
      entries := navigable.cache.entries
      tables := fun tab entry cached =>
        ⟨subset (navigable.cache.tables tab entry cached).1,
          (navigable.cache.tables tab entry cached).2⟩ }
  charted := navigable.charted
  strays := navigable.strays

/-- A vacant block is not in the cache. -/
theorem misses (navigable : Navigable eos used) {address : Address}
    (vacant : eos.Vacant .keyValue address) :
    (eos.caches .keyValue).Misses address := by
  intro position live
  obtain ⟨id, row, found, isAddress, _⟩ :=
    navigable.cache.entries position address live
  have isStored : (eos.db.rows .keyValue).rows[id]? ≠ none := by
    rw [show (eos.db.rows .keyValue).rows[id]? = some row from found]
    exact Option.some_ne_none row
  exact vacant.ne isStored isAddress

/-! ## Changes of the database -/

/-- No table, row or entry is new, and the rows behind the entries stay in
their tables. -/
theorem kept (navigable : Navigable eos used) (final : EosDb)
    (ready : final.db.Ready)
    (mirrored : (final.caches .keyValue).Mirrored)
    (sameTables : (final.caches .keyValue).tableCache =
      (eos.caches .keyValue).tableCache)
    (sameEnds : (final.caches .keyValue).endIteratorToTable =
      (eos.caches .keyValue).endIteratorToTable)
    (tables : ∀ tab : Int64, (final.db.rows .tableId).rows[tab]? ≠ none →
      (eos.db.rows .tableId).rows[tab]? ≠ none ∧
        final.place .tableId tab = eos.place .tableId tab)
    (rows : ∀ (id : Int64) (new : KeyValueObject),
      (final.db.rows .keyValue).rows[id]? = some new →
        final.place .keyValue id = eos.place .keyValue id ∧
        ∃ row, (eos.db.rows .keyValue).rows[id]? = some row ∧
          row.tId = new.tId)
    (entries : ∀ (position : Nat) (address : Address),
      final.keyvalEntries[position]? = some (some address) →
        eos.keyvalEntries[position]? = some (some address) ∧
        ∀ (id : Int64) (row : KeyValueObject),
          (eos.db.rows .keyValue).rows[id]? = some row →
          eos.place .keyValue id = address →
            (final.db.rows .keyValue).rows[id]? ≠ none) :
    Navigable final used where
  ready := ready
  rowsApart := by
    apply navigable.rowsApart.of_subset
    intro id stored
    obtain ⟨new, isNew⟩ := Option.ne_none_iff_exists'.mp stored
    obtain ⟨samePlace, row, found, _⟩ := rows id new isNew
    exact ⟨by rw [found]; exact Option.some_ne_none row, samePlace⟩
  tablesApart := navigable.tablesApart.of_subset tables
  tableIds := fun tab stored => navigable.tableIds tab (tables tab stored).1
  rowTables := by
    intro id new isNew
    obtain ⟨_, row, found, sameTable⟩ := rows id new isNew
    rw [← sameTable]
    exact navigable.rowTables id row found
  cache :=
    { mirrored := mirrored
      entries := by
        intro position address live
        obtain ⟨wasLive, stays⟩ := entries position address live
        obtain ⟨id, row, found, isAddress, cached⟩ :=
          navigable.cache.entries position address wasLive
        obtain ⟨new, isNew⟩ :=
          Option.ne_none_iff_exists'.mp (stays id row found isAddress)
        obtain ⟨samePlace, row', found', sameTable⟩ := rows id new isNew
        rw [found] at found'
        cases found'
        refine ⟨id, new, isNew, samePlace.trans isAddress, ?_⟩
        change ∃ entry,
          (final.caches .keyValue).tableCache[new.tId]? = some entry
        rw [sameTables, ← sameTable]
        exact cached
      tables := by
        intro tab entry cached
        rw [sameTables] at cached
        obtain ⟨isUsed, isPlace⟩ := navigable.cache.tables tab entry cached
        refine ⟨isUsed, fun stored => ?_⟩
        rw [(tables tab stored).2]
        exact isPlace (tables tab stored).1 }
  charted := by
    intro tab entry cached
    rw [sameTables] at cached
    rw [sameEnds]
    exact navigable.charted tab entry cached
  strays := by
    intro tab id new stored isEnd isNew inTable
    obtain ⟨wasStored, samePlace⟩ := tables tab stored
    obtain ⟨_, row, found, sameTable⟩ := rows id new isNew
    rw [sameEnds, samePlace] at isEnd
    rw [sameTables]
    exact navigable.strays tab id row wasStored isEnd found
      (sameTable.trans inTable)

/-- The rows and the cache are as before, and no table is new. -/
theorem unchanged (navigable : Navigable eos used) (final : EosDb)
    (ready : final.db.Ready)
    (cache : final.caches .keyValue = eos.caches .keyValue)
    (rows : final.db.rows .keyValue = eos.db.rows .keyValue)
    (place : final.place .keyValue = eos.place .keyValue)
    (tables : ∀ tab : Int64, (final.db.rows .tableId).rows[tab]? ≠ none →
      (eos.db.rows .tableId).rows[tab]? ≠ none ∧
        final.place .tableId tab = eos.place .tableId tab) :
    Navigable final used := by
  apply navigable.kept final ready _ (by rw [cache]) (by rw [cache]) tables
  · intro id new isNew
    rw [rows] at isNew
    exact ⟨by rw [place], new, isNew, rfl⟩
  · intro position address live
    rw [keyvalEntries, cache] at live
    refine ⟨live, ?_⟩
    intro id row found _
    rw [rows, found]
    exact Option.some_ne_none row
  · rw [cache]
    exact navigable.cache.mirrored

/-- A table under a new id in a vacant block. -/
theorem tableCreated (navigable : Navigable eos used) (final : EosDb)
    {tableObj : TableIdObject} {address : Address}
    {tables : MultiIndex tableIdMultiIndex}
    (success : (eos.db.rows .tableId).emplace tableObj = some tables)
    (isNew : tableObj.id ∉ used) (vacant : eos.Vacant .tableId address)
    (ready : final.db.Ready)
    (isTables : final.db.rows .tableId = tables)
    (rows : final.db.rows .keyValue = eos.db.rows .keyValue)
    (place : final.place =
      placed eos.place .tableId tableObj.id address)
    (caches : final.caches = eos.caches) :
    Navigable final (tableObj.id :: used) := by
  have entries : ∀ tested : Int64, tables.rows[tested]? =
      if tableObj.id = tested then some tableObj
      else (eos.db.rows .tableId).rows[tested]? :=
    (MultiIndex.emplace_some success).2
  have rowPlace : final.place .keyValue = eos.place .keyValue := by
    rw [place, placed_other_type eos.place (by decide)]
  have tablePlace : ∀ tab, tableObj.id ≠ tab →
      final.place .tableId tab = eos.place .tableId tab := by
    intro tab different
    rw [place, placed, Function.update_self,
      Function.update_of_ne (Ne.symm different)]
  have stored : ∀ tab : Int64, (final.db.rows .tableId).rows[tab]? ≠ none →
      tableObj.id = tab ∨ tableObj.id ≠ tab ∧
        (eos.db.rows .tableId).rows[tab]? ≠ none := by
    intro tab isStored
    by_cases same : tableObj.id = tab
    · exact Or.inl same
    · rw [isTables, entries, if_neg same] at isStored
      exact Or.inr ⟨same, isStored⟩
  exact
    { ready := ready
      rowsApart := by
        apply navigable.rowsApart.of_subset
        intro id isStored
        rw [rows] at isStored
        exact ⟨isStored, by rw [rowPlace]⟩
      tablesApart := by
        have isFinal : final =
            { eos with
              db := final.db
              place := placed eos.place .tableId tableObj.id address } := by
          rw [← place, ← caches]
        rw [isFinal]
        exact navigable.tablesApart.placed vacant success isTables
      tableIds := by
        intro tab isStored
        rcases stored tab isStored with rfl | ⟨_, wasStored⟩
        · exact List.mem_cons_self
        · exact List.mem_cons_of_mem _ (navigable.tableIds tab wasStored)
      rowTables := by
        intro id row found
        rw [rows] at found
        exact List.mem_cons_of_mem _ (navigable.rowTables id row found)
      cache :=
        { mirrored := by
            rw [caches]
            exact navigable.cache.mirrored
          entries := by
            intro position held live
            rw [caches] at live ⊢
            rw [rows, rowPlace]
            exact navigable.cache.entries position held live
          tables := by
            intro tab entry cached
            rw [caches] at cached
            obtain ⟨isUsed, isPlace⟩ := navigable.cache.tables tab entry cached
            refine ⟨List.mem_cons_of_mem _ isUsed, fun isStored => ?_⟩
            rcases stored tab isStored with rfl | ⟨different, wasStored⟩
            · exact absurd isUsed isNew
            · rw [tablePlace tab different]
              exact isPlace wasStored }
      charted := by
        rw [caches]
        exact navigable.charted
      strays := by
        intro tab id row isStored isEnd found inTable
        rw [rows] at found
        rw [caches] at isEnd ⊢
        rcases stored tab isStored with rfl | ⟨different, wasStored⟩
        · have isUsed := navigable.rowTables id row found
          rw [inTable] at isUsed
          exact absurd isUsed isNew
        · rw [tablePlace tab different] at isEnd
          exact navigable.strays tab id row wasStored isEnd found inTable }

/-- A row of a cached table in a vacant block; it is not in the cache yet. -/
theorem rowStored (navigable : Navigable eos used) (final : EosDb)
    {obj : KeyValueObject} {inserted : MultiIndex keyValueIndex}
    {address : Address} {entry : Address × Int}
    (vacant : eos.Vacant .keyValue address)
    (success : (eos.db.rows .keyValue).emplace obj = some inserted)
    (cached : (eos.caches .keyValue).tableCache[obj.tId]? = some entry)
    (ready : final.db.Ready)
    (rows : final.db.rows .keyValue = inserted)
    (place : final.place .keyValue =
      Function.update (eos.place .keyValue) obj.id address)
    (tables : ∀ tab : Int64, (final.db.rows .tableId).rows[tab]? ≠ none →
      (eos.db.rows .tableId).rows[tab]? ≠ none ∧
        final.place .tableId tab = eos.place .tableId tab)
    (caches : final.caches .keyValue = eos.caches .keyValue) :
    Navigable final used := by
  obtain ⟨absent, entries⟩ := MultiIndex.emplace_some success
  have stays : ∀ (id : Int64) (row : KeyValueObject),
      (eos.db.rows .keyValue).rows[id]? = some row →
        (final.db.rows .keyValue).rows[id]? = some row ∧
        final.place .keyValue id = eos.place .keyValue id := by
    intro id row found
    have different : obj.id ≠ id := by
      intro same
      rw [← same] at found
      rw [found] at absent
      cases absent
    rw [rows, entries, place, Function.update_of_ne (Ne.symm different)]
    exact ⟨(if_neg different).trans found, rfl⟩
  have stored : ∀ (id : Int64) (row : KeyValueObject),
      (final.db.rows .keyValue).rows[id]? = some row →
        obj.id = id ∧ row = obj ∨ obj.id ≠ id ∧
          (eos.db.rows .keyValue).rows[id]? = some row := by
    intro id row found
    rw [rows, entries] at found
    by_cases same : obj.id = id
    · rw [if_pos same] at found
      exact Or.inl ⟨same, (Option.some.inj found).symm⟩
    · rw [if_neg same] at found
      exact Or.inr ⟨same, found⟩
  exact
    { ready := ready
      rowsApart := by
        intro left right isLeft isRight same
        obtain ⟨leftRow, leftFound⟩ := Option.ne_none_iff_exists'.mp isLeft
        obtain ⟨rightRow, rightFound⟩ := Option.ne_none_iff_exists'.mp isRight
        rw [place] at same
        rcases stored left leftRow leftFound with
          ⟨rfl, _⟩ | ⟨leftOld, wasLeft⟩
        · rcases stored right rightRow rightFound with
            ⟨rfl, _⟩ | ⟨rightOld, wasRight⟩
          · rfl
          · rw [Function.update_self,
              Function.update_of_ne (Ne.symm rightOld)] at same
            exact absurd same.symm
              (vacant.ne (by rw [wasRight]; exact Option.some_ne_none _))
        · rcases stored right rightRow rightFound with
            ⟨rfl, _⟩ | ⟨rightOld, wasRight⟩
          · rw [Function.update_self,
              Function.update_of_ne (Ne.symm leftOld)] at same
            exact absurd same
              (vacant.ne (by rw [wasLeft]; exact Option.some_ne_none _))
          · rw [Function.update_of_ne (Ne.symm leftOld),
              Function.update_of_ne (Ne.symm rightOld)] at same
            exact navigable.rowsApart left right
              (by rw [wasLeft]; exact Option.some_ne_none _)
              (by rw [wasRight]; exact Option.some_ne_none _) same
      tablesApart := navigable.tablesApart.of_subset tables
      tableIds := fun tab isStored =>
        navigable.tableIds tab (tables tab isStored).1
      rowTables := by
        intro id row found
        rcases stored id row found with ⟨_, rfl⟩ | ⟨_, wasFound⟩
        · exact (navigable.cache.tables row.tId entry cached).1
        · exact navigable.rowTables id row wasFound
      cache :=
        { mirrored := by
            rw [caches]
            exact navigable.cache.mirrored
          entries := by
            intro position held live
            rw [caches] at live ⊢
            obtain ⟨id, row, found, isAddress, isCached⟩ :=
              navigable.cache.entries position held live
            obtain ⟨isFound, samePlace⟩ := stays id row found
            exact ⟨id, row, isFound, samePlace.trans isAddress, isCached⟩
          tables := by
            intro tab entry isCached
            rw [caches] at isCached
            obtain ⟨isUsed, isPlace⟩ :=
              navigable.cache.tables tab entry isCached
            refine ⟨isUsed, fun isStored => ?_⟩
            rw [(tables tab isStored).2]
            exact isPlace (tables tab isStored).1 }
      charted := by
        rw [caches]
        exact navigable.charted
      strays := by
        intro tab id row isStored isEnd found inTable
        obtain ⟨wasStored, samePlace⟩ := tables tab isStored
        rw [caches, samePlace] at isEnd
        rw [caches]
        rcases stored id row found with ⟨_, rfl⟩ | ⟨_, wasFound⟩
        · exact ⟨entry, inTable ▸ cached⟩
        · exact navigable.strays tab id row wasStored isEnd wasFound inTable }

/-! ## Changes of the cache -/

/-- A table that is stored is cached. -/
theorem tableCached (navigable : Navigable eos used) {tab : Int64}
    (stored : (eos.db.rows .tableId).rows[tab]? ≠ none) :
    Navigable (eos.withTable tab) used where
  ready := navigable.ready
  rowsApart := navigable.rowsApart
  tablesApart := navigable.tablesApart
  tableIds := navigable.tableIds
  rowTables := navigable.rowTables
  cache := navigable.cache.tableCached (navigable.tableIds tab stored)
  charted := by
    rw [withTable_cache]
    exact navigable.charted.cacheTable _ _
  strays := by
    intro tested id row isStored isEnd found inTable
    rw [withTable_cache] at isEnd ⊢
    have cached := IteratorCache.cacheTable_cached (eos.caches .keyValue) tab
      (eos.place .tableId tab)
    by_cases same : tested = tab
    · rw [same]
      exact cached
    · rw [IteratorCache.cacheTable_tableCache,
        if_neg fun isNew => same isNew.1.symm]
      apply navigable.strays tested id row isStored _ found inTable
      rw [IteratorCache.cacheTable_endIteratorToTable] at isEnd
      split at isEnd
      · rcases List.mem_append.mp isEnd with wasEnd | isLast
        · exact wasEnd
        · exact absurd (navigable.tablesApart tested tab isStored stored
            (List.mem_singleton.mp isLast)) same
      · exact isEnd

/-- A row of a cached table gets an iterator. -/
theorem rowAdded (navigable : Navigable eos used) {id : Int64}
    {row : KeyValueObject} {entry : Address × Int}
    (found : (eos.db.rows .keyValue).rows[id]? = some row)
    (cached : (eos.caches .keyValue).tableCache[row.tId]? = some entry) :
    Navigable (eos.withObject id) used where
  ready := navigable.ready
  rowsApart := navigable.rowsApart
  tablesApart := navigable.tablesApart
  tableIds := navigable.tableIds
  rowTables := navigable.rowTables
  cache := navigable.cache.rowAdded (r := .keyValue) found cached
  charted := by
    intro tested entry isCached
    rw [withObject_tableCache] at isCached
    rw [withObject_endIteratorToTable]
    exact navigable.charted tested entry isCached
  strays := by
    intro tested otherId other isStored isEnd isOther inTable
    rw [withObject_endIteratorToTable] at isEnd
    rw [withObject_tableCache]
    exact navigable.strays tested otherId other isStored isEnd isOther inTable

/-- A table is cached, and a row of it gets an iterator. -/
theorem rowOfTableAdded (navigable : Navigable eos used) {tab id : Int64}
    {row : KeyValueObject}
    (stored : (eos.db.rows .tableId).rows[tab]? ≠ none)
    (found : (eos.db.rows .keyValue).rows[id]? = some row)
    (inTable : row.tId = tab) :
    Navigable ((eos.withTable tab).withObject id) used := by
  subst inTable
  obtain ⟨tableAddress, cached⟩ := eos.withTable_cached row.tId
  exact (navigable.tableCached stored).rowAdded found cached

/-- A row is stored, its table is cached, and the row gets an iterator.  It
makes no difference whether the table is cached before the row is stored. -/
theorem rowStoredAndCached (navigable : Navigable eos used) (stored : EosDb)
    {obj : KeyValueObject} {inserted : MultiIndex keyValueIndex}
    {address : Address}
    (hasTable : (eos.db.rows .tableId).rows[obj.tId]? ≠ none)
    (vacant : eos.Vacant .keyValue address)
    (success : (eos.db.rows .keyValue).emplace obj = some inserted)
    (ready : stored.db.Ready)
    (rows : stored.db.rows .keyValue = inserted)
    (place : stored.place = placed eos.place .keyValue obj.id address)
    (tables : ∀ tab : Int64, (stored.db.rows .tableId).rows[tab]? ≠ none →
      (eos.db.rows .tableId).rows[tab]? ≠ none)
    (caches : stored.caches = eos.caches) :
    Navigable ((stored.withTable obj.tId).withObject obj.id) used := by
  have isCached := navigable.tableCached hasTable
  obtain ⟨tableAddress, cached⟩ := eos.withTable_cached obj.tId
  have tablePlace : stored.place .tableId = eos.place .tableId := by
    rw [place, placed_other_type eos.place (by decide)]
  have sameCache : (stored.withTable obj.tId).caches .keyValue =
      (eos.withTable obj.tId).caches .keyValue := by
    rw [withTable_cache, withTable_cache, caches, tablePlace]
  have rowPlace : (stored.withTable obj.tId).place .keyValue =
      Function.update ((eos.withTable obj.tId).place .keyValue) obj.id
        address := by
    change stored.place .keyValue = _
    rw [place, placed, Function.update_self]
    rfl
  have withRow := isCached.rowStored (stored.withTable obj.tId) vacant success
    cached ready rows rowPlace
    (fun tab isStored => ⟨tables tab isStored, congrFun tablePlace tab⟩)
    sameCache
  have found : (stored.db.rows .keyValue).rows[obj.id]? = some obj := by
    rw [rows, (MultiIndex.emplace_some success).2]
    exact if_pos rfl
  apply withRow.rowAdded found
  rw [sameCache]
  exact cached

end Navigable

end EosDb

end StateDatabase
