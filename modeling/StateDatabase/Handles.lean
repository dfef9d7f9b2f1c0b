import Mathlib
import StateDatabase.TableCounts

/-!
# Iterators and the rows behind them

An `eos_db` is consistent when its counts are right and its caches lead where
they should: an iterator that was not removed to a row that is stored, and the
id of a table that is stored to that table.  A cache may still hold the address
of a table that is gone; its id is one of those that were in use, so it does no
harm as long as ids are not used again.
-/

namespace StateDatabase

open Maps

namespace EosDb

/-- What the cache of a row table holds. -/
structure CacheSound (eos : EosDb) (used : List Int64) (r : RowTable) :
    Prop where
  mirrored : (eos.caches r).Mirrored
  entries : ∀ (position : Nat) (address : Address),
    (eos.caches r).iteratorToObject[position]? = some (some address) →
      ∃ (id : (indexOf r.type).Id) (row : (indexOf r.type).Value),
        (eos.db.rows r.type).rows[id]? = some row ∧
        eos.place r.type id = address ∧
        ∃ entry, (eos.caches r).tableCache[r.tId row]? = some entry
  tables : ∀ (tab : Int64) (entry : Address × Int),
    (eos.caches r).tableCache[tab]? = some entry →
      tab ∈ used ∧
        ((eos.db.rows .tableId).rows[tab]? ≠ none →
          eos.place .tableId tab = entry.1)

/-- The counts are right and the caches lead where they should; `used` are the
ids of all tables that there have been. -/
structure Consistent (eos : EosDb) (used : List Int64) : Prop where
  ready : eos.db.Ready
  balanced : Balanced eos.db.rows
  apart : ∀ t, eos.Apart t
  tableIds : ∀ tab : Int64,
    (eos.db.rows .tableId).rows[tab]? ≠ none → tab ∈ used
  caches : ∀ r, CacheSound eos used r

theorem Vacant.ne {eos : EosDb} {t : TableType} {address : Address}
    (vacant : eos.Vacant t address) {id : (indexOf t).Id}
    (stored : (eos.db.rows t).rows[id]? ≠ none) :
    eos.place t id ≠ address := by
  obtain ⟨value, found⟩ := Option.ne_none_iff_exists'.mp stored
  exact vacant (id, value) ((mem_map_toList _ _ _).mpr found)

variable {eos : EosDb} {used : List Int64} {r : RowTable} {db : Database eosDbTables}

/-- An object in a vacant block stands apart from the others. -/
theorem Apart.placed {t : TableType} {value : (indexOf t).Value}
    {contents : MultiIndex (indexOf t)} {address : Address}
    (apart : eos.Apart t) (vacant : eos.Vacant t address)
    (success : (eos.db.rows t).emplace value = some contents)
    (isRows : db.rows t = contents) :
    Apart { eos with
      db := db
      place := placed eos.place t ((indexOf t).id value) address } t := by
  obtain ⟨_, entries⟩ := MultiIndex.emplace_some success
  intro left right isLeft isRight same
  simp only [isRows] at isLeft isRight same
  by_cases leftNew : left = (indexOf t).id value
  · by_cases rightNew : right = (indexOf t).id value
    · rw [leftNew, rightNew]
    · rw [entries, if_neg (Ne.symm rightNew)] at isRight
      rw [leftNew, placed_self, placed_other_id _ rightNew] at same
      exact absurd same.symm (vacant.ne isRight)
  · rw [entries, if_neg (Ne.symm leftNew)] at isLeft
    by_cases rightNew : right = (indexOf t).id value
    · rw [rightNew, placed_self, placed_other_id _ leftNew] at same
      exact absurd same (vacant.ne isLeft)
    · rw [entries, if_neg (Ne.symm rightNew)] at isRight
      rw [placed_other_id _ leftNew, placed_other_id _ rightNew] at same
      exact apart left right isLeft isRight same

/-- Fewer objects stand apart as well. -/
theorem Apart.of_subset {after : EosDb} {t : TableType} (apart : eos.Apart t)
    (sameAddress : ∀ id : (indexOf t).Id,
      (after.db.rows t).rows[id]? ≠ none →
        (eos.db.rows t).rows[id]? ≠ none ∧ after.place t id = eos.place t id) :
    after.Apart t := by
  intro left right isLeft isRight same
  obtain ⟨leftBefore, leftAddress⟩ := sameAddress left isLeft
  obtain ⟨rightBefore, rightAddress⟩ := sameAddress right isRight
  rw [leftAddress, rightAddress] at same
  exact apart left right leftBefore rightBefore same

/-- A new `eos_db` has empty caches. -/
theorem consistent_ofDatabase
    {place : (t : TableType) → (indexOf t).Id → Address} (ready : db.Ready)
    (balanced : Balanced db.rows) (apart : ∀ t, (ofDatabase db place).Apart t)
    (tableIds : ∀ tab : Int64,
      (db.rows .tableId).rows[tab]? ≠ none → tab ∈ used) :
    (ofDatabase db place).Consistent used where
  ready := ready
  balanced := balanced
  apart := apart
  tableIds := tableIds
  caches := by
    intro r
    constructor
    · exact IteratorCache.mirrored_empty
    · intro position address held
      cases held
    · intro tab entry cached
      cases Std.ExtTreeMap.getElem?_empty.symm.trans cached

namespace CacheSound

theorem mono {used' : List Int64} (subset : used ⊆ used')
    (sound : CacheSound eos used r) : CacheSound eos used' r where
  mirrored := sound.mirrored
  entries := sound.entries
  tables := by
    intro tab entry cached
    obtain ⟨isUsed, isPlace⟩ := sound.tables tab entry cached
    exact ⟨subset isUsed, isPlace⟩

/-- Every entry is an old one whose row stays in its place and in its table, and
no table that the cache may know is new or moves. -/
theorem kept {final : EosDb} (sound : CacheSound eos used r)
    (mirrored : (final.caches r).Mirrored)
    (sameTables : (final.caches r).tableCache = (eos.caches r).tableCache)
    (tables : ∀ tab ∈ used, (final.db.rows .tableId).rows[tab]? ≠ none →
      (eos.db.rows .tableId).rows[tab]? ≠ none ∧
        final.place .tableId tab = eos.place .tableId tab)
    (entries : ∀ (position : Nat) (address : Address),
      (final.caches r).iteratorToObject[position]? = some (some address) →
        (eos.caches r).iteratorToObject[position]? = some (some address) ∧
        ∀ (id : (indexOf r.type).Id) (row : (indexOf r.type).Value),
          (eos.db.rows r.type).rows[id]? = some row →
          eos.place r.type id = address →
            final.place r.type id = address ∧
            ∃ new, (final.db.rows r.type).rows[id]? = some new ∧
              r.tId new = r.tId row) :
    CacheSound final used r where
  mirrored := mirrored
  entries := by
    intro position address held
    obtain ⟨wasHeld, stays⟩ := entries position address held
    obtain ⟨id, row, found, isAddress, cached⟩ :=
      sound.entries position address wasHeld
    obtain ⟨stillAddress, new, isNew, sameTable⟩ := stays id row found isAddress
    refine ⟨id, new, isNew, stillAddress, ?_⟩
    rw [sameTables, sameTable]
    exact cached
  tables := by
    intro tab entry cached
    rw [sameTables] at cached
    obtain ⟨isUsed, isPlace⟩ := sound.tables tab entry cached
    refine ⟨isUsed, fun stored => ?_⟩
    obtain ⟨wasStored, samePlace⟩ := tables tab isUsed stored
    rw [samePlace]
    exact isPlace wasStored

/-- A table that there is or has been is cached. -/
theorem tableCached {tab : Int64} (sound : CacheSound eos used r)
    (isUsed : tab ∈ used) :
    CacheSound { eos with
      caches := Function.update eos.caches r
        ((eos.caches r).cacheTable tab (eos.place .tableId tab)).2 }
      used r := by
  constructor
  · simp only [Function.update_self]
    exact sound.mirrored.cacheTable _ _
  · intro position address held
    simp only [Function.update_self,
      IteratorCache.cacheTable_iteratorToObject] at held ⊢
    obtain ⟨id, row, found, isAddress, entry, cached⟩ :=
      sound.entries position address held
    exact ⟨id, row, found, isAddress, entry,
      IteratorCache.cacheTable_entries _ _ _ cached⟩
  · intro tested entry held
    simp only [Function.update_self] at held
    rw [IteratorCache.cacheTable_tableCache] at held
    split at held
    · rename_i isNew
      cases held
      rw [← isNew.1]
      exact ⟨isUsed, fun _ => rfl⟩
    · exact sound.tables tested entry held

/-- A row of a cached table gets an iterator. -/
theorem rowAdded {id : (indexOf r.type).Id} {row : (indexOf r.type).Value}
    {entry : Address × Int} (sound : CacheSound eos used r)
    (found : (eos.db.rows r.type).rows[id]? = some row)
    (cached : (eos.caches r).tableCache[r.tId row]? = some entry) :
    CacheSound { eos with
      caches := Function.update eos.caches r
        ((eos.caches r).add (eos.place r.type id)).2 }
      used r := by
  have added := sound.mirrored.add_cases (eos.place r.type id)
  constructor
  · simp only [Function.update_self]
    exact added.1
  · intro position address held
    simp only [Function.update_self, IteratorCache.add_tableCache] at held ⊢
    rcases added.2 position address held with wasHeld | rfl
    · exact sound.entries position address wasHeld
    · exact ⟨id, row, found, rfl, entry, cached⟩
  · simp only [Function.update_self, IteratorCache.add_tableCache]
    exact sound.tables

end CacheSound

namespace Consistent

theorem mono {used' : List Int64} (consistent : eos.Consistent used)
    (subset : used ⊆ used') : eos.Consistent used' where
  ready := consistent.ready
  balanced := consistent.balanced
  apart := consistent.apart
  tableIds := fun tab stored => subset (consistent.tableIds tab stored)
  caches := fun r => (consistent.caches r).mono subset

/-! ## Tables -/

/-- A new table under a new id. -/
theorem tableCreated {tableObj : TableIdObject} {address : Address}
    {tables : MultiIndex tableIdMultiIndex}
    (consistent : eos.Consistent used)
    (success : (eos.db.rows .tableId).emplace tableObj = some tables)
    (noRows : tableObj.count = 0) (isNew : tableObj.id ∉ used)
    (vacant : eos.Vacant .tableId address)
    (wrote : Database.Wrote .tableId tables eos.db db) :
    Consistent { eos with
      db := db
      place := placed eos.place .tableId tableObj.id address }
      (tableObj.id :: used) := by
  obtain ⟨_, entries⟩ := MultiIndex.emplace_some success
  have sameRows : ∀ r : RowTable, db.rows r.type = eos.db.rows r.type := by
    intro r
    rw [wrote.rows, Function.update_of_ne (type_ne_tableId r)]
  have newTables : db.rows .tableId = tables := by
    rw [wrote.rows, Function.update_self]
  refine
    { ready := wrote.ready
      balanced := ?_
      apart := ?_
      tableIds := ?_
      caches := ?_ }
  · simp only [wrote.rows]
    exact consistent.balanced.tableCreated success noRows
  · intro t
    by_cases same : t = .tableId
    · subst same
      exact (consistent.apart .tableId).placed vacant success newTables
    · refine (consistent.apart t).of_subset fun id stored => ?_
      simp only [wrote.rows, Function.update_of_ne same] at stored
      exact ⟨stored, congrFun (placed_other_type _ same _ _) id⟩
  · intro tab stored
    simp only [newTables] at stored
    rw [entries] at stored
    by_cases same : tableObj.id = tab
    · exact List.mem_cons.mpr (Or.inl same.symm)
    · rw [if_neg same] at stored
      exact List.mem_cons_of_mem _ (consistent.tableIds tab stored)
  · intro r
    apply CacheSound.mono (List.subset_cons_self _ _)
    apply (consistent.caches r).kept
    · exact (consistent.caches r).mirrored
    · rfl
    · intro tab isUsed stored
      have different : tab ≠ tableObj.id := fun same => isNew (same ▸ isUsed)
      simp only [newTables] at stored
      rw [entries, if_neg (Ne.symm different)] at stored
      exact ⟨stored,
        placed_other_id eos.place (t := .tableId) different address⟩
    · intro position held isHeld
      refine ⟨isHeld, ?_⟩
      intro id row found isAddress
      refine ⟨?_, row, by rw [sameRows]; exact found, rfl⟩
      exact (congrFun (placed_other_type _ (type_ne_tableId r) _ _) id).trans
        isAddress

/-! ## Changes in place -/

/-- The same objects with other values, in the same tables. -/
theorem changed (consistent : eos.Consistent used) (ready : db.Ready)
    (balanced : Balanced db.rows)
    (sameIds : ∀ (t : TableType) (id : (indexOf t).Id),
      (db.rows t).rows[id]? = none ↔ (eos.db.rows t).rows[id]? = none)
    (sameTables : ∀ (r : RowTable) (id : (indexOf r.type).Id)
      (row new : (indexOf r.type).Value),
      (eos.db.rows r.type).rows[id]? = some row →
        (db.rows r.type).rows[id]? = some new → r.tId new = r.tId row) :
    Consistent { eos with db := db } used where
  ready := ready
  balanced := balanced
  apart := fun t => (consistent.apart t).of_subset fun id stored =>
    ⟨mt (sameIds t id).mpr stored, rfl⟩
  tableIds := fun tab stored =>
    consistent.tableIds tab (mt (sameIds .tableId tab).mpr stored)
  caches := by
    intro r
    apply (consistent.caches r).kept
    · exact (consistent.caches r).mirrored
    · rfl
    · intro tab _ stored
      exact ⟨mt (sameIds .tableId tab).mpr stored, rfl⟩
    · intro position address held
      refine ⟨held, ?_⟩
      intro id row found isAddress
      have stored : (db.rows r.type).rows[id]? ≠ none :=
        mt (sameIds r.type id).mp (by rw [found]; exact Option.some_ne_none _)
      obtain ⟨new, isNew⟩ := Option.ne_none_iff_exists'.mp stored
      exact ⟨isAddress, new, isNew, sameTables r id row new found isNew⟩

/-! ## Rows -/

/-- A new row in a table that is stored; no cache knows it yet. -/
theorem rowStored {row : (indexOf r.type).Value} {tableObj : TableIdObject}
    {rows : MultiIndex (indexOf r.type)}
    {tables : MultiIndex tableIdMultiIndex} {address : Address}
    (consistent : eos.Consistent used) (ready : db.Ready)
    (hasTable : (eos.db.rows .tableId).rows[r.tId row]? = some tableObj)
    (success : (eos.db.rows r.type).emplace row = some rows)
    (few : rowsOf eos.db.rows (r.tId row) + 1 < 2 ^ 32)
    (vacant : eos.Vacant r.type address)
    (isRows : db.rows = Function.update
      (Function.update eos.db.rows r.type rows) .tableId tables)
    (entries : ∀ tested : Int64, tables.rows[tested]? =
      if r.tId row = tested then
        some { tableObj with count := tableObj.count + 1 }
      else (eos.db.rows .tableId).rows[tested]?) :
    Consistent { eos with
      db := db
      place := placed eos.place r.type ((indexOf r.type).id row) address }
      used := by
  obtain ⟨absent, rowEntries⟩ := MultiIndex.emplace_some success
  have newTables : db.rows .tableId = tables := by
    rw [isRows, Function.update_self]
  have newRows : db.rows r.type = rows := by
    rw [isRows, Function.update_of_ne (type_ne_tableId r),
      Function.update_self]
  have sameTables : ∀ tab : Int64, (db.rows .tableId).rows[tab]? ≠ none →
      (eos.db.rows .tableId).rows[tab]? ≠ none := by
    intro tab stored
    rw [newTables, entries] at stored
    split at stored
    · rename_i same
      rw [← same, hasTable]
      exact Option.some_ne_none _
    · exact stored
  have tableAddress : ∀ tab : Int64,
      placed eos.place r.type ((indexOf r.type).id row) address .tableId tab =
        eos.place .tableId tab :=
    congrFun (placed_other_type _ (type_ne_tableId r).symm _ _)
  refine
    { ready := ready
      balanced := ?_
      apart := ?_
      tableIds := fun tab stored =>
        consistent.tableIds tab (sameTables tab stored)
      caches := ?_ }
  · simp only [isRows]
    exact consistent.balanced.rowStored hasTable success few entries
  · intro t
    by_cases isRowTable : t = r.type
    · subst isRowTable
      exact (consistent.apart r.type).placed vacant success newRows
    · refine (consistent.apart t).of_subset fun id stored => ?_
      refine ⟨?_, congrFun (placed_other_type _ isRowTable _ _) id⟩
      by_cases isTable : t = .tableId
      · subst isTable
        exact sameTables id stored
      · simpa only [isRows, Function.update_of_ne isTable,
          Function.update_of_ne isRowTable] using stored
  · intro other
    apply (consistent.caches other).kept
    · exact (consistent.caches other).mirrored
    · rfl
    · intro tab _ stored
      exact ⟨sameTables tab stored, tableAddress tab⟩
    · intro position held isHeld
      refine ⟨isHeld, ?_⟩
      intro id otherRow found isAddress
      by_cases same : other = r
      · subst same
        have different : id ≠ (indexOf other.type).id row := by
          rintro rfl
          rw [absent] at found
          cases found
        refine ⟨(placed_other_id _ different address).trans isAddress,
          otherRow, ?_, rfl⟩
        simp only [newRows]
        rw [rowEntries, if_neg (Ne.symm different)]
        exact found
      · have otherType : other.type ≠ r.type :=
          fun sameType => same (type_injective sameType)
        have kept := placed_other_type eos.place otherType
          ((indexOf r.type).id row) address
        refine ⟨(congrFun kept id).trans isAddress, otherRow, ?_, rfl⟩
        simp only [isRows]
        rw [Function.update_of_ne (type_ne_tableId other),
          Function.update_of_ne otherType]
        exact found

/-- A row goes, with its iterator and perhaps its table. -/
theorem rowRemoved {row : (indexOf r.type).Value} {id : (indexOf r.type).Id}
    {position : Nat} {address : Address}
    (consistent : eos.Consistent used) (ready : db.Ready)
    (balanced : Balanced db.rows)
    (held : (eos.caches r).iteratorToObject[position]? = some (some address))
    (found : (eos.db.rows r.type).rows[id]? = some row)
    (isAddress : eos.place r.type id = address)
    (erased : db.rows r.type = (eos.db.rows r.type).erase id)
    (fewerTables : ∀ tab : Int64, (db.rows .tableId).rows[tab]? ≠ none →
      (eos.db.rows .tableId).rows[tab]? ≠ none)
    (sameRows : ∀ t, t ≠ r.type → t ≠ .tableId → db.rows t = eos.db.rows t) :
    Consistent { eos with
      db := db
      caches := Function.update eos.caches r
        ((eos.caches r).cleared position address) }
      used where
  ready := ready
  balanced := balanced
  apart := by
    intro t
    refine (consistent.apart t).of_subset fun tested stored => ⟨?_, rfl⟩
    by_cases isRowTable : t = r.type
    · subst isRowTable
      simp only [erased] at stored
      rw [MultiIndex.erase_row] at stored
      split at stored
      · exact absurd rfl stored
      · exact stored
    · by_cases isTable : t = .tableId
      · subst isTable
        exact fewerTables tested stored
      · simpa only [sameRows t isRowTable isTable] using stored
  tableIds := fun tab stored => consistent.tableIds tab (fewerTables tab stored)
  caches := by
    intro other
    have sound := consistent.caches other
    by_cases same : other = r
    · subst same
      apply sound.kept
      · simp only [Function.update_self]
        exact sound.mirrored.clear held
      · simp only [Function.update_self, IteratorCache.cleared]
      · exact fun tab _ stored => ⟨fewerTables tab stored, rfl⟩
      · intro tested heldAddress isHeld
        simp only [Function.update_self] at isHeld
        obtain ⟨different, before⟩ := IteratorCache.cleared_entry.mp isHeld
        refine ⟨before, ?_⟩
        intro otherId otherRow isRow otherAddress
        -- another position holds another address, so another row
        have otherThan : id ≠ otherId := by
          rintro rfl
          rw [isAddress] at otherAddress
          subst otherAddress
          exact different (sound.mirrored.unique held before)
        refine ⟨otherAddress, otherRow, ?_, rfl⟩
        simp only [erased]
        rw [MultiIndex.erase_row, if_neg otherThan]
        exact isRow
    · have otherType : other.type ≠ r.type :=
        fun sameType => same (type_injective sameType)
      apply sound.kept
      · simp only [Function.update_of_ne same]
        exact sound.mirrored
      · simp only [Function.update_of_ne same]
      · exact fun tab _ stored => ⟨fewerTables tab stored, rfl⟩
      · intro tested heldAddress isHeld
        simp only [Function.update_of_ne same] at isHeld
        refine ⟨isHeld, ?_⟩
        intro otherId otherRow isRow otherAddress
        refine ⟨otherAddress, otherRow, ?_, rfl⟩
        rw [sameRows other.type otherType (type_ne_tableId other)]
        exact isRow

/-! ## Caches -/

theorem withCache {cache : IteratorCache} (consistent : eos.Consistent used)
    (sound : CacheSound
      { eos with caches := Function.update eos.caches r cache } used r) :
    Consistent { eos with caches := Function.update eos.caches r cache }
      used where
  ready := consistent.ready
  balanced := consistent.balanced
  apart := consistent.apart
  tableIds := consistent.tableIds
  caches := by
    intro other
    by_cases same : other = r
    · subst same
      exact sound
    · have before := consistent.caches other
      constructor
      · simp only [Function.update_of_ne same]
        exact before.mirrored
      · simp only [Function.update_of_ne same]
        exact before.entries
      · simp only [Function.update_of_ne same]
        exact before.tables

/-- A table that is stored is cached. -/
theorem tableCached {tab : Int64} (consistent : eos.Consistent used)
    (stored : (eos.db.rows .tableId).rows[tab]? ≠ none) :
    Consistent { eos with
      caches := Function.update eos.caches r
        ((eos.caches r).cacheTable tab (eos.place .tableId tab)).2 }
      used := by
  apply consistent.withCache
  exact (consistent.caches r).tableCached (consistent.tableIds tab stored)

/-- A row that is stored gets an iterator. -/
theorem rowAdded {id : (indexOf r.type).Id} {row : (indexOf r.type).Value}
    {entry : Address × Int} (consistent : eos.Consistent used)
    (found : (eos.db.rows r.type).rows[id]? = some row)
    (cached : (eos.caches r).tableCache[r.tId row]? = some entry) :
    Consistent { eos with
      caches := Function.update eos.caches r
        ((eos.caches r).add (eos.place r.type id)).2 }
      used := by
  apply consistent.withCache
  exact (consistent.caches r).rowAdded found cached

end Consistent

end EosDb

end StateDatabase
