import Mathlib
import StateDatabase.PrimaryMap
import StateDatabase.StoreView

/-!
# Calls as changes of the maps

What each call of `eos_db` does to the maps that its rows stand for, to the
iterators of the caller, and to the caches.  An iterator shows a key as long as
its row is stored, wherever the row was moved by calls on other rows.
-/

namespace StateDatabase

open Programs GenericIndex

namespace EosDb

variable {eos final : EosDb} {used : List Int64} {r : RowTable}
  {name : TableName} {key : StoreKey} {iterator : Int}

/-- The maps of the rows. -/
def store (eos : EosDb) : ContractStore :=
  storeOf eos.db.rows

/-- The iterator leads to a row with this key. -/
inductive Shows (eos : EosDb) (r : RowTable) (iterator : Int)
    (key : StoreKey) : Prop where
  | intro (position : Nat) (id : (indexOf r.type).Id)
      (row : (indexOf r.type).Value) (isPosition : iterator = position)
      (held : (eos.caches r).iteratorToObject[position]? =
        some (some (eos.place r.type id)))
      (found : (eos.db.rows r.type).rows[id]? = some row)
      (hasKey : HasKey eos.db.rows r key row)

/-- No table stands in the block, and its id has never been one of a table. -/
def FreshBlock (eos : EosDb) (used : List Int64) (block : Block) : Prop :=
  eos.Vacant .tableId block.address ∧ block.unset ∉ used

instance (eos : EosDb) (used : List Int64) (block : Block) :
    Decidable (eos.FreshBlock used block) := by
  unfold FreshBlock
  infer_instance

theorem FreshBlock.tableBlock {block : Block}
    (fresh : eos.FreshBlock used block) : eos.TableBlock used block :=
  ⟨fresh.1, fun isUsed => absurd isUsed fresh.2⟩

/-- The iterator leads to the row with this id. -/
def PointsTo (eos : EosDb) (r : RowTable) (iterator : Int)
    (id : (indexOf r.type).Id) : Prop :=
  ∃ position : Nat, iterator = position ∧
    (eos.caches r).iteratorToObject[position]? =
      some (some (eos.place r.type id))

/-- What the caches of another `eos_db` rest on: rows keep their keys and stay
where they are, but for one that may be gone, and so do tables. -/
structure Undisturbed (eos : EosDb) (used : List Int64)
    (gone : Option (RowTable × Int)) (final : EosDb) : Prop where
  rows : ∀ (r : RowTable) (id : (indexOf r.type).Id)
    (row : (indexOf r.type).Value),
    (eos.db.rows r.type).rows[id]? = some row →
    (∀ iterator, gone = some (r, iterator) → ¬ eos.PointsTo r iterator id) →
      final.place r.type id = eos.place r.type id ∧
      ∃ new, (final.db.rows r.type).rows[id]? = some new ∧
        r.scopePrimary new = r.scopePrimary row
  tables : ∀ tab ∈ used, final.place .tableId tab = eos.place .tableId tab

/-- The rows of all row tables are the same rows. -/
theorem undisturbed_of_same {gone : Option (RowTable × Int)}
    (sameRows : ∀ r : RowTable, final.db.rows r.type = eos.db.rows r.type)
    (samePlace : ∀ r : RowTable, final.place r.type = eos.place r.type)
    (tables : ∀ tab ∈ used, final.place .tableId tab = eos.place .tableId tab) :
    eos.Undisturbed used gone final where
  rows := by
    intro r id row found _
    rw [samePlace, sameRows]
    exact ⟨rfl, row, found, rfl⟩
  tables := tables

/-- A call has changed the maps to `store`.  Every iterator shows what it showed,
but for one that may be gone, and only a new table has a new name. -/
structure Advanced (eos : EosDb) (used : List Int64)
    (gone : Option (RowTable × Int)) (store : ContractStore) (final : EosDb) :
    Prop where
  consistent : final.Consistent (final.liveTables ++ used)
  charted : (final.caches .keyValue).Charted
  store : final.store = store
  shows : ∀ r iterator key, eos.Shows r iterator key →
    gone ≠ some (r, iterator) → final.Shows r iterator key
  names : ∀ tab name, Named final.db.rows tab name →
    Named eos.db.rows tab name ∨
      tab ∉ used ∧ eos.store.tables name = none
  undisturbed : eos.Undisturbed used gone final

theorem Advanced.named_of_used {gone : Option (RowTable × Int)}
    {store : ContractStore} {tab : Int64}
    (advanced : eos.Advanced used gone store final) (isUsed : tab ∈ used)
    (named : Named final.db.rows tab name) : Named eos.db.rows tab name := by
  rcases advanced.names tab name named with before | isNew
  · exact before
  · exact absurd isUsed isNew.1

/-- The row and the table that an iterator shows. -/
theorem Shows.holds (shows : eos.Shows r iterator key)
    (consistent : eos.Consistent used) :
    ∃ (position : Nat) (id : (indexOf r.type).Id)
      (row : (indexOf r.type).Value) (tableObj : TableIdObject),
      iterator = position ∧
      eos.Holds r position (eos.place r.type id) id row tableObj ∧
      HasKey eos.db.rows r key row := by
  rcases shows with ⟨position, id, row, isPosition, held, found, hasKey⟩
  rcases consistent.holds held with ⟨other, otherRow, tableObj, holds⟩
  have sameId : other = id := by
    apply consistent.apart r.type other id
    · rw [holds.found]
      exact Option.some_ne_none otherRow
    · rw [found]
      exact Option.some_ne_none row
    · exact holds.isAddress
  subst sameId
  have sameRow := holds.found
  rw [found, Option.some.injEq] at sameRow
  subst sameRow
  exact ⟨position, other, row, tableObj, isPosition, holds, hasKey⟩

/-- An iterator shows its key as long as its entry, its row and the name of the
table stay. -/
theorem Shows.kept (shows : eos.Shows r iterator key)
    (stays : ∀ (position : Nat) (id : (indexOf r.type).Id)
      (row : (indexOf r.type).Value), iterator = position →
      (eos.caches r).iteratorToObject[position]? =
        some (some (eos.place r.type id)) →
      (eos.db.rows r.type).rows[id]? = some row →
      HasKey eos.db.rows r key row →
        (final.caches r).iteratorToObject[position]? =
            some (some (final.place r.type id)) ∧
          ∃ new, (final.db.rows r.type).rows[id]? = some new ∧
            HasKey final.db.rows r key new) :
    final.Shows r iterator key := by
  rcases shows with ⟨position, id, row, isPosition, held, found, hasKey⟩
  rcases stays position id row isPosition held found hasKey with
    ⟨stillHeld, new, isNew, newKey⟩
  exact ⟨position, id, new, isPosition, stillHeld, isNew, newKey⟩

/-- The rows that are stored have names. -/
theorem Consistent.hasKey (consistent : eos.Consistent used)
    {id : (indexOf r.type).Id} {row : (indexOf r.type).Value}
    (found : (eos.db.rows r.type).rows[id]? = some row) :
    ∃ key, HasKey eos.db.rows r key row := by
  rcases consistent.balanced.owned r id row found with ⟨tableObj, hasTable⟩
  exact ⟨(tableObj.codeScopeTable, (r.scopePrimary row).2),
    ⟨tableObj, hasTable, rfl⟩, rfl⟩

/-- Calls that change no row and no table. -/
theorem advanced_of_same (consistent : eos.Consistent used)
    (charted : (eos.caches .keyValue).Charted) :
    eos.Advanced used none eos.store eos where
  consistent := consistent.mono (List.subset_append_right _ _)
  charted := charted
  store := rfl
  shows := fun _ _ _ shows _ => shows
  names := fun _ _ named => Or.inl named
  undisturbed := undisturbed_of_same (fun _ => rfl) (fun _ => rfl) fun _ _ => rfl

/-! ## Tables -/

section Tables

variable {code : Name} {scope : Sha256} {table payer : Name} {value : Bytes}
  {block : Block} {tab : Int64}

/-- No row is in a table that has never been. -/
theorem Consistent.noRows (consistent : eos.Consistent used)
    (isNew : tab ∉ used) (r : RowTable) (id : (indexOf r.type).Id)
    (row : (indexOf r.type).Value)
    (found : (eos.db.rows r.type).rows[id]? = some row) : r.tId row ≠ tab := by
  intro same
  rcases consistent.balanced.owned r id row found with ⟨tableObj, hasTable⟩
  rw [same] at hasTable
  exact isNew (consistent.tableIds tab (by simp [hasTable]))

/-- A table that was not there before has a name that no table had. -/
theorem named_or_new (isNew : eos.HasName tab name ∨ tab ∉ used)
    (named : Named final.db.rows tab name)
    (stays : ∀ other, Named eos.db.rows other name →
      Named final.db.rows other name) :
    Named eos.db.rows tab name ∨
      tab ∉ used ∧ eos.store.tables name = none := by
  by_cases isTable : ∃ other, Named eos.db.rows other name
  · rcases isTable with ⟨other, before⟩
    left
    rw [← (stays other before).id_unique named]
    exact before
  · rcases isNew with hasName | notUsed
    · exact Or.inl hasName
    · exact Or.inr ⟨notUsed,
        tables_eq_none_iff.mpr fun other before => isTable ⟨other, before⟩⟩

/-- Tables with other names. -/
theorem Located.advanced {store : ContractStore}
    (located : eos.Located used name tab final)
    (charted : (eos.caches .keyValue).Charted)
    (isStore : final.store = store)
    (isNew : eos.HasName tab name ∨ tab ∉ used)
    (tables : ∀ tested ∈ used,
      final.place .tableId tested = eos.place .tableId tested) :
    eos.Advanced used none store final where
  consistent := located.consistent
  charted := by
    rw [located.caches]
    exact charted
  store := isStore
  shows := by
    intro tested testedIterator testedKey shows _
    apply shows.kept
    intro position id row _ held found hasKey
    have isRowTable := type_ne_tableId tested
    rw [located.caches, located.place _ isRowTable, located.rows _ isRowTable]
    refine ⟨held, row, found, ?_, hasKey.2⟩
    exact (located.names _ _).mpr (Or.inl hasKey.1)
  names := by
    intro tested other named
    rcases (located.names tested other).mp named with before | isTable
    · exact Or.inl before
    · rw [isTable.1, isTable.2]
      exact named_or_new isNew located.hasName
        fun _ before => (located.names _ _).mpr (Or.inl before)
  undisturbed := undisturbed_of_same
    (fun r => located.rows _ (type_ne_tableId r))
    (fun r => located.place _ (type_ne_tableId r)) tables

/-- A new table does not move the others. -/
theorem FreshBlock.places (fresh : eos.FreshBlock used block) {tested : Int64}
    (isUsed : tested ∈ used) :
    placed eos.place .tableId block.unset block.address .tableId tested =
      eos.place .tableId tested := by
  apply placed_other_id
  intro same
  rw [same] at isUsed
  exact fresh.2 isUsed

/-- The new table is the only change. -/
theorem store_of_tableCreated {inserted : MultiIndex tableIdMultiIndex}
    (consistent : eos.Consistent used) (isNew : block.unset ∉ used)
    (success : (eos.db.rows .tableId).emplace
      (newTable code scope table payer value block) = some inserted)
    (wrote : Database.Wrote .tableId inserted eos.db final.db) :
    final.store =
      eos.store.putTable (code, scope, table) (some (payer, value)) := by
  rcases MultiIndex.emplace_some success with ⟨unused, entries⟩
  have tables : final.db.rows .tableId = inserted := by
    rw [wrote.rows, Function.update_self]
  have others : ∀ t, t ≠ .tableId → final.db.rows t = eos.db.rows t := by
    intro t different
    rw [wrote.rows, Function.update_of_ne different]
  apply ContractStore.ext
  · apply tables_changed (some (newTable code scope table payer value block))
    · intro tested
      rw [tables]
      exact entries tested
    · intro tableObj found
      exact absurd (found.symm.trans unused) (Option.some_ne_none tableObj)
    · intro tableObj isTable
      cases isTable
      rfl
    · exact Or.inr (Option.some_ne_none _)
  · apply rows_of_tables
    · intro tested different
      rw [tables]
      exact (entries tested).trans (if_neg different)
    · exact fun r => others r.type (type_ne_tableId r)
    · exact consistent.noRows isNew
  · simp only [store, storeOf, ContractStore.putTable,
      others .tableKey (by simp)]

variable (payer value) in
theorem Consistent.admits_newTable (consistent : eos.Consistent used)
    (isNew : block.unset ∉ used)
    (absent : eos.tableNamed (code, scope, table) = none) :
    (eos.db.rows .tableId).Admits
      (newTable code scope table payer value block) := by
  apply (MultiIndex.admits_iff _ _).mpr
  constructor
  · by_contra stored
    exact isNew (consistent.tableIds _ stored)
  · intro id row found clash
    have sameName := (clash_tableId_iff _ _).mp clash
    exact MultiIndex.findBy_eq_none_iff.mp absent id row found sameName.symm

theorem store_tables_eq_none_iff :
    eos.store.tables name = none ↔ eos.tableNamed name = none := by
  simp [store, storeOf, tableNamed]

variable (payer) in
/-- A new id lets every table be found or created. -/
theorem Consistent.findOrCreateTable_ok (consistent : eos.Consistent used)
    (charted : (eos.caches .keyValue).Charted)
    (granted : eos.tableNamed (code, scope, table) = none →
      eos.FreshBlock used block) :
    ∃ tab final, findOrCreateTable code scope table payer block eos =
        .ok tab final ∧
      eos.Located used (code, scope, table) tab final ∧
      eos.Advanced used none (eos.store.locate (code, scope, table) payer)
        final := by
  have locates := consistent.ends_findOrCreateTable payer
    fun absent => (granted absent).tableBlock
  cases named : eos.tableNamed (code, scope, table) with
  | some existing =>
      have found : findOrCreateTable code scope table payer block eos = _ :=
        findOrCreateTable_found consistent.ready named
      have located := locates.of_ok found
      refine ⟨existing.id, eos, found, located, ?_⟩
      have isTable : eos.store.tables (code, scope, table) ≠ none := by
        rw [Ne, store_tables_eq_none_iff, named]
        exact Option.some_ne_none existing
      rw [ContractStore.locate, if_pos (Option.isSome_iff_ne_none.mpr isTable)]
      exact advanced_of_same consistent charted
  | none =>
      have fresh := granted named
      have inserts := MultiIndex.emplace_of_admits
        (consistent.admits_newTable payer [] fresh.2 named)
      have creates : ∃ db, findOrCreateTable code scope table payer block eos =
          .ok block.unset _ ∧ Database.Wrote .tableId _ eos.db db :=
        findOrCreateTable_created consistent.ready named inserts
      rcases creates with ⟨db, created, wrote⟩
      have located := locates.of_ok created
      refine ⟨block.unset, _, created, located, ?_⟩
      have noTable := store_tables_eq_none_iff.mpr named
      rw [ContractStore.locate, noTable]
      exact located.advanced charted
        (store_of_tableCreated consistent fresh.2 inserts wrote)
        (Or.inr fresh.2) fun _ isUsed => fresh.places isUsed

theorem Consistent.dbStoreByScope_ok (consistent : eos.Consistent used)
    (charted : (eos.caches .keyValue).Charted)
    (absent : eos.tableNamed (code, scope, table) = none)
    (fresh : eos.FreshBlock used block) :
    ∃ final, dbStoreByScope code scope table payer value block eos =
        .ok block.unset final ∧
      eos.Located used (code, scope, table) block.unset final ∧
      eos.Advanced used none
        (eos.store.putTable (code, scope, table) (some (payer, value)))
        final := by
  have inserts := MultiIndex.emplace_of_admits
    (consistent.admits_newTable payer value fresh.2 absent)
  rcases create_some consistent.ready inserts with ⟨db, created, wrote⟩
  have stored : dbStoreByScope code scope table payer value block eos =
      .ok block.unset _ := bind_apply_of_ok _ created
  have located := (consistent.ends_dbStoreByScope fun _ =>
    fresh.tableBlock).of_ok stored
  exact ⟨_, stored, located, located.advanced charted
    (store_of_tableCreated consistent fresh.2 inserts wrote) (Or.inr fresh.2)
    fun _ isUsed => fresh.places isUsed⟩

variable (payer value block) in
theorem dbStoreByScope_refused (ready : eos.db.Ready)
    (present : eos.tableNamed (code, scope, table) ≠ none) :
    dbStoreByScope code scope table payer value block eos =
      .error (.logicError uniquenessMessage) eos := by
  have refused : (eos.db.rows .tableId).emplace
      (newTable code scope table payer value block) = none := by
    rw [MultiIndex.emplace_eq_none_iff, MultiIndex.admits_iff]
    intro admits
    rcases Option.ne_none_iff_exists'.mp present with ⟨tableObj, named⟩
    have isTable := row_of_tableNamed named
    exact admits.2 _ tableObj isTable.1
      ((clash_tableId_iff _ _).mpr isTable.2.symm)
  exact bind_apply_of_error _ (create_none ready refused)

/-- Another payer and value of a table. -/
theorem Consistent.dbUpdateByScope_advanced {tableObj : TableIdObject}
    (consistent : eos.Consistent used)
    (charted : (eos.caches .keyValue).Charted)
    (hasTable : (eos.db.rows .tableId).rows[tab]? = some tableObj) :
    ∃ final, dbUpdateByScope tab payer value eos = .ok ⟨⟩ final ∧
      eos.Advanced used none (eos.store.putTable tableObj.codeScopeTable
        (some (payer, value))) final := by
  rcases modify_of_interchangeable (t := .tableId)
      (fun t => { t with value := value, payer := payer })
      consistent.ready hasTable (interchangeable_scope tableObj payer value)
    with ⟨db, modified, success, wrote, entries⟩
  rcases consistent.dbUpdateByScope_ok hasTable with
    ⟨final, updated, finalConsistent, _⟩
  cases updated.symm.trans success
  have tables : db.rows .tableId = modified := by
    rw [wrote.rows, Function.update_self]
  have others : ∀ t, t ≠ .tableId → db.rows t = eos.db.rows t := by
    intro t different
    rw [wrote.rows, Function.update_of_ne different]
  have tableEntries : ∀ tested : Int64, (db.rows .tableId).rows[tested]? =
      if tab = tested then
        some { tableObj with value := value, payer := payer }
      else (eos.db.rows .tableId).rows[tested]? := by
    intro tested
    rw [tables]
    exact entries tested
  have sameNames : SameNames eos.db.rows db.rows := by
    intro tested other
    rw [Named, Named, tableEntries]
    split
    · rename_i same
      rw [← same, hasTable]
      simp [TableIdObject.codeScopeTable]
    · rfl
  refine ⟨_, success, finalConsistent.mono (List.subset_append_right _ _),
    charted, ?_, ?_, fun tested other named =>
      Or.inl ((sameNames tested other).mp named), ?_⟩
  · apply ContractStore.ext
    · apply tables_changed _ tableEntries
      · intro old found
        cases hasTable.symm.trans found
        rfl
      · intro new isNew
        cases isNew
        rfl
      · exact Or.inr (Option.some_ne_none _)
    · funext tested testedKey
      exact rows_of_same sameNames (others _ (type_ne_tableId tested)) testedKey
    · simp only [store, storeOf, ContractStore.putTable,
        others .tableKey (by simp)]
  · intro tested testedIterator testedKey shows _
    apply shows.kept
    intro position id row _ held found hasKey
    refine ⟨held, row, ?_, (sameNames.hasKey_iff row).mpr hasKey⟩
    rw [others _ (type_ne_tableId tested)]
    exact found
  · exact undisturbed_of_same (fun r => others _ (type_ne_tableId r))
      (fun _ => rfl) fun _ _ => rfl

end Tables

/-! ## Storing rows -/

/-- The ids of the primary rows are their primary keys. -/
def Numbered (contents : Contents) : Prop :=
  ∀ (id : Int64) (row : KeyValueObject),
    (contents .keyValue).rows[id]? = some row →
      row.id = row.primaryKey.toInt64

/-- What the id of a new row is; a row of a secondary index gets it from the
memory. -/
def HasNewId (contents : Contents) :
    (r : RowTable) → (indexOf r.type).Value → Prop
  | .keyValue, row => row.id = row.primaryKey.toInt64
  | .index kind, row => (contents (.index kind)).rows[row.id]? = none

section Keys

variable {contents : Contents}

/-- The unique indices refuse a row exactly if its key is taken. -/
theorem emplace_eq_none_iff_taken {row : (indexOf r.type).Value}
    (named : ∀ (id : (indexOf r.type).Id) (old : (indexOf r.type).Value),
      (contents r.type).rows[id]? = some old →
        ∃ key, HasKey contents r key old)
    (numbered : Numbered contents) (hasKey : HasKey contents r key row)
    (hasNewId : HasNewId contents r row) :
    (contents r.type).emplace row = none ↔ (storeOf contents).Taken r key := by
  rw [MultiIndex.emplace_eq_none_iff]
  cases r with
  | keyValue =>
      have isId : row.id = row.primaryKey.toInt64 := hasNewId
      have isKey : row.primaryKey = key.2 := hasKey.2
      constructor
      · intro refused
        -- some primary row has the same primary key
        have stored : ∃ (id : Int64) (old : KeyValueObject),
            (contents .keyValue).rows[id]? = some old ∧
              old.primaryKey = key.2 := by
          by_contra noRow
          push Not at noRow
          apply refused
          apply (MultiIndex.admits_iff _ _).mpr
          constructor
          · by_contra isStored
            rcases Option.ne_none_iff_exists'.mp isStored with ⟨old, found⟩
            have oldId : old.id = row.id := (contents .keyValue).keyed found
            have sameId := congrArg Int64.toUInt64
              ((numbered _ old found).symm.trans (oldId.trans isId))
            simp only [UInt64.toUInt64_toInt64] at sameId
            exact noRow _ old found (sameId.trans isKey)
          · intro id old found clash
            have sameKey := congrArg Prod.snd
              ((clash_keyValue_iff row old).mp clash)
            exact noRow id old found (sameKey.symm.trans isKey)
        rcases stored with ⟨id, old, found, sameKey⟩
        rcases named id old found with ⟨oldKey, hasOldKey⟩
        have isOldKey : old.primaryKey = oldKey.2 := hasOldKey.2
        refine ⟨oldKey.1, ?_⟩
        rw [← sameKey, isOldKey, rows_eq_of_found found hasOldKey]
        exact Option.some_ne_none _
      · intro taken admits
        rcases taken with ⟨name, isTaken⟩
        rcases Option.ne_none_iff_exists'.mp isTaken with ⟨content, held⟩
        rcases rows_eq_some_iff.mp held with ⟨id, old, found, oldKey, _⟩
        have isOldKey : old.primaryKey = key.2 := oldKey.2
        have oldId : old.id = id := (contents .keyValue).keyed found
        have sameId : id = row.id := by
          rw [← oldId, numbered id old found, isOldKey, isId, isKey]
        have absent : (contents .keyValue).rows[row.id]? = none := admits.1
        rw [← sameId, found] at absent
        cases absent
  | index kind =>
      constructor
      · intro refused isFree
        apply refused
        apply (MultiIndex.admits_iff _ _).mpr
        refine ⟨hasNewId, fun id old found clash => ?_⟩
        have sameKey := (clash_secondary_iff row old).mp clash
        have sameTable : row.tId = old.tId := congrArg Prod.fst sameKey
        have samePrimary : row.primaryKey = old.primaryKey :=
          congrArg Prod.snd sameKey
        apply rows_eq_none_iff.mp isFree id old found
        refine ⟨?_, samePrimary.symm.trans hasKey.2⟩
        change Named contents old.tId key.1
        rw [← sameTable]
        exact hasKey.1
      · intro taken admits
        rcases Option.ne_none_iff_exists'.mp taken with ⟨content, held⟩
        rcases rows_eq_some_iff.mp held with ⟨id, old, found, oldKey, _⟩
        apply ((MultiIndex.admits_iff _ _).mp admits).2 id old found
        apply (clash_secondary_iff row old).mpr
        have sameTable : row.tId = old.tId := hasKey.1.id_unique oldKey.1
        have samePrimary : row.primaryKey = old.primaryKey :=
          hasKey.2.trans oldKey.2.symm
        exact Prod.ext sameTable samePrimary

end Keys

section Stores

variable {code : Name} {scope : Sha256} {table payer : Name} {id : UInt64}
  {memory : Memory} {newRow : Int64 → (indexOf r.type).Value}
  {content : r.Content} {tab : Int64} {located : EosDb}

/-- One more row. -/
theorem store_of_rowStored {db : Database eosDbTables}
    {inserted : MultiIndex (indexOf r.type)}
    {counted : MultiIndex tableIdMultiIndex} {tableObj : TableIdObject}
    {row : (indexOf r.type).Value}
    (hasKey : HasKey located.db.rows r key row)
    (hasTable : (located.db.rows .tableId).rows[tab]? = some tableObj)
    (success : (located.db.rows r.type).emplace row = some inserted)
    (rows : db.rows = Function.update
      (Function.update located.db.rows r.type inserted) .tableId counted)
    (counts : ∀ tested : Int64, counted.rows[tested]? =
      if tab = tested then some { tableObj with count := tableObj.count + 1 }
      else (located.db.rows .tableId).rows[tested]?) :
    storeOf db.rows = located.store.putRow r key (some (r.content row)) := by
  rcases MultiIndex.emplace_some success with ⟨absent, entries⟩
  have tables : db.rows .tableId = counted := by
    rw [rows, Function.update_self]
  have newRows : db.rows r.type = inserted := by
    rw [rows, Function.update_of_ne (type_ne_tableId r), Function.update_self]
  have others : ∀ t, t ≠ .tableId → t ≠ r.type →
      db.rows t = located.db.rows t := by
    intro t notTable notRow
    rw [rows, Function.update_of_ne notTable, Function.update_of_ne notRow]
  have sameTables : SameTables located.db.rows db.rows := by
    apply SameTables.of_count hasTable
    intro tested
    rw [tables]
    exact counts tested
  apply ContractStore.ext
  · exact sameTables.tables
  · apply rows_changed (some row) sameTables.sameNames
    · intro other different
      exact others other.type (type_ne_tableId other)
        fun same => different (type_injective same)
    · intro tested
      rw [newRows]
      exact entries tested
    · intro old found
      exact absurd (found.symm.trans absent) (Option.some_ne_none old)
    · intro new isNew
      cases isNew
      exact hasKey
    · exact Or.inr (Option.some_ne_none row)
  · have sameRecords : db.rows .tableKey = located.db.rows .tableKey := by
      apply others
      · simp
      · cases r with
        | keyValue => simp
        | index kind => simp
    simp only [store, storeOf, ContractStore.putRow, sameRecords]

/-- What is the same for a row that is stored and for one that is refused. -/
structure NewEntry (eos : EosDb) (used : List Int64) (r : RowTable)
    (name : TableName) (id : UInt64) (content : r.Content)
    (newRow : Int64 → (indexOf r.type).Value) (memory : Memory) : Prop where
  granted : eos.tableNamed name = none → eos.FreshBlock used memory.table
  vacant : eos.Vacant r.type memory.row.address
  room : ∀ tableObj ∈ eos.tableNamed name,
    rowsOf eos.db.rows tableObj.id + 1 < 2 ^ 32
  ofTable : ∀ tab, r.tId (newRow tab) = tab
  ofKey : ∀ tab, (r.scopePrimary (newRow tab)).2 = id
  ofContent : ∀ tab, r.content (newRow tab) = content
  newId : ∀ tab, HasNewId eos.db.rows r (newRow tab)

/-- The new row is the only change, apart from its table. -/
theorem Stored.advanced {store : ContractStore} {row : (indexOf r.type).Value}
    {address : Address}
    (stored : eos.Stored used r name row address iterator final)
    (charted : (eos.caches .keyValue).Charted)
    (isStore : final.store = store)
    (sameRows : ∀ other : RowTable, other ≠ r →
      final.db.rows other.type = eos.db.rows other.type ∧
        final.place other.type = eos.place other.type)
    (isNew : eos.HasName (r.tId row) name ∨ r.tId row ∉ used)
    (tables : ∀ tab ∈ used,
      final.place .tableId tab = eos.place .tableId tab) :
    eos.Advanced used none store final where
  consistent := stored.consistent
  charted := by
    rcases stored.caches with ⟨tableAddress, isCaches⟩
    rw [isCaches]
    by_cases isPrimary : r = .keyValue
    · subst isPrimary
      rw [Function.update_self]
      exact charted.cacheTable _ tableAddress
    · rw [Function.update_of_ne (Ne.symm isPrimary)]
      exact charted
  store := isStore
  shows := by
    intro tested testedIterator testedKey shows _
    rcases stored.caches with ⟨tableAddress, isCaches⟩
    apply shows.kept
    intro position id old _ held found hasKey
    have named : Named final.db.rows (tested.tId old) testedKey.1 :=
      (stored.names _ _).mpr (Or.inl hasKey.1)
    by_cases same : tested = r
    · subst same
      have different : (indexOf tested.type).id row ≠ id := by
        intro same
        have absent := stored.absent
        rw [same, found] at absent
        cases absent
      rw [isCaches, Function.update_self, stored.place,
        Function.update_of_ne (Ne.symm different)]
      refine ⟨?_, old, ?_, named, hasKey.2⟩
      · rw [IteratorCache.pushed_entry,
          IteratorCache.cacheTable_iteratorToObject]
        exact Or.inl held
      · rw [stored.rows, if_neg different]
        exact found
    · rw [isCaches, Function.update_of_ne same, (sameRows tested same).1,
        (sameRows tested same).2]
      exact ⟨held, old, found, named, hasKey.2⟩
  names := by
    intro tested other named
    rcases (stored.names tested other).mp named with before | isTable
    · exact Or.inl before
    · rw [isTable.1, isTable.2] at named ⊢
      exact named_or_new isNew named
        fun _ before => (stored.names _ _).mpr (Or.inl before)
  undisturbed :=
    { rows := by
        intro tested id old found _
        by_cases same : tested = r
        · subst same
          have different : (indexOf tested.type).id row ≠ id := by
            intro same
            have absent := stored.absent
            rw [same, found] at absent
            cases absent
          rw [stored.place, Function.update_of_ne (Ne.symm different),
            stored.rows, if_neg different]
          exact ⟨rfl, old, found, rfl⟩
        · rw [(sameRows tested same).1, (sameRows tested same).2]
          exact ⟨rfl, old, found, rfl⟩
      tables := tables }

/-- The iterator of a new row shows it. -/
theorem Stored.shows {row : (indexOf r.type).Value} {address : Address}
    (stored : eos.Stored used r name row address iterator final)
    (few : (eos.caches r).iteratorToObject.length < 2 ^ 31) :
    0 ≤ iterator ∧
      final.Shows r iterator (name, (r.scopePrimary row).2) := by
  have isIterator := stored.iterator
  rw [toInt32_eq (by omega) (by omega)] at isIterator
  rcases stored.caches with ⟨tableAddress, isCaches⟩
  refine ⟨by omega, (eos.caches r).iteratorToObject.length,
    (indexOf r.type).id row, row, isIterator, ?_, ?_,
    (stored.names _ _).mpr (Or.inr ⟨rfl, rfl⟩), rfl⟩
  · rw [isCaches, Function.update_self, stored.place, Function.update_self,
      IteratorCache.pushed_entry, IteratorCache.cacheTable_iteratorToObject]
    exact Or.inr ⟨rfl, rfl⟩
  · rw [stored.rows, if_pos rfl]

variable (payer) in
/-- A row is stored in its table, or the table stays without it. -/
theorem Consistent.storeRow_advanced (consistent : eos.Consistent used)
    (charted : (eos.caches .keyValue).Charted) (numbered : Numbered eos.db.rows)
    (new : eos.NewEntry used r (code, scope, table) id content newRow memory)
    (few : (eos.caches r).iteratorToObject.length < 2 ^ 31) :
    (eos.store.Taken r ((code, scope, table), id) ∧
      ∃ final, storeRow r code scope table payer newRow memory eos =
          .error (.logicError uniquenessMessage) final ∧
        eos.Advanced used none (eos.store.locate (code, scope, table) payer)
          final) ∨
    (¬ eos.store.Taken r ((code, scope, table), id) ∧
      ∃ iterator final, storeRow r code scope table payer newRow memory eos =
          .ok iterator final ∧
        eos.Advanced used none
          ((eos.store.locate (code, scope, table) payer).putRow r
            ((code, scope, table), id) (some content)) final ∧
        0 ≤ iterator ∧
        final.Shows r iterator ((code, scope, table), id)) := by
  rcases consistent.findOrCreateTable_ok payer charted new.granted with
    ⟨tab, located, isLocated, locates, advanced⟩
  have sameRows := locates.rows r.type (type_ne_tableId r)
  have hasKey : HasKey located.db.rows r ((code, scope, table), id)
      (newRow tab) := by
    refine ⟨?_, new.ofKey tab⟩
    rw [new.ofTable]
    exact locates.hasName
  have newId : HasNewId located.db.rows r (newRow tab) := by
    have before := new.newId tab
    cases r with
    | keyValue => exact before
    | index kind =>
        change (located.db.rows (.index kind)).rows[_]? = none
        rw [sameRows]
        exact before
  have locatedNumbered : Numbered located.db.rows := by
    intro rowId row found
    rw [locates.rows .keyValue (by simp)] at found
    exact numbered rowId row found
  have taken := emplace_eq_none_iff_taken
    (fun _ _ found => locates.consistent.hasKey found) locatedNumbered hasKey
    newId
  have isStore : storeOf located.db.rows =
      eos.store.locate (code, scope, table) payer := advanced.store
  rw [isStore, ContractStore.taken_locate_iff] at taken
  have ends := consistent.ends_storeRow payer
    (fun absent => (new.granted absent).tableBlock) new.vacant new.room
    new.ofTable
  cases attempt : (located.db.rows r.type).emplace (newRow tab) with
  | none =>
      left
      exact ⟨taken.mp attempt, located,
        storeRow_refused isLocated locates.consistent.ready attempt, advanced⟩
  | some inserted =>
      right
      have notTaken : ¬ eos.store.Taken r ((code, scope, table), id) := by
        intro isTaken
        rw [taken.mpr isTaken] at attempt
        cases attempt
      refine ⟨notTaken, ?_⟩
      rcases locates.hasName with ⟨tableObj, hasTable, isName⟩
      rcases storeRow_ok isLocated locates.consistent.ready hasTable attempt
        with ⟨db, counted, stored, ready, rows, counts⟩
      rcases ends.of_ok stored with ⟨other, isStored⟩
      -- the row that was stored is the one in the table that was located
      have sameTable : other = tab := by
        have hasName : Named db.rows other (code, scope, table) := by
          have named := (isStored.names other _).mpr
            (Or.inr ⟨(new.ofTable other).symm, rfl⟩)
          exact named
        have counted : SameTables located.db.rows db.rows := by
          apply SameTables.of_count hasTable
          intro tested
          rw [rows, Function.update_self]
          exact counts tested
        exact ((counted.sameNames other _).mp hasName).id_unique
          locates.hasName
      subst sameTable
      have shown := isStored.shows few
      rw [new.ofKey] at shown
      refine ⟨_, _, stored, isStored.advanced charted ?_ ?_ ?_ ?_, shown.1,
        shown.2⟩
      · have onlyRow := store_of_rowStored hasKey hasTable attempt rows counts
        rw [new.ofContent] at onlyRow
        rw [← advanced.store]
        exact onlyRow
      · intro tested different
        have notRow : tested.type ≠ r.type :=
          fun same => different (type_injective same)
        have isRowTable := type_ne_tableId tested
        constructor
        · simp only [rows]
          rw [Function.update_of_ne isRowTable, Function.update_of_ne notRow,
            locates.rows _ isRowTable]
        · simp only
          rw [placed_other_type _ notRow, locates.place _ isRowTable]
      · rw [new.ofTable]
        by_cases isUsed : other ∈ used
        · exact Or.inl (advanced.named_of_used isUsed locates.hasName)
        · exact Or.inr isUsed
      · intro tested isUsed
        simp only
        rw [placed_other_type _ (type_ne_tableId r).symm]
        exact advanced.undisturbed.tables tested isUsed

end Stores

/-! ## Changing and removing rows -/

section Rows

variable {ndebug : Bool} {id : (indexOf r.type).Id}
  {row : (indexOf r.type).Value} {position : Nat} {tableObj : TableIdObject}

/-- A row keeps its key and gets another content. -/
theorem Consistent.row_advanced (consistent : eos.Consistent used)
    (charted : (eos.caches .keyValue).Charted)
    (modifier : (indexOf r.type).Value → (indexOf r.type).Value)
    (found : (eos.db.rows r.type).rows[id]? = some row)
    (hasKey : HasKey eos.db.rows r key row)
    (same : (indexOf r.type).Interchangeable row (modifier row))
    (sameKey : r.scopePrimary (modifier row) = r.scopePrimary row) :
    ∃ final, modify r.type id modifier eos = .ok ⟨⟩ final ∧
      eos.Advanced used none
        (eos.store.putRow r key (some (r.content (modifier row)))) final := by
  have sameTable : r.tId (modifier row) = r.tId row := by
    rw [← r.scopePrimary_fst, ← r.scopePrimary_fst, sameKey]
  rcases modify_of_interchangeable modifier consistent.ready found same with
    ⟨db, modified, success, wrote, entries⟩
  rcases consistent.rowRewritten modifier found same sameTable with
    ⟨final, changed, rewritten⟩
  cases changed.symm.trans success
  have others : ∀ t, t ≠ r.type → db.rows t = eos.db.rows t := by
    intro t different
    rw [wrote.rows, Function.update_of_ne different]
  have sameTables : SameTables eos.db.rows db.rows :=
    .of_eq rewritten.tables
  have newKey : HasKey eos.db.rows r key (modifier row) := by
    rw [HasKey, sameTable, sameKey]
    exact hasKey
  refine ⟨_, success, rewritten.consistent.mono (List.subset_append_right _ _),
    charted, ?_, ?_, fun tab name named =>
      Or.inl ((sameTables.sameNames tab name).mp named), ?_, fun _ _ => rfl⟩
  · apply ContractStore.ext
    · exact sameTables.tables
    · apply rows_changed (some (modifier row)) sameTables.sameNames
      · intro other different
        exact others other.type fun same => different (type_injective same)
      · exact rewritten.rows
      · intro old isOld
        cases found.symm.trans isOld
        exact hasKey
      · intro new isNew
        cases isNew
        exact newKey
      · exact Or.inr (Option.some_ne_none _)
    · have sameRecords : db.rows .tableKey = eos.db.rows .tableKey := by
        apply others
        cases r with
        | keyValue => simp
        | index kind => simp
      simp only [store, storeOf, ContractStore.putRow, sameRecords]
  · intro tested testedIterator testedKey shows _
    apply shows.kept
    intro testedPosition testedId old _ held isOld oldKey
    refine ⟨held, ?_⟩
    by_cases isRowTable : tested = r
    · subst isRowTable
      have stays := rewritten.rows testedId
      split at stays
      · rename_i isId
        rw [← isId, found, Option.some.injEq] at isOld
        subst isOld
        refine ⟨modifier row, stays, (sameTables.sameNames.hasKey_iff _).mpr ?_⟩
        rw [HasKey, sameTable, sameKey]
        exact oldKey
      · exact ⟨old, stays.trans isOld,
          (sameTables.sameNames.hasKey_iff old).mpr oldKey⟩
    · refine ⟨old, ?_, (sameTables.sameNames.hasKey_iff old).mpr oldKey⟩
      rw [others _ fun same => isRowTable (type_injective same)]
      exact isOld
  · intro tested testedId old isOld _
    refine ⟨rfl, ?_⟩
    by_cases isRowTable : tested = r
    · subst isRowTable
      have stays := rewritten.rows testedId
      split at stays
      · rename_i isId
        rw [← isId, found, Option.some.injEq] at isOld
        subst isOld
        exact ⟨modifier row, stays, sameKey⟩
      · exact ⟨old, stays.trans isOld, rfl⟩
    · simp only [others _ fun same => isRowTable (type_injective same)]
      exact ⟨old, isOld, rfl⟩

/-- One row less. -/
theorem store_of_rowDropped {db : Database eosDbTables}
    {counted : MultiIndex tableIdMultiIndex}
    (found : (eos.db.rows r.type).rows[id]? = some row)
    (hasKey : HasKey eos.db.rows r key row)
    (hasTable : (eos.db.rows .tableId).rows[r.tId row]? = some tableObj)
    (rows : db.rows = Function.update
      (Function.update eos.db.rows .tableId counted) r.type
      ((eos.db.rows r.type).erase id))
    (counts : ∀ tested : Int64, counted.rows[tested]? =
      if r.tId row = tested then
        some { tableObj with count := tableObj.count - 1 }
      else (eos.db.rows .tableId).rows[tested]?) :
    storeOf db.rows = eos.store.putRow r key none := by
  have tables : db.rows .tableId = counted := by
    rw [rows, Function.update_of_ne (type_ne_tableId r).symm,
      Function.update_self]
  have erased : db.rows r.type = (eos.db.rows r.type).erase id := by
    rw [rows, Function.update_self]
  have others : ∀ t, t ≠ .tableId → t ≠ r.type →
      db.rows t = eos.db.rows t := by
    intro t notTable notRow
    rw [rows, Function.update_of_ne notRow, Function.update_of_ne notTable]
  have sameTables : SameTables eos.db.rows db.rows := by
    apply SameTables.of_count hasTable
    intro tested
    rw [tables]
    exact counts tested
  apply ContractStore.ext
  · exact sameTables.tables
  · apply rows_changed none sameTables.sameNames
    · intro other different
      exact others other.type (type_ne_tableId other)
        fun same => different (type_injective same)
    · intro tested
      rw [erased]
      exact MultiIndex.erase_row _ id tested
    · intro old isOld
      cases found.symm.trans isOld
      exact hasKey
    · intro new isNew
      cases isNew
    · rw [found]
      exact Or.inl (Option.some_ne_none row)
  · have sameRecords : db.rows .tableKey = eos.db.rows .tableKey := by
      apply others
      · simp
      · cases r with
        | keyValue => simp
        | index kind => simp
    simp only [store, storeOf, ContractStore.putRow, sameRecords]

/-- A table has rows if its count is not zero. -/
theorem hasRows_iff {contents : Contents} {tab : Int64}
    (named : Named contents tab name) :
    (storeOf contents).HasRows name ↔ rowsOf contents tab ≠ 0 := by
  rw [Ne, rowsOf_eq_zero_iff]
  push Not
  constructor
  · intro hasRows
    rcases hasRows with ⟨tested, testedId, stored⟩
    rcases Option.ne_none_iff_exists'.mp stored with ⟨content, held⟩
    rcases rows_eq_some_iff.mp held with ⟨rowId, old, found, oldKey, _⟩
    exact ⟨tested, rowId, old, found, oldKey.1.id_unique named⟩
  · intro hasRows
    rcases hasRows with ⟨tested, rowId, old, found, inTable⟩
    refine ⟨tested, (tested.scopePrimary old).2, ?_⟩
    have oldKey : HasKey contents tested
        (name, (tested.scopePrimary old).2) old := ⟨by rw [inTable]; exact named,
      rfl⟩
    rw [rows_eq_of_found found oldKey]
    exact Option.some_ne_none _

/-- The table goes when its count is zero. -/
theorem store_of_removeI64Row {id : Int64} {row : KeyValueObject}
    {db : Database eosDbTables}
    (holds : eos.Holds .keyValue position (eos.place .keyValue id) id row
      tableObj)
    (consistent : eos.Consistent used)
    (hasKey : HasKey eos.db.rows .keyValue key row)
    (ran : removeI64Row id row.tId eos = .ok ⟨⟩ { eos with db := db }) :
    storeOf db.rows =
      (eos.store.putRow .keyValue key none).dropTable .keyValue key.1 := by
  rcases holds.dropRow_ok consistent with ⟨middle, dropped, isDropped, isCounted⟩
  rcases EosDb.dropRow_ok consistent.ready holds.found holds.hasTable with
    ⟨other, counted, otherDropped, _, rows, counts⟩
  cases dropped.symm.trans otherDropped
  have middleStore := store_of_rowDropped holds.found hasKey holds.hasTable
    rows counts
  change dropRow .keyValue id row.tId eos = _ at dropped
  change (middle.rows .tableId).rows[row.tId]? = _ at isCounted
  have table : (middle.rows .tableId).find row.tId =
      some { tableObj with count := tableObj.count - 1 } := isCounted
  have middleReady : ({ eos with db := middle } : EosDb).db.Ready :=
    isDropped.ready
  have located := indices_apply middleReady .tableId
  have isName : tableObj.codeScopeTable = key.1 := by
    have named : Named eos.db.rows row.tId tableObj.codeScopeTable :=
      ⟨tableObj, holds.hasTable, rfl⟩
    exact named.name_unique hasKey.1
  have named : Named middle.rows row.tId key.1 := ⟨_, isCounted, isName⟩
  have hasRows := hasRows_iff named
  have number := isDropped.balanced.counted row.tId _ isCounted
  rw [middleStore] at hasRows
  rw [removeI64Row, bind_apply_of_ok _ dropped, bind_apply_of_ok _ located]
    at ran
  simp only [table] at ran
  unfold ContractStore.dropTable
  by_cases isEmpty : tableObj.count - 1 = 0
  · rw [if_pos isEmpty] at ran
    have noRows : rowsOf middle.rows row.tId = 0 := by
      rw [← number, isEmpty]
      rfl
    rw [if_pos ⟨rfl, fun some => hasRows.mp some noRows⟩]
    rcases remove_of_row (t := .tableId) middleReady isCounted with
      ⟨after, removed, wrote⟩
    cases ran.symm.trans removed
    have tables : db.rows .tableId =
        (middle.rows .tableId).erase row.tId := by
      rw [wrote.rows, Function.update_self]
    have others : ∀ t, t ≠ .tableId → db.rows t = middle.rows t := by
      intro t different
      rw [wrote.rows, Function.update_of_ne different]
    have entries : ∀ tested : Int64, (db.rows .tableId).rows[tested]? =
        if row.tId = tested then none
        else (middle.rows .tableId).rows[tested]? := by
      intro tested
      rw [tables]
      exact MultiIndex.erase_row (T := tableIdMultiIndex) _ _ tested
    rw [← middleStore]
    apply ContractStore.ext
    · apply tables_changed _ entries
      · intro old isOld
        cases isCounted.symm.trans isOld
        exact isName
      · intro new isNew
        cases isNew
      · rw [isCounted]
        exact Or.inl (Option.some_ne_none _)
    · apply rows_of_tables
      · intro tested different
        rw [entries, if_neg different]
      · exact fun tested => others tested.type (type_ne_tableId tested)
      · exact rowsOf_eq_zero_iff.mp noRows
    · simp only [storeOf, ContractStore.putTable, others .tableKey (by simp)]
  · rw [if_neg isEmpty] at ran
    have someRows : rowsOf middle.rows row.tId ≠ 0 := by
      intro noRows
      rw [noRows] at number
      exact isEmpty (UInt32.toNat_inj.mp number)
    rw [if_neg fun both => both.2 (hasRows.mpr someRows)]
    cases ran
    exact middleStore

/-- The row and its iterator are gone; the other iterators show what they
showed. -/
theorem Removed.advanced {store : ContractStore}
    (removed : eos.Removed used r position (eos.place r.type id) id final)
    (consistent : eos.Consistent used)
    (charted : (eos.caches .keyValue).Charted)
    (live : (eos.caches r).iteratorToObject[position]? =
      some (some (eos.place r.type id)))
    (isStore : final.store = store) :
    eos.Advanced used (some (r, position)) store final where
  consistent := removed.consistent.mono (List.subset_append_right _ _)
  charted := by
    rw [removed.caches]
    by_cases isPrimary : r = .keyValue
    · subst isPrimary
      rw [Function.update_self]
      exact charted
    · rw [Function.update_of_ne (Ne.symm isPrimary)]
      exact charted
  store := isStore
  shows := by
    intro tested testedIterator testedKey shows notGone
    -- a row that stays is in a table that stays
    have keyStays : ∀ {oldId : (indexOf tested.type).Id}
        {old : (indexOf tested.type).Value},
        HasKey eos.db.rows tested testedKey old →
        (final.db.rows tested.type).rows[oldId]? = some old →
          HasKey final.db.rows tested testedKey old := by
      intro oldId old oldKey stays
      rcases removed.consistent.hasKey stays with ⟨newKey, hasNewKey⟩
      rcases hasNewKey.1 with ⟨tableObj, hasTable, isName⟩
      have before : Named eos.db.rows (tested.tId old) newKey.1 :=
        isName ▸ removed.dropped.names _ tableObj hasTable
      have sameName := before.name_unique oldKey.1
      exact ⟨sameName ▸ hasNewKey.1, oldKey.2⟩
    apply shows.kept
    intro testedPosition testedId old isPosition held isOld oldKey
    rw [removed.place, removed.caches]
    by_cases isRowTable : tested = r
    · subst isRowTable
      have otherPosition : position ≠ testedPosition := by
        intro same
        rw [same, ← isPosition] at notGone
        exact notGone rfl
      have otherId : id ≠ testedId := by
        intro same
        rw [← same] at held
        exact otherPosition
          ((consistent.caches tested).mirrored.unique live held)
      have stays : (final.db.rows tested.type).rows[testedId]? = some old := by
        rw [removed.dropped.rows, MultiIndex.erase_row, if_neg otherId]
        exact isOld
      refine ⟨?_, old, stays, keyStays oldKey stays⟩
      rw [Function.update_self, IteratorCache.cleared_entry]
      exact ⟨otherPosition, held⟩
    · have stays : (final.db.rows tested.type).rows[testedId]? = some old := by
        rw [removed.dropped.otherRows _
          (fun same => isRowTable (type_injective same))
          (type_ne_tableId tested)]
        exact isOld
      rw [Function.update_of_ne isRowTable]
      exact ⟨held, old, stays, keyStays oldKey stays⟩
  names := by
    intro tab other named
    rcases named with ⟨tableObj, hasTable, isName⟩
    rw [← isName]
    exact Or.inl (removed.dropped.names tab tableObj hasTable)
  undisturbed :=
    { rows := by
        intro tested testedId old isOld stays
        rw [removed.place]
        refine ⟨rfl, old, ?_, rfl⟩
        by_cases isRowTable : tested = r
        · subst isRowTable
          have otherId : id ≠ testedId := by
            intro same
            rw [same] at live
            exact stays position rfl ⟨position, rfl, live⟩
          rw [removed.dropped.rows, MultiIndex.erase_row, if_neg otherId]
          exact isOld
        · rw [removed.dropped.otherRows _
            (fun same => isRowTable (type_injective same))
            (type_ne_tableId tested)]
          exact isOld
      tables := fun tab _ => by rw [removed.place] }

end Rows

/-! ### Through iterators -/

section Iterators

variable {ndebug : Bool} {payer : Name} {buffer : Bytes} {kind : IndexKind}
  {secondary : SecondaryKey kind} {bufferSize : Nat}

variable (ndebug payer buffer) in
theorem Shows.dbUpdateI64 (shows : eos.Shows .keyValue iterator key)
    (consistent : eos.Consistent used)
    (charted : (eos.caches .keyValue).Charted) :
    ∃ final, EosDb.dbUpdateI64 ndebug iterator payer buffer eos =
        .ok ⟨⟩ final ∧
      eos.Advanced used none
        (eos.store.putRow .keyValue key (some (payer, buffer))) final := by
  rcases shows.holds consistent with
    ⟨position, id, row, tableObj, isPosition, holds, hasKey⟩
  have isId : row.id = id := (eos.db.rows .keyValue).keyed holds.found
  rcases consistent.row_advanced (r := .keyValue) charted
      (fun o => { o with value := buffer, payer := payer }) holds.found hasKey
      (interchangeable_keyValue row payer buffer) rfl with
    ⟨final, changed, advanced⟩
  refine ⟨final, ?_, advanced⟩
  rw [isPosition, EosDb.dbUpdateI64,
    bind_apply_of_ok _ (holds.getObject consistent), isId]
  exact changed

variable (ndebug payer secondary) in
theorem Shows.idxUpdate (shows : eos.Shows (.index kind) iterator key)
    (consistent : eos.Consistent used)
    (charted : (eos.caches .keyValue).Charted) :
    ∃ final, EosDb.idxUpdate ndebug kind iterator payer secondary eos =
        .ok ⟨⟩ final ∧
      eos.Advanced used none
        (eos.store.putRow (.index kind) key (some (payer, secondary)))
        final := by
  rcases shows.holds consistent with
    ⟨position, id, row, tableObj, isPosition, holds, hasKey⟩
  have isId : row.id = id := (eos.db.rows (.index kind)).keyed holds.found
  have located : EosDb.getTable ndebug (.index kind) row.tId eos = _ :=
    holds.getTable consistent
  rcases consistent.row_advanced (r := .index kind) charted
      (fun o => { o with secondaryKey := secondary, payer := payer })
      holds.found hasKey (interchangeable_secondary row payer secondary) rfl
    with ⟨final, changed, advanced⟩
  refine ⟨final, ?_, advanced⟩
  rw [isPosition, EosDb.idxUpdate,
    bind_apply_of_ok _ (holds.getObject consistent),
    bind_apply_of_ok _ located, isId]
  exact changed

variable (ndebug) in
theorem Shows.dbRemoveI64 (shows : eos.Shows .keyValue iterator key)
    (consistent : eos.Consistent used)
    (charted : (eos.caches .keyValue).Charted) :
    ∃ final, EosDb.dbRemoveI64 ndebug iterator eos = .ok ⟨⟩ final ∧
      eos.Advanced used (some (.keyValue, iterator))
        ((eos.store.putRow .keyValue key none).dropTable .keyValue key.1)
        final := by
  rcases shows.holds consistent with
    ⟨position, id, row, tableObj, isPosition, holds, hasKey⟩
  rcases holds.dbRemoveI64 consistent with ⟨final, removed, isRemoved⟩
  rcases holds.removeI64Row_ok consistent with ⟨db, ran, _⟩
  have isStore := store_of_removeI64Row holds consistent hasKey ran
  have through := removed
  rw [dbRemoveI64_eq, holds.removeThrough consistent ran] at through
  cases through
  rw [isPosition]
  exact ⟨_, removed, isRemoved.advanced consistent charted holds.held isStore⟩

variable (ndebug) in
theorem Shows.idxRemove (shows : eos.Shows (.index kind) iterator key)
    (consistent : eos.Consistent used)
    (charted : (eos.caches .keyValue).Charted) :
    ∃ final, EosDb.idxRemove ndebug kind iterator eos = .ok ⟨⟩ final ∧
      eos.Advanced used (some (.index kind, iterator))
        ((eos.store.putRow (.index kind) key none).dropTable (.index kind)
          key.1) final := by
  rcases shows.holds consistent with
    ⟨position, id, row, tableObj, isPosition, holds, hasKey⟩
  rcases holds.idxRemove consistent with ⟨final, removed, isRemoved⟩
  rcases EosDb.dropRow_ok consistent.ready holds.found holds.hasTable with
    ⟨db, counted, dropped, _, rows, counts⟩
  have isStore := store_of_rowDropped holds.found hasKey holds.hasTable rows
    counts
  have through := removed
  rw [idxRemove_eq, holds.removeThrough consistent dropped] at through
  cases through
  rw [isPosition]
  refine ⟨_, removed, isRemoved.advanced consistent charted holds.held ?_⟩
  rw [ContractStore.dropTable, if_neg (by simp)]
  exact isStore

theorem store_rows_keyValue (key : StoreKey) :
    eos.store.rows .keyValue key =
      (eos.primaryRows key).map fun row => (row.payer, row.value) := by
  simp only [store, storeOf, primaryRows, rowOf, tableNamed,
    Option.map_bind]
  rfl

variable (ndebug bufferSize) in
theorem Shows.dbGetI64 (shows : eos.Shows .keyValue iterator key)
    (consistent : eos.Consistent used) :
    ∃ size copied,
      EosDb.dbGetI64 ndebug iterator bufferSize eos =
        .ok (size, copied) eos ∧
      StoreCall.copyOf ((eos.store.rows .keyValue key).elim [] Prod.snd)
        bufferSize = .copied size copied := by
  rcases shows.holds consistent with
    ⟨position, id, row, tableObj, isPosition, holds, hasKey⟩
  have isRow := rows_eq_of_found holds.found hasKey
  have isContent : eos.store.rows .keyValue key =
      some (row.payer, row.value) := isRow
  rw [isPosition, holds.dbGetI64 consistent, isContent]
  simp only [Option.elim_some, StoreCall.copyOf]
  split
  · exact ⟨_, _, rfl, rfl⟩
  · exact ⟨_, _, rfl, rfl⟩

end Iterators

/-! ## Finding rows -/

section Find

variable {code : Name} {scope : Sha256} {table : Name} {id : UInt64}
  {tab : Int64}

/-- Only `keyval_cache` has changed, and no entry of it was lost. -/
theorem advanced_of_cache (cache : IteratorCache)
    (isCaches : final.caches = Function.update eos.caches .keyValue cache)
    (consistent : final.Consistent used) (sameDb : final.db = eos.db)
    (samePlace : final.place = eos.place) (charted : cache.Charted)
    (stays : ∀ (position : Nat) (entry : Option Address),
      (eos.caches .keyValue).iteratorToObject[position]? = some entry →
        cache.iteratorToObject[position]? = some entry) :
    eos.Advanced used none eos.store final where
  consistent := consistent.mono (List.subset_append_right _ _)
  charted := by
    rw [isCaches, Function.update_self]
    exact charted
  store := by rw [store, store, sameDb]
  shows := by
    intro tested testedIterator testedKey shows _
    apply shows.kept
    intro position rowId row _ held found hasKey
    rw [isCaches, sameDb, samePlace]
    refine ⟨?_, row, found, hasKey⟩
    by_cases isPrimary : tested = .keyValue
    · subst isPrimary
      rw [Function.update_self]
      exact stays position _ held
    · rw [Function.update_of_ne isPrimary]
      exact held
  names := by
    intro tested other named
    rw [sameDb] at named
    exact Or.inl named
  undisturbed := undisturbed_of_same (fun _ => by rw [sameDb])
    (fun _ => by rw [samePlace]) fun _ _ => by rw [samePlace]

theorem Consistent.withTable_advanced (consistent : eos.Consistent used)
    (charted : (eos.caches .keyValue).Charted)
    (stored : (eos.db.rows .tableId).rows[tab]? ≠ none) :
    eos.Advanced used none eos.store (eos.withTable tab) := by
  have cached : (eos.withTable tab).Consistent used :=
    consistent.tableCached (r := .keyValue) stored
  refine advanced_of_cache _ rfl cached rfl rfl (charted.cacheTable tab _) ?_
  intro position entry held
  rw [IteratorCache.cacheTable_iteratorToObject]
  exact held

variable (code scope table id) in
/-- `db_find_i64` returns an iterator that shows the row, or one that is no
iterator of a row. -/
theorem Consistent.dbFindI64_advanced (consistent : eos.Consistent used)
    (charted : (eos.caches .keyValue).Charted)
    (few : eos.keyvalEntries.length < 2 ^ 31)
    (fewEnds : (eos.caches .keyValue).endIteratorToTable.length + 1 < 2 ^ 31) :
    ∃ value final, dbFindI64 code scope table id eos = .ok value final ∧
      eos.Advanced used none eos.store final ∧
      (eos.store.rows .keyValue ((code, scope, table), id)).isSome =
        decide (0 ≤ value) ∧
      (0 ≤ value →
        final.Shows .keyValue value ((code, scope, table), id)) := by
  have ready := consistent.ready
  rw [store_rows_keyValue, Option.isSome_map]
  cases named : eos.tableNamed (code, scope, table) with
  | none =>
      have noRow : eos.primaryRows ((code, scope, table), id) = none := by
        rw [primaryRows, rowOf, named]
        rfl
      refine ⟨-1, eos, dbFindI64_noTable ready named,
        advanced_of_same consistent charted, by simp [noRow], ?_⟩
      intro isRow
      omega
  | some tab =>
      have stored := stored_of_tableNamed named
      have tableCached := consistent.withTable_advanced charted stored
      cases isRow : eos.primaryRows ((code, scope, table), id) with
      | none =>
          have fits : (eos.withTable tab.id).FewIterators := by
            constructor
            · rw [withTable_entries]
              exact few
            · rw [withTable_cache, IteratorCache.cacheTable_endIteratorToTable]
              split
              · simpa using fewEnds
              · omega
          have negative := withTable_endIterator_lt charted tab.id fits
          refine ⟨_, _, dbFindI64_noRow ready named isRow, tableCached, ?_, ?_⟩
          · simp only [Option.isSome_none]
            exact (decide_eq_false (by omega)).symm
          · intro isIterator
            omega
      | some row =>
          have finds := dbFindI64_of_primaryRow ready named isRow
          have inTable := inTable_of_primaryRow named isRow
          have isFound := primaryRows_eq_some_iff.mp isRow
          have cached : (eos.withTable tab.id).Consistent used :=
            consistent.tableCached (r := .keyValue) stored
          have isCached : ∃ entry, ((eos.withTable tab.id).caches
              .keyValue).tableCache[row.tId]? = some entry := by
            rw [withTable_cache, inTable]
            exact IteratorCache.cacheTable_cached _ tab.id _
          rcases isCached with ⟨entry, isCached⟩
          have entries := entryAdded_add (cached.caches .keyValue).mirrored
            (eos.place .keyValue row.id) (by
              rw [← keyvalEntries, withTable_entries]
              exact few)
          rcases entries with ⟨position, isPosition, added⟩
          have returned : dbFindI64 code scope table id eos =
              .ok position ((eos.withTable tab.id).withObject row.id) := by
            rw [finds, addObject_apply]
            exact congrArg (fun value => EStateM.Result.ok value _) isPosition
          have consistentFinal :
              ((eos.withTable tab.id).withObject row.id).Consistent used :=
            cached.rowAdded (r := .keyValue) isFound.2.1 isCached
          refine ⟨position, _, returned, ?_, by simp, fun _ => ?_⟩
          · refine advanced_of_cache
              (((eos.withTable tab.id).caches .keyValue).add
                (eos.place .keyValue row.id)).2 ?_ consistentFinal rfl rfl
              ?_ ?_
            · simp only [withObject, withTable, Function.update_idem,
                Function.update_self]
            · intro tested testedEntry isTested
              rw [IteratorCache.add_tableCache] at isTested
              rw [IteratorCache.add_endIteratorToTable]
              exact tableCached.charted tested testedEntry isTested
            · intro tested testedEntry held
              apply added.stays
              rw [withTable_cache, IteratorCache.cacheTable_iteratorToObject]
              exact held
          · refine ⟨position, row.id, row, rfl, ?_, isFound.2.1, ?_,
              isFound.2.2⟩
            · rw [withObject_cache]
              exact added.live
            · exact isFound.1

end Find

/-! ## Records -/

section Records

variable {id : Sha256} {record : Option TableKeyObject}
  {records : MultiIndex tableKeyMultiIndex}

theorem type_ne_tableKey (r : RowTable) : r.type ≠ .tableKey := by
  cases r with
  | keyValue => simp
  | index kind => simp

/-- One record is new, has changed or is gone, and stands apart. -/
theorem Consistent.record_advanced (consistent : eos.Consistent used)
    (charted : (eos.caches .keyValue).Charted)
    (wrote : Database.Wrote .tableKey records eos.db final.db)
    (entries : ∀ tested : Sha256, records.rows[tested]? =
      if id = tested then record
      else (eos.db.rows .tableKey).rows[tested]?)
    (apart : final.Apart .tableKey)
    (samePlace : ∀ t, t ≠ .tableKey → final.place t = eos.place t)
    (sameCaches : final.caches = eos.caches) :
    eos.Advanced used none
      (eos.store.putRecord id (record.map fun t => (t.payer, t.value)))
      final := by
  have newRecords : final.db.rows .tableKey = records := by
    rw [wrote.rows, Function.update_self]
  have others : ∀ t, t ≠ .tableKey → final.db.rows t = eos.db.rows t := by
    intro t different
    rw [wrote.rows, Function.update_of_ne different]
  have sameTables : final.db.rows .tableId = eos.db.rows .tableId :=
    others .tableId (by simp)
  have sameRows : ∀ r : RowTable, final.db.rows r.type = eos.db.rows r.type :=
    fun r => others r.type (type_ne_tableKey r)
  have sameNumber : ∀ tab : Int64,
      rowsOf final.db.rows tab = rowsOf eos.db.rows tab := by
    intro tab
    simp only [rowsOf, sameRows]
  have sameNames : SameNames eos.db.rows final.db.rows :=
    (SameTables.of_eq sameTables).sameNames
  have finalConsistent : final.Consistent used :=
    { ready := wrote.ready
      balanced :=
        { owned := by
            intro r rowId row found
            rw [sameRows] at found
            rw [sameTables]
            exact consistent.balanced.owned r rowId row found
          counted := by
            intro tab tableObj found
            rw [sameTables] at found
            rw [sameNumber]
            exact consistent.balanced.counted tab tableObj found }
      apart := by
        intro t
        by_cases isRecord : t = .tableKey
        · subst isRecord
          exact apart
        · apply (consistent.apart t).of_subset
          intro rowId stored
          rw [others t isRecord] at stored
          exact ⟨stored, congrFun (samePlace t isRecord) rowId⟩
      tableIds := by
        intro tab stored
        rw [sameTables] at stored
        exact consistent.tableIds tab stored
      caches := by
        intro r
        apply (consistent.caches r).kept
        · rw [sameCaches]
          exact (consistent.caches r).mirrored
        · rw [sameCaches]
        · intro tab _ stored
          rw [sameTables] at stored
          exact ⟨stored, congrFun (samePlace .tableId (by simp)) tab⟩
        · intro position address held
          rw [sameCaches] at held
          refine ⟨held, fun rowId row found isAddress => ?_⟩
          rw [sameRows]
          exact ⟨(congrFun (samePlace _ (type_ne_tableKey r)) rowId).trans
            isAddress, row, found, rfl⟩ }
  refine ⟨finalConsistent.mono (List.subset_append_right _ _), ?_, ?_, ?_,
    fun tab name named => Or.inl ((sameNames tab name).mp named), ?_⟩
  · rw [sameCaches]
    exact charted
  · apply ContractStore.ext
    · exact (SameTables.of_eq sameTables).tables
    · funext r key
      exact rows_of_same sameNames (sameRows r) key
    · funext tested
      simp only [store, storeOf, ContractStore.putRecord, newRecords,
        MultiIndex.find]
      rw [entries]
      by_cases same : tested = id
      · rw [same, Function.update_self, if_pos rfl]
      · rw [Function.update_of_ne same, if_neg (Ne.symm same)]
  · intro r iterator key shows _
    apply shows.kept
    intro position rowId row _ held found hasKey
    rw [sameCaches, samePlace _ (type_ne_tableKey r), sameRows]
    exact ⟨held, row, found, (sameNames.hasKey_iff row).mpr hasKey⟩
  · exact undisturbed_of_same sameRows
      (fun r => samePlace _ (type_ne_tableKey r))
      fun tab _ => congrFun (samePlace .tableId (by simp)) tab

variable {sha : Bytes → Sha256} {ndebug : Bool} {type : KeyType}
  {scope payer : Sha256} {keyValue : Key type} {buffer : Bytes} {block : Block}

theorem store_records_isSome :
    (eos.store.records id).isSome =
      ((eos.db.rows .tableKey).find id).isSome := by
  simp [store, storeOf]

variable (ndebug payer buffer) in
theorem Consistent.dbStoreByKey_advanced (consistent : eos.Consistent used)
    (charted : (eos.caches .keyValue).Charted)
    (hashed : hashKey sha scope keyValue = .ok id)
    (absent : (eos.store.records id).isSome = false)
    (vacant : eos.Vacant .tableKey block.address) :
    ∃ final, dbStoreByKey sha ndebug scope keyValue payer buffer block eos =
        .ok ⟨⟩ final ∧
      eos.Advanced used none (eos.store.putRecord id (some (payer, buffer)))
        final := by
  have looks : indices .tableKey eos = _ :=
    indices_apply consistent.ready .tableKey
  rw [store_records_isSome] at absent
  have isAbsent : (eos.db.rows .tableKey).rows[id]? = none :=
    Option.isSome_eq_false_iff.mp absent |> Option.isNone_iff_eq_none.mp
  have admits : (eos.db.rows .tableKey).Admits ⟨id, payer, buffer⟩ := by
    apply (MultiIndex.admits_iff _ _).mpr
    exact ⟨isAbsent, fun _ _ _ clash => not_clash_tableKey _ _ clash⟩
  have inserts := MultiIndex.emplace_of_admits admits
  have creates : ∃ db, create .tableKey block ⟨id, payer, buffer⟩ eos = _ ∧ _ :=
    create_some consistent.ready inserts
  rcases creates with ⟨db, created, wrote⟩
  have entries := (MultiIndex.emplace_some inserts).2
  have newRecords : db.rows .tableKey =
      (eos.db.rows .tableKey).insert ⟨id, payer, buffer⟩ admits := by
    rw [wrote.rows, Function.update_self]
  refine ⟨{ eos with
      db := db
      place := placed eos.place .tableKey id block.address }, ?_,
    consistent.record_advanced charted wrote entries ?_ ?_ rfl⟩
  · rw [dbStoreByKey, hashed]
    apply (bind_apply_of_ok _ looks).trans
    rw [absent]
    exact created
  · exact (consistent.apart .tableKey).placed vacant inserts newRecords
  · intro t different
    exact placed_other_type _ different _ _

variable (record) in
/-- A change or a removal leaves the addresses as they are. -/
theorem Consistent.recordThrough_advanced (consistent : eos.Consistent used)
    (charted : (eos.caches .keyValue).Charted) {db : Database eosDbTables}
    (wrote : Database.Wrote .tableKey records eos.db db)
    (entries : ∀ tested : Sha256, records.rows[tested]? =
      if id = tested then record
      else (eos.db.rows .tableKey).rows[tested]?)
    (present : (eos.db.rows .tableKey).rows[id]? ≠ none) :
    eos.Advanced used none
      (eos.store.putRecord id (record.map fun t => (t.payer, t.value)))
      { eos with db := db } := by
  apply consistent.record_advanced charted wrote entries
  · apply (consistent.apart .tableKey).of_subset
    intro tested stored
    refine ⟨?_, rfl⟩
    have newRecords : db.rows .tableKey = records := by
      rw [wrote.rows, Function.update_self]
    change (db.rows .tableKey).rows[tested]? ≠ none at stored
    rw [newRecords, entries] at stored
    split at stored
    · rename_i same
      rw [← same]
      exact present
    · exact stored
  · exact fun _ _ => rfl
  · rfl

variable (ndebug payer buffer) in
theorem Consistent.dbUpdateByKey_advanced (consistent : eos.Consistent used)
    (charted : (eos.caches .keyValue).Charted)
    (hashed : hashKey sha scope keyValue = .ok id)
    (present : (eos.store.records id).isSome = true) :
    ∃ final, dbUpdateByKey sha ndebug scope keyValue payer buffer eos =
        .ok ⟨⟩ final ∧
      eos.Advanced used none (eos.store.putRecord id (some (payer, buffer)))
        final := by
  have looks : indices .tableKey eos = _ :=
    indices_apply consistent.ready .tableKey
  rw [store_records_isSome] at present
  rcases Option.isSome_iff_exists.mp present with ⟨old, isOld⟩
  have found : (eos.db.rows .tableKey).rows[id]? = some old := isOld
  have isId : old.id = id := (eos.db.rows .tableKey).keyed found
  rw [← isId] at found
  have same := interchangeable_tableKey old payer buffer
  rcases EosDb.modify_of_interchangeable (t := .tableKey)
    (fun t => { t with payer := payer, value := buffer }) consistent.ready
    found same with ⟨db, modified, modifies, wrote, entries⟩
  refine ⟨_, ?_, consistent.recordThrough_advanced
    (some { old with payer := payer, value := buffer }) charted wrote
    ?_ ?_⟩
  · rw [dbUpdateByKey, hashed]
    apply (bind_apply_of_ok _ looks).trans
    rw [isOld]
    exact modifies
  · rw [← isId]
    exact entries
  · rw [← isId, found]
    exact Option.some_ne_none old

variable (ndebug) in
theorem Consistent.dbRemoveByKey_advanced (consistent : eos.Consistent used)
    (charted : (eos.caches .keyValue).Charted)
    (hashed : hashKey sha scope keyValue = .ok id)
    (present : (eos.store.records id).isSome = true) :
    ∃ final, dbRemoveByKey sha ndebug scope keyValue eos = .ok ⟨⟩ final ∧
      eos.Advanced used none (eos.store.putRecord id none) final := by
  have looks : indices .tableKey eos = _ :=
    indices_apply consistent.ready .tableKey
  rw [store_records_isSome] at present
  rcases Option.isSome_iff_exists.mp present with ⟨old, isOld⟩
  have found : (eos.db.rows .tableKey).rows[id]? = some old := isOld
  have isId : old.id = id := (eos.db.rows .tableKey).keyed found
  rcases remove_of_row (t := .tableKey) consistent.ready found with
    ⟨db, removes, wrote⟩
  refine ⟨_, ?_, consistent.recordThrough_advanced none charted wrote
    ?_ ?_⟩
  · rw [dbRemoveByKey, hashed]
    apply (bind_apply_of_ok _ looks).trans
    rw [isOld]
    exact (congrFun (congrArg (remove .tableKey) isId) eos).trans removes
  · exact MultiIndex.erase_row (T := tableKeyMultiIndex) _ id
  · rw [found]
    exact Option.some_ne_none old

end Records

end EosDb

end StateDatabase
