import Mathlib
import StateDatabase.TableCounts
import StateDatabase.ContractStore

/-!
# The contract tables as maps

The maps that the rows of the database stand for, and what a change of one row
does to them.  A table or a row is found by its name, whatever id it has, so a
change of one object changes one entry of the maps.
-/

namespace StateDatabase

open Maps

namespace RowTable

/-- The key that no two rows of a row table share. -/
def scopePrimary : (r : RowTable) → (indexOf r.type).Value → Int64 × UInt64
  | .keyValue => KeyValueObject.scopePrimary
  | .index _ => IndexObject.primary

def content : (r : RowTable) → (indexOf r.type).Value → r.Content
  | .keyValue => fun row => (row.payer, row.value)
  | .index _ => fun row => (row.payer, row.secondaryKey)

@[simp]
theorem scopePrimary_fst (r : RowTable) (row : (indexOf r.type).Value) :
    (r.scopePrimary row).1 = r.tId row := by
  cases r with
  | keyValue => rfl
  | index kind => rfl

theorem clash_iff (r : RowTable) (left right : (indexOf r.type).Value) :
    (indexOf r.type).Clash left right ↔
      r.scopePrimary left = r.scopePrimary right := by
  cases r with
  | keyValue => exact clash_keyValue_iff left right
  | index kind => exact clash_secondary_iff left right

end RowTable

/-- The table with this id has this name. -/
def Named (contents : Contents) (tab : Int64) (name : TableName) : Prop :=
  ∃ tableObj, (contents .tableId).rows[tab]? = some tableObj ∧
    tableObj.codeScopeTable = name

/-- The row is in the table of this name and has this primary key. -/
def HasKey (contents : Contents) (r : RowTable) (key : StoreKey)
    (row : (indexOf r.type).Value) : Prop :=
  Named contents (r.tId row) key.1 ∧ (r.scopePrimary row).2 = key.2

/-- The maps of the rows of a database. -/
def storeOf (contents : Contents) : ContractStore where
  tables name :=
    ((contents .tableId).findBy TableIdObject.codeScopeTable name).map
      fun tableObj => (tableObj.payer, tableObj.value)
  rows r key :=
    ((contents .tableId).findBy TableIdObject.codeScopeTable key.1).bind
      fun tableObj =>
        ((contents r.type).findBy r.scopePrimary (tableObj.id, key.2)).map
          r.content
  records id :=
    ((contents .tableKey).find id).map fun t => (t.payer, t.value)

section Lookups

variable {contents : Contents} {r : RowTable} {name : TableName}
  {key : StoreKey} {tab : Int64}

theorem Named.name_unique {other : TableName} (isLeft : Named contents tab name)
    (isRight : Named contents tab other) : name = other := by
  rcases isLeft with ⟨left, foundLeft, leftName⟩
  rcases isRight with ⟨right, foundRight, rightName⟩
  rw [foundLeft, Option.some.injEq] at foundRight
  rw [← leftName, ← rightName, foundRight]

theorem Named.id_unique {other : Int64} (isLeft : Named contents tab name)
    (isRight : Named contents other name) : tab = other := by
  rcases isLeft with ⟨left, foundLeft, leftName⟩
  rcases isRight with ⟨right, foundRight, rightName⟩
  exact (contents .tableId).unique foundLeft foundRight
    ((clash_tableId_iff left right).mpr (leftName.trans rightName.symm))

theorem tables_eq_some_iff {content : Name × Bytes} :
    (storeOf contents).tables name = some content ↔
      ∃ (tab : Int64) (tableObj : TableIdObject),
        (contents .tableId).rows[tab]? = some tableObj ∧
        tableObj.codeScopeTable = name ∧
        (tableObj.payer, tableObj.value) = content := by
  simp only [storeOf, Option.map_eq_some_iff]
  constructor
  · intro held
    rcases held with ⟨tableObj, named, isContent⟩
    have found := MultiIndex.findBy_some named
    exact ⟨_, tableObj, found.1, found.2, isContent⟩
  · intro held
    rcases held with ⟨tab, tableObj, found, isName, isContent⟩
    refine ⟨tableObj, ?_, isContent⟩
    exact MultiIndex.findBy_of_row
      (fun left right => (clash_tableId_iff left right).mpr) found isName

theorem tables_eq_none_iff :
    (storeOf contents).tables name = none ↔
      ∀ tab, ¬ Named contents tab name := by
  rw [Option.eq_none_iff_forall_ne_some]
  constructor
  · intro absent tab named
    rcases named with ⟨tableObj, found, isName⟩
    exact absent _ (tables_eq_some_iff.mpr ⟨tab, tableObj, found, isName, rfl⟩)
  · intro absent content held
    rcases tables_eq_some_iff.mp held with ⟨tab, tableObj, found, isName, _⟩
    exact absent tab ⟨tableObj, found, isName⟩

/-- A row is found by the name of its table and its key. -/
theorem rows_eq_some_iff {content : r.Content} :
    (storeOf contents).rows r key = some content ↔
      ∃ (id : (indexOf r.type).Id) (row : (indexOf r.type).Value),
        (contents r.type).rows[id]? = some row ∧
        HasKey contents r key row ∧ r.content row = content := by
  simp only [storeOf, Option.bind_eq_some_iff, Option.map_eq_some_iff]
  constructor
  · intro held
    rcases held with ⟨tableObj, named, row, inTable, isContent⟩
    have isTable := MultiIndex.findBy_some named
    have isRow := MultiIndex.findBy_some inTable
    refine ⟨_, row, isRow.1, ⟨⟨tableObj, ?_, isTable.2⟩, ?_⟩, isContent⟩
    · rw [← r.scopePrimary_fst, isRow.2]
      exact isTable.1
    · rw [isRow.2]
  · intro held
    rcases held with ⟨id, row, found, hasKey, isContent⟩
    rcases hasKey with ⟨⟨tableObj, isTable, isName⟩, isKey⟩
    have isId : tableObj.id = r.tId row := (contents .tableId).keyed isTable
    refine ⟨tableObj, ?_, row, ?_, isContent⟩
    · exact MultiIndex.findBy_of_row
        (fun left right => (clash_tableId_iff left right).mpr) isTable isName
    · apply MultiIndex.findBy_of_row
        (fun left right => (r.clash_iff left right).mpr) found
      exact Prod.ext ((r.scopePrimary_fst row).trans isId.symm) isKey

theorem rows_eq_none_iff :
    (storeOf contents).rows r key = none ↔
      ∀ (id : (indexOf r.type).Id) (row : (indexOf r.type).Value),
        (contents r.type).rows[id]? = some row →
          ¬ HasKey contents r key row := by
  rw [Option.eq_none_iff_forall_ne_some]
  constructor
  · intro absent id row found hasKey
    exact absent _ (rows_eq_some_iff.mpr ⟨id, row, found, hasKey, rfl⟩)
  · intro absent content held
    rcases rows_eq_some_iff.mp held with ⟨id, row, found, hasKey, _⟩
    exact absent id row found hasKey

/-- Two rows of one table with one primary key are the same row. -/
theorem HasKey.id_unique {id other : (indexOf r.type).Id}
    {row old : (indexOf r.type).Value} (hasKey : HasKey contents r key row)
    (otherKey : HasKey contents r key old)
    (found : (contents r.type).rows[id]? = some row)
    (otherFound : (contents r.type).rows[other]? = some old) : id = other := by
  apply (contents r.type).unique found otherFound
  apply (r.clash_iff row old).mpr
  have sameTable := hasKey.1.id_unique otherKey.1
  rw [← r.scopePrimary_fst row, ← r.scopePrimary_fst old] at sameTable
  exact Prod.ext sameTable (hasKey.2.trans otherKey.2.symm)

/-- A row has one key. -/
theorem HasKey.key_unique {other : StoreKey} {row : (indexOf r.type).Value}
    (hasKey : HasKey contents r key row)
    (otherKey : HasKey contents r other row) : key = other :=
  Prod.ext (hasKey.1.name_unique otherKey.1)
    (hasKey.2.symm.trans otherKey.2)

theorem rows_eq_of_found {id : (indexOf r.type).Id}
    {row : (indexOf r.type).Value}
    (found : (contents r.type).rows[id]? = some row)
    (hasKey : HasKey contents r key row) :
    (storeOf contents).rows r key = some (r.content row) :=
  rows_eq_some_iff.mpr ⟨id, row, found, hasKey, rfl⟩

end Lookups

/-! ## Changes of one row -/

section Changes

variable {before after : Contents} {r : RowTable} {name : TableName}
  {key : StoreKey}

/-- The tables have the names that they had. -/
def SameNames (before after : Contents) : Prop :=
  ∀ tab name, Named after tab name ↔ Named before tab name

theorem SameNames.hasKey_iff (sameNames : SameNames before after)
    (row : (indexOf r.type).Value) :
    HasKey after r key row ↔ HasKey before r key row := by
  rw [HasKey, HasKey, sameNames]

/-- Rows that are found alike. -/
theorem rows_congr (agree : ∀ (id : (indexOf r.type).Id)
    (row : (indexOf r.type).Value), HasKey after r key row ∨
      HasKey before r key row →
        ((after r.type).rows[id]? = some row ∧ HasKey after r key row ↔
          (before r.type).rows[id]? = some row ∧ HasKey before r key row)) :
    (storeOf after).rows r key = (storeOf before).rows r key := by
  apply Option.ext
  intro content
  rw [rows_eq_some_iff, rows_eq_some_iff]
  constructor
  · intro held
    rcases held with ⟨id, row, found, hasKey, isContent⟩
    rcases (agree id row (Or.inl hasKey)).mp ⟨found, hasKey⟩ with ⟨was, had⟩
    exact ⟨id, row, was, had, isContent⟩
  · intro held
    rcases held with ⟨id, row, found, hasKey, isContent⟩
    rcases (agree id row (Or.inr hasKey)).mpr ⟨found, hasKey⟩ with ⟨is, has⟩
    exact ⟨id, row, is, has, isContent⟩

theorem rows_of_same (sameNames : SameNames before after)
    (same : after r.type = before r.type) (key : StoreKey) :
    (storeOf after).rows r key = (storeOf before).rows r key := by
  apply rows_congr
  intro id row _
  rw [same, sameNames.hasKey_iff]

/-- One row is new, has changed or is gone; its key has the new content. -/
theorem rows_changed {id : (indexOf r.type).Id}
    (new : Option (indexOf r.type).Value) (sameNames : SameNames before after)
    (others : ∀ other : RowTable, other ≠ r →
      after other.type = before other.type)
    (entries : ∀ tested : (indexOf r.type).Id,
      (after r.type).rows[tested]? =
        if id = tested then new else (before r.type).rows[tested]?)
    (old : ∀ row, (before r.type).rows[id]? = some row →
      HasKey before r key row)
    (isNew : ∀ row, new = some row → HasKey before r key row)
    (someRow : (before r.type).rows[id]? ≠ none ∨ new ≠ none) :
    (storeOf after).rows =
      ((storeOf before).putRow r key (new.map r.content)).rows := by
  have atId : (after r.type).rows[id]? = new := (entries id).trans (if_pos rfl)
  -- no other row has the key, before or after the change
  have onlyHere : ∀ (tested : (indexOf r.type).Id)
      (row : (indexOf r.type).Value), id ≠ tested →
      (before r.type).rows[tested]? = some row →
        ¬ HasKey before r key row := by
    intro tested row different found hasKey
    rcases someRow with isOld | isSome
    · rcases Option.ne_none_iff_exists'.mp isOld with ⟨oldRow, oldFound⟩
      exact different ((old oldRow oldFound).id_unique hasKey oldFound found)
    · rcases Option.ne_none_iff_exists'.mp isSome with ⟨newRow, newFound⟩
      have newKey := (sameNames.hasKey_iff newRow).mpr (isNew newRow newFound)
      have stays : (after r.type).rows[tested]? = some row :=
        ((entries tested).trans (if_neg different)).trans found
      exact different (newKey.id_unique ((sameNames.hasKey_iff row).mpr hasKey)
        (atId.trans newFound) stays)
  funext tested testedKey
  by_cases sameTable : tested = r
  · subst sameTable
    simp only [ContractStore.putRow, Function.update_self]
    by_cases sameKey : testedKey = key
    · subst sameKey
      rw [Function.update_self]
      cases isSome : new with
      | some row =>
          have hasKey := (sameNames.hasKey_iff row).mpr (isNew row isSome)
          exact rows_eq_of_found (atId.trans isSome) hasKey
      | none =>
          apply rows_eq_none_iff.mpr
          intro other row found hasKey
          rw [entries, isSome] at found
          split at found
          · cases found
          · exact onlyHere other row (by assumption) found
              ((sameNames.hasKey_iff row).mp hasKey)
    · rw [Function.update_of_ne sameKey]
      apply rows_congr
      intro other row hasKey
      have before_iff : HasKey after tested testedKey row ↔
          HasKey before tested testedKey row := sameNames.hasKey_iff row
      rw [before_iff, or_self] at hasKey
      rw [before_iff, entries]
      split
      · rename_i isId
        have notNew : new ≠ some row := fun same =>
          sameKey (hasKey.key_unique (isNew row same))
        have notOld : (before tested.type).rows[other]? ≠ some row :=
          fun same => sameKey (hasKey.key_unique (old row (isId ▸ same)))
        simp [notNew, notOld]
      · rfl
  · simp only [ContractStore.putRow, Function.update_of_ne sameTable]
    exact rows_of_same sameNames (others tested sameTable) testedKey

/-- The tables keep their names, payers and values; counts may change. -/
def SameTables (before after : Contents) : Prop :=
  ∀ (tab : Int64) (content : TableName × Name × Bytes),
    (∃ tableObj, (after .tableId).rows[tab]? = some tableObj ∧
      (tableObj.codeScopeTable, tableObj.payer, tableObj.value) = content) ↔
    ∃ tableObj, (before .tableId).rows[tab]? = some tableObj ∧
      (tableObj.codeScopeTable, tableObj.payer, tableObj.value) = content

theorem SameTables.of_eq (same : after .tableId = before .tableId) :
    SameTables before after := by
  intro tab content
  rw [same]

theorem SameTables.of_count {tab : Int64} {tableObj : TableIdObject}
    {count : UInt32}
    (hasTable : (before .tableId).rows[tab]? = some tableObj)
    (entries : ∀ tested : Int64, (after .tableId).rows[tested]? =
      if tab = tested then some { tableObj with count := count }
      else (before .tableId).rows[tested]?) : SameTables before after := by
  intro tested content
  rw [entries]
  split
  · rename_i same
    rw [← same, hasTable]
    simp [TableIdObject.codeScopeTable]
  · rfl

theorem SameTables.sameNames (same : SameTables before after) :
    SameNames before after := by
  intro tab name
  constructor
  · intro named
    rcases named with ⟨tableObj, found, isName⟩
    rcases (same tab _).mp ⟨tableObj, found, rfl⟩ with ⟨old, isOld, isContent⟩
    exact ⟨old, isOld, (congrArg Prod.fst isContent).trans isName⟩
  · intro named
    rcases named with ⟨tableObj, found, isName⟩
    rcases (same tab _).mpr ⟨tableObj, found, rfl⟩ with ⟨new, isNew, isContent⟩
    exact ⟨new, isNew, (congrArg Prod.fst isContent).trans isName⟩

theorem SameTables.tables (same : SameTables before after) :
    (storeOf after).tables = (storeOf before).tables := by
  funext name
  apply Option.ext
  intro content
  rw [tables_eq_some_iff, tables_eq_some_iff]
  apply exists_congr
  intro tab
  have agree := same tab (name, content)
  simpa [Prod.ext_iff] using agree

/-- One table is new, has changed or is gone. -/
theorem tables_changed {tab : Int64} (new : Option TableIdObject)
    (entries : ∀ tested : Int64, (after .tableId).rows[tested]? =
      if tab = tested then new else (before .tableId).rows[tested]?)
    (old : ∀ tableObj, (before .tableId).rows[tab]? = some tableObj →
      tableObj.codeScopeTable = name)
    (isNew : ∀ tableObj, new = some tableObj →
      tableObj.codeScopeTable = name)
    (someTable : (before .tableId).rows[tab]? ≠ none ∨ new ≠ none) :
    (storeOf after).tables =
      ((storeOf before).putTable name
        (new.map fun tableObj => (tableObj.payer, tableObj.value))).tables := by
  have atTab : (after .tableId).rows[tab]? = new :=
    (entries tab).trans (if_pos rfl)
  have onlyHere : ∀ (tested : Int64) (tableObj : TableIdObject),
      tab ≠ tested → (before .tableId).rows[tested]? = some tableObj →
        tableObj.codeScopeTable ≠ name := by
    intro tested tableObj different found isName
    rcases someTable with isOld | isSome
    · rcases Option.ne_none_iff_exists'.mp isOld with ⟨oldTable, oldFound⟩
      have named : Named before tab name :=
        ⟨oldTable, oldFound, old oldTable oldFound⟩
      exact different (named.id_unique ⟨tableObj, found, isName⟩)
    · rcases Option.ne_none_iff_exists'.mp isSome with ⟨newTable, newFound⟩
      have named : Named after tab name :=
        ⟨newTable, atTab.trans newFound, isNew newTable newFound⟩
      have stays : (after .tableId).rows[tested]? = some tableObj :=
        ((entries tested).trans (if_neg different)).trans found
      exact different (named.id_unique ⟨tableObj, stays, isName⟩)
  funext testedName
  by_cases sameName : testedName = name
  · subst sameName
    simp only [ContractStore.putTable, Function.update_self]
    cases isSome : new with
    | some tableObj =>
        exact tables_eq_some_iff.mpr ⟨tab, tableObj, atTab.trans isSome,
          isNew tableObj isSome, rfl⟩
    | none =>
        apply tables_eq_none_iff.mpr
        intro tested named
        rcases named with ⟨tableObj, found, isName⟩
        rw [entries, isSome] at found
        split at found
        · cases found
        · exact onlyHere tested tableObj (by assumption) found isName
  · simp only [ContractStore.putTable, Function.update_of_ne sameName]
    apply Option.ext
    intro content
    rw [tables_eq_some_iff, tables_eq_some_iff]
    apply exists_congr
    intro tested
    apply exists_congr
    intro tableObj
    rw [entries]
    split
    · rename_i isTab
      constructor
      · intro held
        exact absurd (held.2.1.symm.trans (isNew tableObj held.1)) sameName
      · intro held
        exact absurd (held.2.1.symm.trans (old tableObj (isTab ▸ held.1)))
          sameName
    · rfl

/-- A table without rows comes or goes. -/
theorem rows_of_tables {tab : Int64}
    (entries : ∀ tested : Int64, tab ≠ tested →
      (after .tableId).rows[tested]? = (before .tableId).rows[tested]?)
    (sameRows : ∀ r : RowTable, after r.type = before r.type)
    (noRows : ∀ (r : RowTable) (id : (indexOf r.type).Id)
      (row : (indexOf r.type).Value),
      (before r.type).rows[id]? = some row → r.tId row ≠ tab) :
    (storeOf after).rows = (storeOf before).rows := by
  funext r key
  apply Option.ext
  intro content
  rw [rows_eq_some_iff, rows_eq_some_iff, sameRows]
  apply exists_congr
  intro id
  apply exists_congr
  intro row
  apply and_congr_right
  intro found
  have otherTable := noRows r id row found
  simp [HasKey, Named, entries _ (Ne.symm otherTable)]

end Changes

end StateDatabase
