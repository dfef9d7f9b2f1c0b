import Mathlib
import StateDatabase.EosDbSteps

/-!
# Counts of tables

The count of a table is kept by hand, next to the rows.  It is right when it is
the number of rows of the primary table and of the three secondary indices that
name the table.  This module says how the changes that `eos_db` makes to the
rows and the counts keep it right; how a change finds its table is left to
later modules.
-/

namespace StateDatabase

open Maps

/-- The rows of all tables. -/
abbrev Contents := (t : TableType) → MultiIndex (indexOf t)

/-- The row tables. -/
def RowTable.all : List RowTable :=
  [.keyValue, .index .idx64, .index .idx128, .index .idx256]

/-- The number of rows that belong to a table. -/
def rowsOf (contents : Contents) (tab : Int64) : Nat :=
  (RowTable.all.map fun r =>
    (contents r.type).countIf fun row => r.tId row = tab).sum

/-- Every row belongs to a table, and every table counts its rows. -/
structure Balanced (contents : Contents) : Prop where
  owned : ∀ (r : RowTable) (id : (indexOf r.type).Id)
    (row : (indexOf r.type).Value),
    (contents r.type).rows[id]? = some row →
      ∃ tableObj, (contents .tableId).rows[r.tId row]? = some tableObj
  counted : ∀ (tab : Int64) (tableObj : TableIdObject),
    (contents .tableId).rows[tab]? = some tableObj →
      tableObj.count.toNat = rowsOf contents tab

variable {contents : Contents} {tab : Int64}

/-! ## Numbers of rows -/

@[simp]
theorem rowsOf_update_tableId (tables : MultiIndex tableIdMultiIndex) :
    rowsOf (Function.update contents .tableId tables) tab =
      rowsOf contents tab := by
  refine congrArg List.sum (List.map_congr_left fun r _ => ?_)
  rw [Function.update_of_ne (EosDb.type_ne_tableId r)]

theorem mem_all (r : RowTable) : r ∈ RowTable.all := by
  cases r with
  | keyValue => decide
  | index kind => cases kind <;> decide

/-- A sum in which one summand has changed. -/
theorem sum_map_changed {α : Type} {changed : α} {f g : α → Nat}
    (others : ∀ item, item ≠ changed → g item = f item) :
    ∀ {items : List α}, items.Nodup → changed ∈ items →
      (items.map g).sum + f changed = (items.map f).sum + g changed
  | item :: rest, nodup, member => by
      obtain ⟨notInRest, restNodup⟩ := List.nodup_cons.mp nodup
      simp only [List.map_cons, List.sum_cons]
      rcases List.mem_cons.mp member with isHead | inRest
      · subst isHead
        have sameRest : rest.map g = rest.map f :=
          List.map_congr_left fun other inRest =>
            others other fun same => notInRest (same ▸ inRest)
        rw [sameRest]
        omega
      · have different : item ≠ changed := fun same => notInRest (same ▸ inRest)
        have smaller := sum_map_changed others restNodup inRest
        rw [others item different]
        omega

theorem type_injective {left right : RowTable}
    (same : left.type = right.type) : left = right := by
  cases left with
  | keyValue =>
      cases right with
      | keyValue => rfl
      | index kind => cases same
  | index kind =>
      cases right with
      | keyValue => cases same
      | index other =>
          cases same
          rfl

/-- The number after one row table has changed. -/
theorem rowsOf_update (contents : Contents) (tab : Int64) (r : RowTable) (rows : MultiIndex (indexOf r.type)) :
    rowsOf (Function.update contents r.type rows) tab +
        (contents r.type).countIf (fun row => r.tId row = tab) =
      rowsOf contents tab + rows.countIf fun row => r.tId row = tab := by
  have changed := sum_map_changed
    (f := fun r => (contents r.type).countIf fun row => r.tId row = tab)
    (g := fun other => (Function.update contents r.type rows other.type).countIf
      fun row => other.tId row = tab) ?_ (by decide) (mem_all r)
  · rw [Function.update_self] at changed
    exact changed
  · intro other different
    rw [Function.update_of_ne fun same => different (type_injective same)]

/-- A table without rows. -/
theorem rowsOf_eq_zero_iff :
    rowsOf contents tab = 0 ↔
      ∀ (r : RowTable) (id : (indexOf r.type).Id)
        (row : (indexOf r.type).Value),
        (contents r.type).rows[id]? = some row → r.tId row ≠ tab := by
  unfold rowsOf
  rw [List.sum_eq_zero_iff]
  constructor
  · intro zero r id row found
    have none := zero _ (List.mem_map_of_mem (mem_all r))
    simpa using MultiIndex.countIf_eq_zero_iff.mp none id row found
  · intro noRow number member
    obtain ⟨r, _, rfl⟩ := List.mem_map.mp member
    rw [MultiIndex.countIf_eq_zero_iff]
    intro id row found
    simpa using noRow r id row found

theorem rowsOf_pos {r : RowTable} {id : (indexOf r.type).Id}
    {row : (indexOf r.type).Value}
    (found : (contents r.type).rows[id]? = some row) :
    0 < rowsOf contents (r.tId row) := by
  by_contra isZero
  exact rowsOf_eq_zero_iff.mp (by omega) r id row found rfl

/-- No row belongs to a table that is not stored. -/
theorem Balanced.rowsOf_of_gone (balanced : Balanced contents)
    (gone : (contents .tableId).rows[tab]? = none) :
    rowsOf contents tab = 0 := by
  rw [rowsOf_eq_zero_iff]
  rintro r id row found rfl
  obtain ⟨tableObj, hasTable⟩ := balanced.owned r id row found
  rw [gone] at hasTable
  cases hasTable

section Changes

variable {r : RowTable} {row : (indexOf r.type).Value}
  {id : (indexOf r.type).Id} {rows : MultiIndex (indexOf r.type)}
  {tables : MultiIndex tableIdMultiIndex} {tableObj : TableIdObject}

theorem rowsOf_stored
    (success : (contents r.type).emplace row = some rows) :
    rowsOf (Function.update contents r.type rows) tab =
      rowsOf contents tab + if r.tId row = tab then 1 else 0 := by
  obtain ⟨absent, entries⟩ := MultiIndex.emplace_some success
  have total := rowsOf_update contents tab r rows
  have inserted := MultiIndex.countIf_insert
    (fun row => decide (r.tId row = tab)) absent entries
  simp only [decide_eq_true_eq] at inserted
  omega

theorem rowsOf_dropped (tab : Int64)
    (found : (contents r.type).rows[id]? = some row) :
    rowsOf contents tab =
      rowsOf (Function.update contents r.type
        ((contents r.type).erase id)) tab +
        if r.tId row = tab then 1 else 0 := by
  have total := rowsOf_update contents tab r
    ((contents r.type).erase id)
  have erased := MultiIndex.countIf_erase
    (fun row => decide (r.tId row = tab)) found
  simp only [decide_eq_true_eq] at erased
  omega

theorem rowsOf_changed {new : (indexOf r.type).Value}
    (found : (contents r.type).rows[id]? = some row)
    (sameTable : r.tId new = r.tId row)
    (entries : ∀ tested : (indexOf r.type).Id, rows.rows[tested]? =
      if id = tested then some new else (contents r.type).rows[tested]?) :
    rowsOf (Function.update contents r.type rows) tab =
      rowsOf contents tab := by
  have total := rowsOf_update contents tab r rows
  have replaced := MultiIndex.countIf_replace
    (fun row => decide (r.tId row = tab)) found
    (by simp only [sameTable]) entries
  omega

/-! ## Changes -/

namespace Balanced

/-- A new table has no rows. -/
theorem tableCreated (balanced : Balanced contents)
    (success : (contents .tableId).emplace tableObj = some tables)
    (noRows : tableObj.count = 0) :
    Balanced (Function.update contents .tableId tables) := by
  obtain ⟨absent, entries⟩ := MultiIndex.emplace_some success
  constructor
  · intro r id row found
    rw [Function.update_of_ne (EosDb.type_ne_tableId r)] at found
    obtain ⟨owner, isOwner⟩ := balanced.owned r id row found
    rw [Function.update_self, entries]
    split
    · exact ⟨tableObj, rfl⟩
    · exact ⟨owner, isOwner⟩
  · intro tab counted found
    rw [Function.update_self, entries] at found
    rw [rowsOf_update_tableId]
    split at found
    · rename_i isNew
      cases found
      rw [noRows, UInt32.toNat_zero, ← isNew]
      exact (balanced.rowsOf_of_gone absent).symm
    · exact balanced.counted tab counted found

/-- A table without rows can go. -/
theorem tableRemoved (balanced : Balanced contents)
    (found : (contents .tableId).rows[tab]? = some tableObj)
    (noRows : tableObj.count = 0) :
    Balanced (Function.update contents .tableId
      ((contents .tableId).erase tab)) := by
  have isEmpty : rowsOf contents tab = 0 := by
    rw [← balanced.counted tab tableObj found, noRows, UInt32.toNat_zero]
  constructor
  · intro r id row isRow
    rw [Function.update_of_ne (EosDb.type_ne_tableId r)] at isRow
    have different := rowsOf_eq_zero_iff.mp isEmpty r id row isRow
    rw [Function.update_self, MultiIndex.erase_row, if_neg different.symm]
    exact balanced.owned r id row isRow
  · intro tested counted isCounted
    rw [Function.update_self, MultiIndex.erase_row] at isCounted
    rw [rowsOf_update_tableId]
    split at isCounted
    · cases isCounted
    · exact balanced.counted tested counted isCounted

/-- A table can change in anything but its count. -/
theorem tableChanged {new : TableIdObject} (balanced : Balanced contents)
    (found : (contents .tableId).rows[tab]? = some tableObj)
    (sameCount : new.count = tableObj.count)
    (entries : ∀ tested : Int64, tables.rows[tested]? =
      if tab = tested then some new else (contents .tableId).rows[tested]?) :
    Balanced (Function.update contents .tableId tables) := by
  constructor
  · intro r id row isRow
    rw [Function.update_of_ne (EosDb.type_ne_tableId r)] at isRow
    rw [Function.update_self, entries]
    split
    · exact ⟨new, rfl⟩
    · exact balanced.owned r id row isRow
  · intro tested counted isCounted
    rw [Function.update_self, entries] at isCounted
    rw [rowsOf_update_tableId]
    split at isCounted
    · rename_i same
      cases isCounted
      rw [sameCount, ← same]
      exact balanced.counted tab tableObj found
    · exact balanced.counted tested counted isCounted

/-- A row can change in anything but its table. -/
theorem rowChanged {new : (indexOf r.type).Value}
    (balanced : Balanced contents)
    (found : (contents r.type).rows[id]? = some row)
    (sameTable : r.tId new = r.tId row)
    (entries : ∀ tested : (indexOf r.type).Id, rows.rows[tested]? =
      if id = tested then some new else (contents r.type).rows[tested]?) :
    Balanced (Function.update contents r.type rows) := by
  have sameTables : Function.update contents r.type rows .tableId =
      contents .tableId :=
    Function.update_of_ne (EosDb.type_ne_tableId r).symm _ _
  constructor
  · intro other otherId otherRow isRow
    rw [sameTables]
    by_cases same : other = r
    · subst same
      rw [Function.update_self, entries] at isRow
      split at isRow
      · cases isRow
        rw [sameTable]
        exact balanced.owned other id row found
      · exact balanced.owned other otherId otherRow isRow
    · rw [Function.update_of_ne fun sameType =>
        same (type_injective sameType)] at isRow
      exact balanced.owned other otherId otherRow isRow
  · intro tab counted isCounted
    rw [sameTables] at isCounted
    rw [rowsOf_changed found sameTable entries]
    exact balanced.counted tab counted isCounted

/-- A row is stored and its table counts it. -/
theorem rowStored (balanced : Balanced contents)
    (hasTable : (contents .tableId).rows[r.tId row]? = some tableObj)
    (success : (contents r.type).emplace row = some rows)
    (few : rowsOf contents (r.tId row) + 1 < 2 ^ 32)
    (entries : ∀ tested : Int64, tables.rows[tested]? =
      if r.tId row = tested then
        some { tableObj with count := tableObj.count + 1 }
      else (contents .tableId).rows[tested]?) :
    Balanced (Function.update
      (Function.update contents r.type rows) .tableId tables) := by
  obtain ⟨_, rowEntries⟩ := MultiIndex.emplace_some success
  have tablesStay : ∀ (tab : Int64) (tableObj : TableIdObject),
      (contents .tableId).rows[tab]? = some tableObj →
        ∃ found, tables.rows[tab]? = some found := by
    intro tab tableObj isTable
    rw [entries]
    split
    · exact ⟨_, rfl⟩
    · exact ⟨tableObj, isTable⟩
  constructor
  · intro other otherId otherRow isRow
    rw [Function.update_of_ne (EosDb.type_ne_tableId other)] at isRow
    rw [Function.update_self]
    by_cases same : other = r
    · subst same
      rw [Function.update_self, rowEntries] at isRow
      split at isRow
      · cases isRow
        exact tablesStay _ _ hasTable
      · obtain ⟨owner, isOwner⟩ := balanced.owned other otherId otherRow isRow
        exact tablesStay _ owner isOwner
    · rw [Function.update_of_ne fun sameType =>
        same (type_injective sameType)] at isRow
      obtain ⟨owner, isOwner⟩ := balanced.owned other otherId otherRow isRow
      exact tablesStay _ owner isOwner
  · intro tab counted isCounted
    rw [Function.update_self, entries] at isCounted
    rw [rowsOf_update_tableId, rowsOf_stored success]
    split at isCounted
    · rename_i same
      subst same
      cases isCounted
      have before := balanced.counted _ tableObj hasTable
      rw [if_pos rfl, ← before, UInt32.toNat_add, UInt32.toNat_one]
      exact Nat.mod_eq_of_lt (by omega)
    · rename_i different
      rw [if_neg different, Nat.add_zero]
      exact balanced.counted tab counted isCounted

/-- A row goes and its table counts it no more. -/
theorem rowDropped (balanced : Balanced contents)
    (found : (contents r.type).rows[id]? = some row)
    (hasTable : (contents .tableId).rows[r.tId row]? = some tableObj)
    (entries : ∀ tested : Int64, tables.rows[tested]? =
      if r.tId row = tested then
        some { tableObj with count := tableObj.count - 1 }
      else (contents .tableId).rows[tested]?) :
    Balanced (Function.update (Function.update contents .tableId tables) r.type
      ((contents r.type).erase id)) := by
  rw [Function.update_comm (EosDb.type_ne_tableId r).symm]
  constructor
  · intro other otherId otherRow isRow
    rw [Function.update_of_ne (EosDb.type_ne_tableId other)] at isRow
    have isOld : (contents other.type).rows[otherId]? = some otherRow := by
      by_cases same : other = r
      · subst same
        rw [Function.update_self, MultiIndex.erase_row] at isRow
        split at isRow
        · cases isRow
        · exact isRow
      · rwa [Function.update_of_ne fun sameType =>
          same (type_injective sameType)] at isRow
    rw [Function.update_self, entries]
    split
    · exact ⟨_, rfl⟩
    · exact balanced.owned other otherId otherRow isOld
  · intro tab counted isCounted
    rw [Function.update_self, entries] at isCounted
    rw [rowsOf_update_tableId]
    have before := rowsOf_dropped tab found
    split at isCounted
    · rename_i same
      subst same
      cases isCounted
      have total := balanced.counted _ tableObj hasTable
      rw [if_pos rfl] at before
      have positive : (1 : UInt32) ≤ tableObj.count := by
        rw [UInt32.le_iff_toNat_le, UInt32.toNat_one]
        omega
      rw [UInt32.toNat_sub_of_le _ _ positive, UInt32.toNat_one]
      omega
    · rename_i different
      rw [if_neg different, Nat.add_zero] at before
      rw [← before]
      exact balanced.counted tab counted isCounted

end Balanced

end Changes

theorem emptyTables_balanced : Balanced emptyTables.rows where
  owned := by
    intro r id row found
    rw [show (emptyTables.rows r.type).rows[id]? = none from
      MultiIndex.empty_row id] at found
    cases found
  counted := by
    intro tab tableObj found
    rw [show (emptyTables.rows .tableId).rows[tab]? = none from
      MultiIndex.empty_row tab] at found
    cases found

end StateDatabase
