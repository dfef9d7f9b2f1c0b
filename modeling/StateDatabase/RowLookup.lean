import Mathlib
import StateDatabase.IteratorCalls

/-!
# Rows by name

The rows of the primary table, looked up by the name of their table and their
primary key, and what each call does to this lookup.
-/

namespace StateDatabase

open Maps

namespace EosDb

variable {eos final : EosDb} {used : List Int64} {name : TableName}
  {id : UInt64} {row new : KeyValueObject} {rowId : Int64}

/-- A row is found by the name of its table and its key. -/
theorem rowOf_eq_some_iff :
    eos.rowOf name id = some row ↔
      eos.HasName row.tId name ∧
      (eos.db.rows .keyValue).rows[row.id]? = some row ∧
      row.primaryKey = id := by
  constructor
  · intro held
    obtain ⟨tableObj, named, inTable⟩ := Option.bind_eq_some_iff.mp held
    obtain ⟨found, isKey⟩ := MultiIndex.findBy_some inTable
    have isTable : row.tId = tableObj.id := congrArg Prod.fst isKey
    refine ⟨?_, found, congrArg Prod.snd isKey⟩
    rw [isTable]
    exact hasName_of_tableNamed named
  · rintro ⟨⟨tableObj, hasTable, isName⟩, found, isKey⟩
    have isTable : tableObj.id = row.tId :=
      (eos.db.rows .tableId).keyed hasTable
    rw [rowOf, tableNamed_of_row _ hasTable isName, Option.bind_some]
    refine MultiIndex.findBy_of_row
      (fun left right => (clash_keyValue_iff left right).mpr) found ?_
    rw [isTable, ← isKey]
    rfl

theorem rowOf_of_row (found : (eos.db.rows .keyValue).rows[rowId]? = some row)
    (hasName : eos.HasName row.tId name) :
    eos.rowOf name row.primaryKey = some row := by
  have isId : row.id = rowId := (eos.db.rows .keyValue).keyed found
  exact rowOf_eq_some_iff.mpr ⟨hasName, by rw [isId]; exact found, rfl⟩

/-- Lookups agree when they find the same rows. -/
theorem rowOf_congr {other : TableName} {key : UInt64}
    (agree : ∀ row : KeyValueObject, row.primaryKey = key →
      (final.HasName row.tId other ∧
          (final.db.rows .keyValue).rows[row.id]? = some row ↔
        eos.HasName row.tId other ∧
          (eos.db.rows .keyValue).rows[row.id]? = some row)) :
    final.rowOf other key = eos.rowOf other key := by
  apply Option.ext
  intro row
  rw [rowOf_eq_some_iff, rowOf_eq_some_iff, ← and_assoc, ← and_assoc]
  exact and_congr_left fun isKey => agree row isKey

/-- The table of a row that was there has the name that it had. -/
theorem Consistent.hasName_iff (consistent : eos.Consistent used)
    (names : ∀ (tab : Int64) (other : TableName),
      eos.HasName tab other → final.HasName tab other)
    (found : (eos.db.rows .keyValue).rows[rowId]? = some row)
    (other : TableName) :
    final.HasName row.tId other ↔ eos.HasName row.tId other := by
  refine ⟨fun hasName => ?_, names _ _⟩
  obtain ⟨tableObj, hasTable⟩ :=
    consistent.balanced.owned .keyValue rowId row found
  have before : eos.HasName row.tId tableObj.codeScopeTable :=
    ⟨tableObj, hasTable, rfl⟩
  rw [hasName.name_unique (names _ _ before)]
  exact before

/-- A new table changes no lookup. -/
theorem Located.rowOf {tab : Int64}
    (located : eos.Located used name tab final)
    (consistent : eos.Consistent used) (other : TableName) (key : UInt64) :
    final.rowOf other key = eos.rowOf other key := by
  refine rowOf_congr fun row _ => ?_
  rw [located.rows .keyValue nofun]
  refine and_congr_left fun found => ?_
  exact consistent.hasName_iff
    (fun _ _ before => (located.names _ _).mpr (Or.inl before)) found other

section Stored

variable {address : Address} {iterator : Int}

theorem Stored.hasName
    (stored : eos.Stored used .keyValue name row address iterator final) :
    final.HasName row.tId name :=
  (stored.names _ _).mpr (Or.inr ⟨rfl, rfl⟩)

theorem Stored.found
    (stored : eos.Stored used .keyValue name row address iterator final) :
    (final.db.rows .keyValue).rows[row.id]? = some row :=
  (stored.rows row.id).trans (if_pos rfl)

/-- A row that was there is still there. -/
theorem Stored.keeps {old : KeyValueObject}
    (stored : eos.Stored used .keyValue name row address iterator final)
    (found : (eos.db.rows .keyValue).rows[rowId]? = some old) :
    row.id ≠ rowId ∧ (final.db.rows .keyValue).rows[rowId]? = some old := by
  have different : row.id ≠ rowId := by
    rintro rfl
    have absent : (eos.db.rows .keyValue).rows[row.id]? = none := stored.absent
    rw [absent] at found
    cases found
  exact ⟨different, ((stored.rows rowId).trans (if_neg different)).trans found⟩

/-- A stored row was not there before. -/
theorem Stored.rowOf_before
    (stored : eos.Stored used .keyValue name row address iterator final) :
    eos.rowOf name row.primaryKey = none := by
  cases before : eos.rowOf name row.primaryKey with
  | none => rfl
  | some old =>
      obtain ⟨oldName, oldFound, sameKey⟩ := rowOf_eq_some_iff.mp before
      obtain ⟨different, oldStays⟩ := stored.keeps oldFound
      have sameTable : old.tId = row.tId :=
        ((stored.names _ _).mpr (Or.inl oldName)).id_unique stored.hasName
      -- both rows would have the same key in the same table
      have clash : keyValueIndex.Clash row old :=
        (clash_keyValue_iff row old).mpr (Prod.ext sameTable.symm sameKey.symm)
      exact absurd ((final.db.rows .keyValue).unique stored.found oldStays clash)
        different

theorem Stored.rowOf
    (stored : eos.Stored used .keyValue name row address iterator final)
    (consistent : eos.Consistent used) (other : TableName) (key : UInt64) :
    final.rowOf other key =
      if other = name ∧ key = row.primaryKey then some row
      else eos.rowOf other key := by
  split
  · rename_i same
    rw [same.1, same.2]
    exact rowOf_of_row stored.found stored.hasName
  · rename_i different
    refine rowOf_congr fun tested isKey => ?_
    constructor
    · rintro ⟨hasName, found⟩
      rw [stored.rows] at found
      split at found
      · cases found
        exact absurd ⟨hasName.name_unique stored.hasName, isKey.symm⟩ different
      · refine ⟨?_, found⟩
        exact (consistent.hasName_iff
          (fun _ _ before => (stored.names _ _).mpr (Or.inl before)) found
          other).mp hasName
    · rintro ⟨hasName, found⟩
      exact ⟨(stored.names _ _).mpr (Or.inl hasName), (stored.keeps found).2⟩

end Stored

/-- A changed row is found under the same name and key. -/
theorem Rewritten.rowOf
    (rewritten : eos.Rewritten used .keyValue rowId new final)
    (found : (eos.db.rows .keyValue).rows[rowId]? = some row)
    (hasName : eos.HasName row.tId name)
    (sameKey : new.scopePrimary = row.scopePrimary)
    (other : TableName) (key : UInt64) :
    final.rowOf other key =
      if other = name ∧ key = row.primaryKey then some new
      else eos.rowOf other key := by
  have sameTable : new.tId = row.tId := congrArg Prod.fst sameKey
  have samePrimary : new.primaryKey = row.primaryKey := congrArg Prod.snd sameKey
  have names : ∀ tab other, final.HasName tab other ↔ eos.HasName tab other := by
    intro tab other
    rw [HasName, rewritten.tables, HasName]
  split
  · rename_i same
    rw [same.1, same.2, ← samePrimary]
    refine rowOf_of_row
      ((rewritten.rows rowId).trans (if_pos rfl)) ?_
    rw [names, sameTable]
    exact hasName
  · rename_i different
    refine rowOf_congr fun tested isKey => ?_
    rw [names]
    refine and_congr_right fun testedName => ?_
    have notRow : ∀ candidate : KeyValueObject,
        candidate.scopePrimary = row.scopePrimary → tested ≠ candidate := by
      rintro candidate isCandidate rfl
      have inTable : tested.tId = row.tId := congrArg Prod.fst isCandidate
      have isPrimary : tested.primaryKey = row.primaryKey :=
        congrArg Prod.snd isCandidate
      rw [inTable] at testedName
      exact different ⟨testedName.name_unique hasName,
        isKey.symm.trans isPrimary⟩
    rw [rewritten.rows]
    by_cases same : rowId = tested.id
    · rw [if_pos same, ← same, found, Option.some.injEq, Option.some.injEq]
      exact ⟨fun isNew => absurd isNew.symm (notRow new sameKey),
        fun isRow => absurd isRow.symm (notRow row rfl)⟩
    · rw [if_neg same]

/-- A removed row is found no more. -/
theorem Removed.rowOf {position : Nat} {address : Address}
    (removed : eos.Removed used .keyValue position address rowId final)
    (found : (eos.db.rows .keyValue).rows[rowId]? = some row)
    (hasName : eos.HasName row.tId name) (other : TableName) (key : UInt64) :
    final.rowOf other key =
      if other = name ∧ key = row.primaryKey then none
      else eos.rowOf other key := by
  have fewerNames : ∀ tab other, final.HasName tab other →
      eos.HasName tab other := by
    rintro tab other ⟨tableObj, hasTable, rfl⟩
    exact removed.dropped.names tab tableObj hasTable
  have erased : ∀ tested : Int64,
      (final.db.rows .keyValue).rows[tested]? =
        if rowId = tested then none
        else (eos.db.rows .keyValue).rows[tested]? := by
    intro tested
    rw [show final.db.rows .keyValue = _ from removed.dropped.rows]
    exact MultiIndex.erase_row _ _ _
  split
  · rename_i same
    rw [same.1, same.2]
    cases after : final.rowOf name row.primaryKey with
    | none => rfl
    | some tested =>
        obtain ⟨testedName, stays, sameKey⟩ := rowOf_eq_some_iff.mp after
        rw [erased] at stays
        split at stays
        · cases stays
        · rename_i different
          have sameTable := (fewerNames _ _ testedName).id_unique hasName
          have clash : keyValueIndex.Clash row tested :=
            (clash_keyValue_iff row tested).mpr
              (Prod.ext sameTable.symm sameKey.symm)
          exact absurd ((eos.db.rows .keyValue).unique found stays clash)
            different
  · rename_i different
    refine rowOf_congr fun tested isKey => ?_
    rw [erased]
    constructor
    · rintro ⟨testedName, stays⟩
      split at stays
      · cases stays
      · exact ⟨fewerNames _ _ testedName, stays⟩
    · rintro ⟨testedName, isRow⟩
      have otherRow : rowId ≠ tested.id := by
        intro same
        rw [← same, found] at isRow
        cases isRow
        exact different ⟨testedName.name_unique hasName, isKey.symm⟩
      rw [if_neg otherRow]
      refine ⟨?_, isRow⟩
      -- the table of a row that stays is still stored
      have stays : (final.db.rows .keyValue).rows[tested.id]? = some tested := by
        rw [erased, if_neg otherRow]
        exact isRow
      obtain ⟨tableObj, hasTable⟩ :=
        removed.consistent.balanced.owned .keyValue tested.id tested stays
      have after : final.HasName tested.tId tableObj.codeScopeTable :=
        ⟨tableObj, hasTable, rfl⟩
      rw [testedName.name_unique (fewerNames _ _ after)]
      exact after

end EosDb

end StateDatabase
