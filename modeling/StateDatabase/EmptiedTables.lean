import Mathlib
import StateDatabase.CountRuns
import StateDatabase.Traversal

/-!
# Tables without rows

`db_remove_i64` removes a table with its last row, while `remove` of a
secondary index only counts.  So a table is there exactly as long as it has rows
if the last row of a table is never removed through a secondary index.
-/

namespace StateDatabase

open Programs GenericIndex EosDb

namespace EosDb

variable {eos : EosDb} {used : List Int64} {r : RowTable} {ndebug : Bool}

/-- A row of some row table belongs to the table of this name. -/
def HasRows (eos : EosDb) (name : TableName) : Prop :=
  ∃ (r : RowTable) (id : (indexOf r.type).Id) (row : (indexOf r.type).Value),
    (eos.db.rows r.type).rows[id]? = some row ∧ eos.HasName (r.tId row) name

/-- Every table that is stored has rows. -/
def NoneEmpty (eos : EosDb) : Prop :=
  ∀ tab : Int64, (eos.db.rows .tableId).rows[tab]? ≠ none →
    rowsOf eos.db.rows tab ≠ 0

/-- The row that an iterator leads to. -/
def rowBehind (ndebug : Bool) (r : RowTable) (iterator : Int) (eos : EosDb) :
    Option (indexOf r.type).Value :=
  EStateM.run' (getObject ndebug r iterator) eos

theorem hasName_stored {tab : Int64} {name : TableName}
    (hasName : eos.HasName tab name) :
    (eos.db.rows .tableId).rows[tab]? ≠ none := by
  obtain ⟨tableObj, found, _⟩ := hasName
  rw [found]
  exact Option.some_ne_none _

theorem hasRows_of_hasName {tab : Int64} {name : TableName}
    (noneEmpty : eos.NoneEmpty) (hasName : eos.HasName tab name) :
    eos.HasRows name := by
  by_contra noRows
  refine noneEmpty tab (hasName_stored hasName) (rowsOf_eq_zero_iff.mpr ?_)
  intro r id row found isTable
  exact noRows ⟨r, id, row, found, isTable ▸ hasName⟩

theorem dbEndI64_noTable {code : Name} {scope : Sha256} {table : Name}
    (ready : eos.db.Ready)
    (absent : eos.tableNamed (code, scope, table) = none) :
    dbEndI64 code scope table eos = .ok (-1) eos := by
  have lookup : (eos.db.rows .tableId).findBy TableIdObject.codeScopeTable
      (code, scope, table) = none := absent
  rw [dbEndI64, bind_apply_of_ok _ (findTable_apply ready code scope table),
    lookup]
  rfl

/-- The rows of the other tables are as many as before. -/
theorem Dropped.rowsOf_eq {db : Database eosDbTables}
    {id : (indexOf r.type).Id} {row : (indexOf r.type).Value}
    (dropped : eos.Dropped r id db)
    (found : (eos.db.rows r.type).rows[id]? = some row) (tab : Int64) :
    rowsOf eos.db.rows tab =
      rowsOf db.rows tab + if r.tId row = tab then 1 else 0 := by
  rw [rowsOf_dropped tab found]
  congr 1
  refine rowsOf_congr (fun t notTable => ?_) tab
  by_cases isRowTable : t = r.type
  · subst isRowTable
    rw [Function.update_self, dropped.rows]
  · rw [Function.update_of_ne isRowTable,
      dropped.otherRows t isRowTable notTable]

/-- The table of a stored row has that row. -/
theorem Stored.noneEmpty {name : TableName} {row : (indexOf r.type).Value}
    {address : Address} {iterator : Int} {final : EosDb}
    (stored : eos.Stored used r name row address iterator final)
    (noneEmpty : eos.NoneEmpty) : final.NoneEmpty := by
  intro tab live
  obtain ⟨tableObj, found⟩ := Option.ne_none_iff_exists'.mp live
  have number : rowsOf final.db.rows tab =
      rowsOf eos.db.rows tab + if r.tId row = tab then 1 else 0 :=
    congrFun stored.number tab
  rw [number]
  rcases (stored.names tab _).mp ⟨tableObj, found, rfl⟩ with
    before | ⟨isNew, _⟩
  · have positive := noneEmpty tab (hasName_stored before)
    omega
  · rw [if_pos isNew.symm]
    omega

/-- After a removal every table but that of the row has the rows it had. -/
theorem Dropped.noneEmpty {db : Database eosDbTables}
    {id : (indexOf r.type).Id} {row : (indexOf r.type).Value}
    (dropped : eos.Dropped r id db)
    (found : (eos.db.rows r.type).rows[id]? = some row)
    (noneEmpty : eos.NoneEmpty)
    (rowsLeft : (db.rows .tableId).rows[r.tId row]? ≠ none →
      rowsOf db.rows (r.tId row) ≠ 0) :
    ({ eos with db := db } : EosDb).NoneEmpty := by
  intro tab live
  change (db.rows .tableId).rows[tab]? ≠ none at live
  by_cases same : r.tId row = tab
  · subst same
    exact rowsLeft live
  · obtain ⟨tableObj, isTable⟩ := Option.ne_none_iff_exists'.mp live
    have positive := noneEmpty tab
      (hasName_stored (dropped.names tab tableObj isTable))
    have same := dropped.rowsOf_eq found tab
    rw [if_neg ‹_›] at same
    simp only
    omega

section Removal

variable {position : Nat} {address : Address} {tableObj : TableIdObject}
  {final : EosDb}

theorem Holds.dbRemoveI64_noneEmpty {id : Int64} {row : KeyValueObject}
    (holds : eos.Holds .keyValue position address id row tableObj)
    (consistent : eos.Consistent used) (noneEmpty : eos.NoneEmpty)
    (ran : EosDb.dbRemoveI64 ndebug position eos = .ok ⟨⟩ final)
    (removed : eos.Removed used .keyValue position address id final) :
    final.NoneEmpty := by
  refine removed.dropped.noneEmpty holds.found noneEmpty fun live => ?_
  obtain ⟨left, isLeft⟩ := Option.ne_none_iff_exists'.mp live
  have notZero := holds.dbRemoveI64_count consistent ran isLeft
  have counted := removed.consistent.balanced.counted _ left isLeft
  intro isZero
  exact notZero (UInt32.toNat_inj.mp (counted.trans isZero))

theorem Holds.idxRemove_noneEmpty {kind : IndexKind} {id : Int64}
    {row : IndexObject (SecondaryKey kind)}
    (holds : eos.Holds (.index kind) position address id row tableObj)
    (noneEmpty : eos.NoneEmpty)
    (notLast : rowsOf eos.db.rows row.tId ≠ 1)
    (removed : eos.Removed used (.index kind) position address id final) :
    final.NoneEmpty := by
  refine removed.dropped.noneEmpty holds.found noneEmpty fun _ => ?_
  have positive := noneEmpty row.tId (by
    have hasTable : (eos.db.rows .tableId).rows[row.tId]? = some tableObj :=
      holds.hasTable
    rw [hasTable]
    exact Option.some_ne_none _)
  have fewer : rowsOf eos.db.rows row.tId =
      rowsOf final.db.rows row.tId + if row.tId = row.tId then 1 else 0 :=
    removed.dropped.rowsOf_eq holds.found row.tId
  rw [if_pos rfl] at fewer
  change rowsOf final.db.rows row.tId ≠ 0
  omega

end Removal

end EosDb

namespace EosWithIterators

variable (sha : Bytes → Sha256) (ndebug : Bool)

/-! ## Runs -/

/-- The allocator returns vacant memory, and a new table does not get the id of
a table that is gone. -/
def Granted (traced : EosWithIterators) (r : RowTable) (name : TableName)
    (memory : Memory) : Prop :=
  (traced.eos.tableNamed name = none →
    traced.eos.TableBlock traced.tableIds memory.table) ∧
  traced.eos.Vacant r.type memory.row.address

instance (traced : EosWithIterators) (r : RowTable) (name : TableName)
    (memory : Memory) : Decidable (traced.Granted r name memory) := by
  unfold Granted
  infer_instance

/-- Stores and removals of rows. -/
def StoresOrRemoves (traced : EosWithIterators) : EosCall → Prop
  | .dbStoreI64 code scope table _ _ _ memory =>
      traced.Granted .keyValue (code, scope, table) memory
  | .idxStore kind code scope table _ _ _ memory =>
      traced.Granted (.index kind) (code, scope, table) memory
  | .dbRemoveI64 _ => True
  | .idxRemove _ _ => True
  | _ => False

/-- Stores and removals that succeed. -/
def Successful (traced : EosWithIterators) (call : EosCall) : Prop :=
  traced.StoresOrRemoves call ∧ Succeeds (call.program sha ndebug) traced.eos

/-- A table has room for a new row, and its last row is not removed through a
secondary index. -/
def LastThroughPrimary (traced : EosWithIterators) : EosCall → Prop
  | .dbStoreI64 code scope table _ _ _ _ =>
      ∀ tableObj ∈ traced.eos.tableNamed (code, scope, table),
        rowsOf traced.eos.db.rows tableObj.id + 1 < 2 ^ 32
  | .idxStore _ code scope table _ _ _ _ =>
      ∀ tableObj ∈ traced.eos.tableNamed (code, scope, table),
        rowsOf traced.eos.db.rows tableObj.id + 1 < 2 ^ 32
  | .idxRemove kind iterator =>
      ∀ row ∈ rowBehind ndebug (.index kind) iterator traced.eos,
        rowsOf traced.eos.db.rows row.tId ≠ 1
  | _ => True

instance (traced : EosWithIterators) (call : EosCall) :
    Decidable (traced.StoresOrRemoves call) := by
  apply @EosCall.casesOn
    (fun call => Decidable (traced.StoresOrRemoves call)) call <;>
      intros <;> unfold StoresOrRemoves <;> infer_instance

instance (traced : EosWithIterators) (call : EosCall) :
    Decidable (traced.Successful sha ndebug call) := by
  unfold Successful
  infer_instance

instance (traced : EosWithIterators) (call : EosCall) :
    Decidable (traced.LastThroughPrimary ndebug call) := by
  apply @EosCall.casesOn
    (fun call => Decidable (traced.LastThroughPrimary ndebug call)) call <;>
      intros <;> unfold LastThroughPrimary <;> infer_instance

variable {sha ndebug} {traced : EosWithIterators}

/-- Consistent, and no table is empty. -/
def Tidy (traced : EosWithIterators) : Prop :=
  traced.Sound ∧ traced.eos.NoneEmpty

theorem start_tidy (place : (t : TableType) → (indexOf t).Id → Address) :
    (start place).Tidy :=
  ⟨start_sound place, fun tab live =>
    absurd (MultiIndex.empty_row tab) live⟩

section Calls

variable {r : RowTable} {iterator : Int}

theorem tidy_store {code : Name} {scope : Sha256} {table payer : Name}
    {newRow : Int64 → (indexOf r.type).Value} {memory : Memory}
    (tidy : traced.Tidy)
    (granted : traced.Granted r (code, scope, table) memory)
    (few : ∀ tableObj ∈ traced.eos.tableNamed (code, scope, table),
      rowsOf traced.eos.db.rows tableObj.id + 1 < 2 ^ 32)
    (ofTable : ∀ tab, r.tId (newRow tab) = tab) {value : Int} {final : EosDb}
    (stored : storeRow r code scope table payer newRow memory traced.eos =
      .ok value final) (iterators : RowTable → List Int) :
    Tidy (traced.moved final iterators) := by
  obtain ⟨tab, isStored⟩ := (Consistent.ends_storeRow tidy.1 payer granted.1
    granted.2 few ofTable).of_ok stored
  exact ⟨isStored.consistent, isStored.noneEmpty tidy.2⟩

/-- A removal that succeeds has found a row. -/
theorem holds_of_removed {program : EosDbM PUnit} {final : EosDb}
    (tidy : traced.Tidy)
    (fails : ∀ fault, getObject ndebug r iterator traced.eos =
      .error fault traced.eos → program traced.eos = .error fault traced.eos)
    (ran : program traced.eos = .ok ⟨⟩ final) :
    ∃ (position : Nat) (address : Address) (id : (indexOf r.type).Id)
      (row : (indexOf r.type).Value) (tableObj : TableIdObject),
      iterator = position ∧
      traced.eos.Holds r position address id row tableObj := by
  rcases held_or_fault (traced.eos.caches r) ndebug iterator with
    ⟨position, address, isPosition, held⟩ | ⟨fault, failed, _⟩
  · obtain ⟨id, row, tableObj, holds⟩ := Consistent.holds tidy.1 held
    exact ⟨position, address, id, row, tableObj, isPosition, holds⟩
  · rw [fails fault (getObject_error failed)] at ran
    cases ran

theorem tidy_dbRemoveI64 {final : EosDb} (tidy : traced.Tidy)
    (ran : dbRemoveI64 ndebug iterator traced.eos = .ok ⟨⟩ final)
    (iterators : RowTable → List Int) :
    Tidy (traced.moved final iterators) := by
  obtain ⟨position, address, id, row, tableObj, rfl, holds⟩ :=
    holds_of_removed (r := .keyValue) tidy
      (fun fault failed => bind_apply_of_error _ failed) ran
  obtain ⟨reached, success, removed⟩ := holds.dbRemoveI64 tidy.1
  rw [ran] at success
  cases success
  exact ⟨removed.consistent.mono (List.subset_append_right _ _),
    holds.dbRemoveI64_noneEmpty tidy.1 tidy.2 ran removed⟩

theorem tidy_idxRemove {kind : IndexKind} {final : EosDb}
    (tidy : traced.Tidy)
    (notLast : ∀ row ∈ rowBehind ndebug (.index kind) iterator traced.eos,
      rowsOf traced.eos.db.rows row.tId ≠ 1)
    (ran : idxRemove ndebug kind iterator traced.eos = .ok ⟨⟩ final)
    (iterators : RowTable → List Int) :
    Tidy (traced.moved final iterators) := by
  obtain ⟨position, address, id, row, tableObj, rfl, holds⟩ :=
    holds_of_removed (r := .index kind) tidy
      (fun fault failed => bind_apply_of_error _ failed) ran
  obtain ⟨reached, success, removed⟩ := holds.idxRemove tidy.1
  rw [ran] at success
  cases success
  have behind : rowBehind ndebug (.index kind) position traced.eos =
      some row := by
    have got : getObject ndebug (.index kind) position traced.eos =
        .ok row traced.eos := holds.getObject tidy.1
    rw [rowBehind, EStateM.run', EStateM.run, got]
  exact ⟨removed.consistent.mono (List.subset_append_right _ _),
    holds.idxRemove_noneEmpty tidy.2 (notLast row behind) removed⟩

end Calls

theorem tidy_step {call : EosCall} (tidy : traced.Tidy)
    (permitted : traced.Successful sha ndebug call ∧
      traced.LastThroughPrimary ndebug call) :
    ∃ next, traced.step sha ndebug call = some next ∧ next.Tidy := by
  obtain ⟨⟨isCall, reply, final, ran⟩, lastThrough⟩ := permitted
  rw [step, Traced.step, ran]
  refine ⟨_, rfl, ?_⟩
  cases call with
  | dbStoreI64 code scope table payer id buffer memory =>
      obtain ⟨value, stored, _⟩ := map_apply_ok ran
      exact tidy_store (r := .keyValue) tidy isCall lastThrough (fun _ => rfl)
        stored _
  | idxStore kind code scope table payer id value memory =>
      obtain ⟨value, stored, _⟩ := map_apply_ok ran
      exact tidy_store (r := .index kind) tidy isCall lastThrough
        (fun _ => rfl) stored _
  | dbRemoveI64 iterator =>
      obtain ⟨_, removed, _⟩ := map_apply_ok ran
      exact tidy_dbRemoveI64 tidy removed _
  | idxRemove kind iterator =>
      obtain ⟨_, removed, _⟩ := map_apply_ok ran
      exact tidy_idxRemove tidy lastThrough removed _
  | _ => exact False.elim isCall

/-- In a run of stores and removals that succeed, in which no last row of a
table is removed through a secondary index, a table is there exactly when it has
rows, every row has a table, and lookups in a table without rows return -1. -/
theorem table_present_iff_hasRows (sha : Bytes → Sha256) (ndebug : Bool)
    (place : (t : TableType) → (indexOf t).Id → Address)
    (calls : List EosCall)
    (successful : Runs.AllowedFrom (step sha ndebug)
      (fun traced call => traced.Successful sha ndebug call) (start place)
      calls)
    (lastThrough : Runs.AllowedFrom (step sha ndebug)
      (fun traced call => traced.LastThroughPrimary ndebug call) (start place)
      calls) :
    ∃ final, Runs.run (step sha ndebug) (start place) calls = some final ∧
      (∀ name, final.eos.tableNamed name ≠ none ↔ final.eos.HasRows name) ∧
      (∀ (r : RowTable) (id : (indexOf r.type).Id)
        (row : (indexOf r.type).Value),
        (final.eos.db.rows r.type).rows[id]? = some row →
          ∃ name, final.eos.HasName (r.tId row) name) ∧
      ∀ code scope table, ¬ final.eos.HasRows (code, scope, table) →
        (∀ id, dbFindI64 code scope table id final.eos = .ok (-1) final.eos) ∧
        dbEndI64 code scope table final.eos = .ok (-1) final.eos := by
  obtain ⟨final, finished, sound, noneEmpty⟩ := Runs.run_invariant
    (fun _ _ tidy allowed => tidy_step tidy allowed) (start_tidy place)
    (successful.and lastThrough)
  have presence : ∀ name,
      final.eos.tableNamed name ≠ none ↔ final.eos.HasRows name := by
    intro name
    constructor
    · intro present
      obtain ⟨tableObj, named⟩ := Option.ne_none_iff_exists'.mp present
      exact hasRows_of_hasName noneEmpty (hasName_of_tableNamed named)
    · rintro ⟨r, id, row, _, hasName⟩ absent
      exact not_hasName_of_tableNamed absent _ hasName
  refine ⟨final, finished, presence, ?_, ?_⟩
  · intro r id row found
    obtain ⟨tableObj, hasTable⟩ := sound.balanced.owned r id row found
    exact ⟨tableObj.codeScopeTable, tableObj, hasTable, rfl⟩
  · intro code scope table noRows
    have absent : final.eos.tableNamed (code, scope, table) = none :=
      not_not.mp (mt (presence _).mp noRows)
    exact ⟨fun id => dbFindI64_noTable sound.ready absent,
      dbEndI64_noTable sound.ready absent⟩

/-- A row and an index row in one table; the index row is removed first. -/
def lastRowCalls : List EosCall :=
  [.dbStoreI64 ⟨1⟩ 2 ⟨3⟩ ⟨4⟩ 7 [10] ⟨⟨16, 5⟩, ⟨32, 0⟩⟩,
    .idxStore .idx64 ⟨1⟩ 2 ⟨3⟩ ⟨4⟩ 7 100 ⟨⟨48, 5⟩, ⟨64, 9⟩⟩,
    .idxRemove .idx64 0, .dbRemoveI64 0]

theorem table_present_iff_hasRows_lastRow :
    ∃ final, Runs.run (step (fun _ => 0) false) (start fun _ _ => 0)
        lastRowCalls = some final ∧
      ∀ name, final.eos.tableNamed name ≠ none ↔ final.eos.HasRows name := by
  obtain ⟨final, finished, presence, _⟩ :=
    table_present_iff_hasRows (fun _ => 0) false (fun _ _ => 0) lastRowCalls
      (by decide +kernel) (by decide +kernel)
  exact ⟨final, finished, presence⟩

/-- One index row is stored and removed: its table stays without rows, and a
lookup returns an end iterator. -/
theorem table_present_emptiedByIndex :
    Runs.AllowedFrom (step (fun _ => 0) false)
      (fun traced call => traced.Successful (fun _ => 0) false call)
      (start fun _ _ => 0)
      [.idxStore .idx64 ⟨1⟩ 2 ⟨3⟩ ⟨4⟩ 7 100 ⟨⟨48, 5⟩, ⟨64, 9⟩⟩,
        .idxRemove .idx64 0] ∧
    ∃ final, Runs.run (step (fun _ => 0) false) (start fun _ _ => 0)
        [.idxStore .idx64 ⟨1⟩ 2 ⟨3⟩ ⟨4⟩ 7 100 ⟨⟨48, 5⟩, ⟨64, 9⟩⟩,
          .idxRemove .idx64 0] = some final ∧
      final.eos.tableNamed (⟨1⟩, 2, ⟨3⟩) ≠ none ∧
      ¬ final.eos.HasRows (⟨1⟩, 2, ⟨3⟩) ∧
      EStateM.run' (dbFindI64 ⟨1⟩ 2 ⟨3⟩ 7) final.eos = some (-2) := by
  refine ⟨by decide +kernel, ?_⟩
  have test : (Runs.run (step (fun _ => 0) false) (start fun _ _ => 0)
      [.idxStore .idx64 ⟨1⟩ 2 ⟨3⟩ ⟨4⟩ 7 100 ⟨⟨48, 5⟩, ⟨64, 9⟩⟩,
        .idxRemove .idx64 0]).any (fun final =>
          decide (final.eos.tableNamed (⟨1⟩, 2, ⟨3⟩) ≠ none ∧
            final.eos.liveTables = [5] ∧ rowsOf final.eos.db.rows 5 = 0 ∧
            EStateM.run' (dbFindI64 ⟨1⟩ 2 ⟨3⟩ 7) final.eos = some (-2))) =
        true := by
    decide +kernel
  obtain ⟨final, finished, holds⟩ := (Option.any_eq_true _ _).mp test
  obtain ⟨present, isLive, noRows, lookup⟩ := of_decide_eq_true holds
  refine ⟨final, finished, present, ?_, lookup⟩
  rintro ⟨r, id, row, found, hasName⟩
  have live := mem_liveTables.mpr (hasName_stored hasName)
  rw [isLive, List.mem_singleton] at live
  exact rowsOf_eq_zero_iff.mp noRows r id row found live

end EosWithIterators

end StateDatabase
