import Mathlib
import StateDatabase.IteratorCalls

/-!
# Values of tables

A `table_id_object` holds both the value that `db_store_by_scope` writes and the
count of its rows.  The calls on rows change the count only, but `db_remove_i64`
removes the object when the count is zero, and the value goes with it.  In every
other case the value stays.

Nothing is assumed about the caches and the addresses here: a call through an
iterator may find any table.
-/

namespace StateDatabase

open Programs GenericIndex

namespace EosDb

variable {eos final : EosDb} {ndebug : Bool} {r : RowTable} {name : TableName}
  {payer : Name} {value : Bytes}

/-- The table of this name has this payer and value. -/
def Keeps (name : TableName) (payer : Name) (value : Bytes) (eos : EosDb) :
    Prop :=
  eos.db.Ready ∧ ∃ (tab : Int64) (tableObj : TableIdObject),
    (eos.db.rows .tableId).rows[tab]? = some tableObj ∧
    tableObj.codeScopeTable = name ∧ tableObj.payer = payer ∧
    tableObj.value = value

theorem Keeps.findTable {code : Name} {scope : Sha256} {table : Name}
    (keeps : eos.Keeps (code, scope, table) payer value) :
    ∃ tableObj, EosDb.findTable code scope table eos =
        .ok (some tableObj) eos ∧
      tableObj.payer = payer ∧ tableObj.value = value := by
  obtain ⟨ready, tab, tableObj, found, isName, isPayer, isValue⟩ := keeps
  refine ⟨tableObj, ?_, isPayer, isValue⟩
  have named := tableNamed_of_row tab found isName
  rw [findTable_apply ready]
  exact congrArg (fun lookup => EStateM.Result.ok lookup eos) named

theorem keeps_of_tables (keeps : eos.Keeps name payer value)
    (ready : final.db.Ready)
    (same : final.db.rows .tableId = eos.db.rows .tableId) :
    final.Keeps name payer value := by
  refine ⟨ready, ?_⟩
  rw [same]
  exact keeps.2

/-- One table may have another count. -/
theorem keeps_of_count {tab : Int64} {tableObj : TableIdObject}
    {count : UInt32} (keeps : eos.Keeps name payer value)
    (ready : final.db.Ready)
    (hasTable : (eos.db.rows .tableId).rows[tab]? = some tableObj)
    (entries : ∀ tested : Int64, (final.db.rows .tableId).rows[tested]? =
      if tab = tested then some { tableObj with count := count }
      else (eos.db.rows .tableId).rows[tested]?) :
    final.Keeps name payer value := by
  obtain ⟨_, kept, keptObj, found, isName, isPayer, isValue⟩ := keeps
  refine ⟨ready, kept, ?_⟩
  rw [entries]
  by_cases same : tab = kept
  · subst same
    rw [hasTable] at found
    cases found
    rw [if_pos rfl]
    exact ⟨_, rfl, isName, isPayer, isValue⟩
  · rw [if_neg same]
    exact ⟨keptObj, found, isName, isPayer, isValue⟩

/-- A new object leaves the tables that are there alone. -/
theorem keeps_of_created {t : TableType} {new : (indexOf t).Value}
    {inserted : MultiIndex (indexOf t)} {db : Database eosDbTables}
    (keeps : eos.Keeps name payer value)
    (success : (eos.db.rows t).emplace new = some inserted)
    (wrote : Database.Wrote t inserted eos.db db)
    (isFinal : final.db = db) :
    final.Keeps name payer value := by
  subst isFinal
  by_cases isTable : t = .tableId
  · subst isTable
    obtain ⟨unused, entries⟩ := MultiIndex.emplace_some success
    obtain ⟨_, kept, keptObj, found, holds⟩ := keeps
    refine ⟨wrote.ready, kept, keptObj, ?_, holds⟩
    rw [wrote.rows, Function.update_self, entries, if_neg]
    · exact found
    · intro same
      rw [← same, unused] at found
      cases found
  · apply keeps_of_tables keeps wrote.ready
    rw [wrote.rows, Function.update_of_ne (Ne.symm isTable)]

/-! ## Writing the value -/

section Writes

variable {code : Name} {scope : Sha256} {table : Name}

theorem keeps_dbStoreByScope {block : Block} {tab : Int64}
    (ready : eos.db.Ready)
    (created : dbStoreByScope code scope table payer value block eos =
      .ok tab final) :
    final.Keeps (code, scope, table) payer value := by
  cases attempt : (eos.db.rows .tableId).emplace
      (newTable code scope table payer value block) with
  | none =>
      rw [dbStoreByScope, bind_apply_of_error _ (create_none ready attempt)]
        at created
      cases created
  | some inserted =>
      obtain ⟨db, success, wrote⟩ := create_some ready attempt
      rw [dbStoreByScope, bind_apply_of_ok _ success] at created
      cases created
      refine ⟨wrote.ready, block.unset,
        newTable code scope table payer value block, ?_, rfl, rfl, rfl⟩
      simp only [wrote.rows, Function.update_self]
      exact ((MultiIndex.emplace_some attempt).2 _).trans (if_pos rfl)

theorem keeps_dbUpdateByScope {tableObj : TableIdObject}
    (ready : eos.db.Ready) (named : eos.tableNamed name = some tableObj)
    (changed : dbUpdateByScope tableObj.id payer value eos = .ok ⟨⟩ final) :
    final.Keeps name payer value := by
  obtain ⟨found, isName⟩ := row_of_tableNamed named
  obtain ⟨db, modified, success, wrote, entries⟩ :=
    modify_of_interchangeable (t := .tableId)
      (fun t => { t with value := value, payer := payer }) ready found
      (interchangeable_scope tableObj payer value)
  rw [dbUpdateByScope, success] at changed
  cases changed
  refine ⟨wrote.ready, tableObj.id,
    { tableObj with value := value, payer := payer }, ?_, isName, rfl, rfl⟩
  simp only [wrote.rows, Function.update_self]
  exact (entries _).trans (if_pos rfl)

end Writes

/-! ## Storing rows -/

section Stores

variable {code : Name} {scope : Sha256} {table sender : Name}
  {newRow : Int64 → (indexOf r.type).Value} {memory : Memory}

theorem keeps_findOrCreateTable (keeps : eos.Keeps name payer value) :
    Ends (findOrCreateTable code scope table sender memory.table) eos
      (fun tab final => final.Keeps name payer value ∧
        ∃ tableObj, (final.db.rows .tableId).rows[tab]? = some tableObj)
      (fun _ final => final.Keeps name payer value) := by
  have ready := keeps.1
  cases found : (eos.db.rows .tableId).findBy TableIdObject.codeScopeTable
      (code, scope, table) with
  | some existing =>
      exact ends_of_ok (findOrCreateTable_found ready found)
        ⟨keeps, existing, (MultiIndex.findBy_some found).1⟩
  | none =>
      cases attempt : (eos.db.rows .tableId).emplace
          (newTable code scope table sender [] memory.table) with
      | none =>
          exact ends_of_error (findOrCreateTable_refused ready found attempt)
            keeps
      | some inserted =>
          obtain ⟨db, created, wrote⟩ :=
            findOrCreateTable_created ready found attempt
          refine ends_of_ok created
            ⟨keeps_of_created keeps attempt wrote rfl,
              newTable code scope table sender [] memory.table, ?_⟩
          simp only [wrote.rows, Function.update_self]
          exact ((MultiIndex.emplace_some attempt).2 _).trans (if_pos rfl)

theorem keeps_storeRow (keeps : eos.Keeps name payer value) :
    Ends (storeRow r code scope table sender newRow memory) eos
      (fun _ final => final.Keeps name payer value)
      (fun _ final => final.Keeps name payer value) := by
  have locates : Ends (findOrCreateTable code scope table sender memory.table)
      eos _ _ := keeps_findOrCreateTable keeps
  cases attempt : findOrCreateTable code scope table sender memory.table eos with
  | error fault located =>
      exact ends_of_error (storeRow_error attempt) (locates.of_error attempt)
  | ok tab located =>
      obtain ⟨locatedKeeps, tableObj, hasTable⟩ := locates.of_ok attempt
      cases emplaced : (located.db.rows r.type).emplace (newRow tab) with
      | none =>
          exact ends_of_error
            (storeRow_refused attempt locatedKeeps.1 emplaced) locatedKeeps
      | some inserted =>
          obtain ⟨db, counted, stored, ready, rows, counts⟩ :=
            storeRow_ok attempt locatedKeeps.1 hasTable emplaced
          have entries : ∀ tested : Int64, (db.rows .tableId).rows[tested]? =
              if tab = tested then
                some { tableObj with count := tableObj.count + 1 }
              else (located.db.rows .tableId).rows[tested]? := by
            intro tested
            rw [rows, Function.update_self]
            exact counts tested
          exact ends_of_ok stored
            (keeps_of_count locatedKeeps ready hasTable entries)

end Stores

/-! ## Calls through iterators -/

/-- The program keeps the table, unless it ends the process. -/
def LeavesKept {α : Type} (name : TableName) (payer : Name) (value : Bytes)
    (program : EosDbM α) (eos : EosDb) : Prop :=
  Ends program eos (fun _ final => final.Keeps name payer value)
    (fun fault final => fault.isException = true →
      final.Keeps name payer value)

theorem Reads.leavesKept {α β : Type} {program : EosDbM α}
    {continuation : α → EosDbM β} {post : α → Prop}
    (reads : Reads program eos post)
    (rest : ∀ found, program eos = .ok found eos → post found →
      LeavesKept name payer value (continuation found) eos) :
    LeavesKept name payer value (program >>= continuation) eos := by
  cases ran : program eos with
  | ok found middle =>
      obtain ⟨rfl, holds⟩ := Ends.of_ok reads ran
      have kept := rest found ran holds
      rw [LeavesKept, Ends, bind_apply_of_ok _ ran]
      exact kept
  | error fault middle =>
      refine ends_of_error (bind_apply_of_error _ ran) fun isException => ?_
      have endsProcess := Ends.of_error reads ran
      exact absurd (isException.symm.trans endsProcess) (by decide)

theorem leavesKept_modify {id : (indexOf r.type).Id}
    {row : (indexOf r.type).Value}
    {modifier : (indexOf r.type).Value → (indexOf r.type).Value}
    (keeps : eos.Keeps name payer value)
    (found : (eos.db.rows r.type).rows[id]? = some row)
    (same : (indexOf r.type).Interchangeable row (modifier row)) :
    LeavesKept name payer value (modify r.type id modifier) eos := by
  obtain ⟨db, modified, success, wrote, _⟩ :=
    modify_of_interchangeable modifier keeps.1 found same
  refine ends_of_ok success (keeps_of_tables keeps wrote.ready ?_)
  rw [wrote.rows, Function.update_of_ne (type_ne_tableId r).symm]

theorem leavesKept_removeIterator {iterator : Int}
    (keeps : eos.Keeps name payer value) :
    LeavesKept name payer value (removeIterator ndebug r iterator) eos := by
  refine ends_bind (ends_of_ok (get_apply eos) ?_)
  refine Reads.leavesKept (reads_ofExcept fun _ => remove_fault) ?_
  intro cache _ _
  exact ends_bind (ends_of_ok (get_apply eos)
    (ends_of_ok (set_apply _ _) (keeps_of_tables keeps keeps.1 rfl)))

/-- The row and the table that a call through an iterator finds. -/
def locate (ndebug : Bool) (r : RowTable) (iterator : Int) :
    EosDbM ((indexOf r.type).Value × TableIdObject) := do
  let obj ← getObject ndebug r iterator
  let tableObj ← objectAt .tableId (← getTable ndebug r (r.tId obj))
  return (obj, tableObj)

/-- The table alone. -/
def tableBehind (ndebug : Bool) (r : RowTable) (iterator : Int)
    (eos : EosDb) : Option TableIdObject :=
  (EStateM.run' (locate ndebug r iterator) eos).map Prod.snd

theorem removeThrough_eq (drop : (indexOf r.type).Id → Int64 → EosDbM PUnit)
    (iterator : Int) :
    removeThrough ndebug r drop iterator =
      (locate ndebug r iterator >>= fun found =>
        drop ((indexOf r.type).id found.1) found.2.id >>= fun _ =>
          removeIterator ndebug r iterator) := by
  simp [removeThrough, locate]

theorem reads_locate {iterator : Int} (ready : eos.db.Ready) :
    Reads (locate ndebug r iterator) eos (fun found =>
      (eos.db.rows r.type).rows[(indexOf r.type).id found.1]? =
        some found.1 ∧
      (eos.db.rows .tableId).rows[found.2.id]? = some found.2) := by
  refine ends_bind (Ends.imp (reads_getObject ready r iterator) ?_
    fun _ _ failed => failed)
  rintro obj middle ⟨rfl, found⟩
  refine ends_bind (Ends.imp (reads_getTable r (r.tId obj)) ?_
    fun _ _ failed => failed)
  rintro address middle ⟨rfl, _⟩
  refine ends_bind (Ends.imp (reads_objectAt ready .tableId address) ?_
    fun _ _ failed => failed)
  rintro tableObj middle ⟨rfl, hasTable⟩
  exact ends_pure ⟨rfl, found, hasTable⟩

/-- A row goes and the count of the table goes down. -/
theorem keeps_dropRow {row : (indexOf r.type).Id} {tab : Int64}
    {obj : (indexOf r.type).Value} {tableObj : TableIdObject}
    (keeps : eos.Keeps name payer value)
    (found : (eos.db.rows r.type).rows[row]? = some obj)
    (hasTable : (eos.db.rows .tableId).rows[tab]? = some tableObj) :
    ∃ final, dropRow r row tab eos = .ok ⟨⟩ final ∧
      final.Keeps name payer value ∧
      (final.db.rows .tableId).rows[tab]? =
        some { tableObj with count := tableObj.count - 1 } := by
  obtain ⟨db, counted, dropped, ready, rows, counts⟩ :=
    dropRow_ok keeps.1 found hasTable
  have entries : ∀ tested : Int64, (db.rows .tableId).rows[tested]? =
      if tab = tested then some { tableObj with count := tableObj.count - 1 }
      else (eos.db.rows .tableId).rows[tested]? := by
    intro tested
    rw [rows, Function.update_of_ne (type_ne_tableId r).symm,
      Function.update_self]
    exact counts tested
  exact ⟨_, dropped, keeps_of_count keeps ready hasTable entries,
    (entries tab).trans (if_pos rfl)⟩

/-- The table goes with its last row, unless it is the one that is kept. -/
theorem leavesKept_removeI64Row {row tab : Int64} {obj : KeyValueObject}
    {tableObj : TableIdObject} (keeps : eos.Keeps name payer value)
    (found : (eos.db.rows .keyValue).rows[row]? = some obj)
    (hasTable : (eos.db.rows .tableId).rows[tab]? = some tableObj)
    (notLast : tableObj.codeScopeTable = name → tableObj.count ≠ 1) :
    LeavesKept name payer value (removeI64Row row tab) eos := by
  obtain ⟨middle, dropped, middleKeeps, isCounted⟩ :=
    keeps_dropRow (r := .keyValue) keeps found hasTable
  have table : (middle.db.rows .tableId).find tab =
      some { tableObj with count := tableObj.count - 1 } := isCounted
  refine ends_bind (ends_of_ok dropped
    (ends_bind (ends_of_ok (indices_apply middleKeeps.1 .tableId) ?_)))
  simp only [table]
  split
  · rename_i isZero
    obtain ⟨db, removed, wrote⟩ :=
      remove_of_row (t := .tableId) middleKeeps.1 isCounted
    refine ends_of_ok removed ⟨wrote.ready, ?_⟩
    obtain ⟨_, kept, keptObj, isKept, isName, holds⟩ := middleKeeps
    refine ⟨kept, keptObj, ?_, isName, holds⟩
    simp only [wrote.rows, Function.update_self]
    rw [MultiIndex.erase_row, if_neg]
    · exact isKept
    · intro same
      have sameTable := (same ▸ isCounted).symm.trans isKept
      cases sameTable
      exact notLast isName (by
        have wasOne := congrArg (· + 1) isZero
        simpa using wasOne)
  · exact ends_pure middleKeeps

theorem leavesKept_dbRemoveI64 {iterator : Int}
    (keeps : eos.Keeps name payer value)
    (notLast : ∀ tableObj ∈ tableBehind ndebug .keyValue iterator eos,
      tableObj.codeScopeTable = name → tableObj.count ≠ 1) :
    LeavesKept name payer value (dbRemoveI64 ndebug iterator) eos := by
  rw [dbRemoveI64_eq, removeThrough_eq]
  refine (reads_locate keeps.1).leavesKept ?_
  intro found isFound holds
  have behind : tableBehind ndebug .keyValue iterator eos = some found.2 := by
    rw [tableBehind, EStateM.run', EStateM.run, isFound]
    rfl
  have removes := leavesKept_removeI64Row keeps holds.1 holds.2
    (notLast found.2 behind)
  exact ends_bind (Ends.imp removes
    (fun _ _ middleKeeps => leavesKept_removeIterator middleKeeps)
    fun _ _ failed => failed)

theorem leavesKept_idxRemove {kind : IndexKind} {iterator : Int}
    (keeps : eos.Keeps name payer value) :
    LeavesKept name payer value (idxRemove ndebug kind iterator) eos := by
  rw [idxRemove_eq, removeThrough_eq]
  refine (reads_locate keeps.1).leavesKept ?_
  intro found _ holds
  obtain ⟨middle, dropped, middleKeeps, _⟩ :=
    keeps_dropRow (r := .index kind) keeps holds.1 holds.2
  exact ends_bind (ends_of_ok dropped (leavesKept_removeIterator middleKeeps))

theorem leavesKept_dbUpdateI64 {iterator : Int} {sender : Name}
    {buffer : Bytes} (keeps : eos.Keeps name payer value) :
    LeavesKept name payer value (dbUpdateI64 ndebug iterator sender buffer)
      eos := by
  refine (reads_getObject keeps.1 .keyValue iterator).leavesKept ?_
  intro obj _ found
  exact leavesKept_modify (r := .keyValue) keeps found
    (interchangeable_keyValue obj sender buffer)

theorem leavesKept_idxUpdate {kind : IndexKind} {iterator : Int}
    {sender : Name} {secondary : SecondaryKey kind}
    (keeps : eos.Keeps name payer value) :
    LeavesKept name payer value
      (idxUpdate ndebug kind iterator sender secondary) eos := by
  refine (reads_getObject keeps.1 (.index kind) iterator).leavesKept ?_
  intro obj _ found
  refine (reads_getTable (.index kind) _).leavesKept ?_
  intro _ _ _
  exact leavesKept_modify (r := .index kind) keeps found
    (interchangeable_secondary obj sender secondary)

/-! ## Runs -/

variable (ndebug) in
/-- The calls on rows; `db_remove_i64` does not take the last row of the table
of this name. -/
def RowCallKeeping (name : TableName) (eos : EosDb) : EosCall → Prop
  | .dbStoreI64 _ _ _ _ _ _ _ => True
  | .dbUpdateI64 _ _ _ => True
  | .dbRemoveI64 iterator =>
      ∀ tableObj ∈ tableBehind ndebug .keyValue iterator eos,
        tableObj.codeScopeTable = name → tableObj.count ≠ 1
  | .idxStore _ _ _ _ _ _ _ _ => True
  | .idxUpdate _ _ _ _ => True
  | .idxRemove _ _ => True
  | _ => False

instance (name : TableName) (eos : EosDb) (call : EosCall) :
    Decidable (eos.RowCallKeeping ndebug name call) := by
  apply @EosCall.casesOn
    (fun call => Decidable (eos.RowCallKeeping ndebug name call)) call <;>
      intros <;> unfold RowCallKeeping <;> infer_instance

variable {sha : Bytes → Sha256}

theorem keeps_step {call : EosCall} (keeps : eos.Keeps name payer value)
    (permitted : eos.RowCallKeeping ndebug name call)
    (stepped : call.step sha ndebug eos = some final) :
    final.Keeps name payer value := by
  refine survive_of_ends (Keeps name payer value) ?_ stepped
  cases call with
  | dbStoreI64 code scope table sender id buffer memory =>
      exact ends_map ((keeps_storeRow (r := .keyValue) keeps).imp
        (fun _ _ holds => holds) fun _ _ holds _ => holds)
  | idxStore kind code scope table sender id secondary memory =>
      exact ends_map ((keeps_storeRow (r := .index kind) keeps).imp
        (fun _ _ holds => holds) fun _ _ holds _ => holds)
  | dbUpdateI64 iterator sender buffer =>
      exact ends_map (leavesKept_dbUpdateI64 keeps)
  | dbRemoveI64 iterator =>
      exact ends_map (leavesKept_dbRemoveI64 keeps permitted)
  | idxUpdate kind iterator sender secondary =>
      exact ends_map (leavesKept_idxUpdate keeps)
  | idxRemove kind iterator =>
      exact ends_map (leavesKept_idxRemove keeps)
  | _ => exact False.elim permitted

theorem keeps_run {calls : List EosCall} (keeps : eos.Keeps name payer value)
    (permitted : Runs.AllowedFrom (EosCall.step sha ndebug)
      (fun eos call => eos.RowCallKeeping ndebug name call) eos calls)
    (finished : Runs.run (EosCall.step sha ndebug) eos calls = some final) :
    final.Keeps name payer value :=
  Runs.run_preserves (Keeps name payer value)
    (fun _ _ _ keeps allowed stepped => keeps_step keeps allowed stepped) keeps
    permitted finished

/-- The table and the value that were stored by scope, or that the table was
given by an update, stay in every run of calls on rows in which `db_remove_i64`
does not take the last row of the table. -/
theorem scope_value_kept (reachable : Reachable sha ndebug eos.db)
    (code : Name) (scope : Sha256) (table payer : Name) (buffer : Bytes)
    (calls : List EosCall) (final : EosDb) :
    (∀ (block : Block) (tab : Int64) (stored : EosDb),
      dbStoreByScope code scope table payer buffer block eos =
        .ok tab stored →
      Runs.AllowedFrom (EosCall.step sha ndebug)
        (fun eos call => eos.RowCallKeeping ndebug (code, scope, table) call)
        stored calls →
      Runs.run (EosCall.step sha ndebug) stored calls = some final →
        ∃ tableObj, findTable code scope table final =
            .ok (some tableObj) final ∧
          tableObj.payer = payer ∧ tableObj.value = buffer) ∧
    ∀ (tableObj : TableIdObject) (updated : EosDb),
      findTable code scope table eos = .ok (some tableObj) eos →
      dbUpdateByScope tableObj.id payer buffer eos = .ok ⟨⟩ updated →
      Runs.AllowedFrom (EosCall.step sha ndebug)
        (fun eos call => eos.RowCallKeeping ndebug (code, scope, table) call)
        updated calls →
      Runs.run (EosCall.step sha ndebug) updated calls = some final →
        ∃ tableObj, findTable code scope table final =
            .ok (some tableObj) final ∧
          tableObj.payer = payer ∧ tableObj.value = buffer := by
  have ready := reachable.allWellMade.ready
  constructor
  · intro block tab stored created permitted finished
    exact (keeps_run (keeps_dbStoreByScope ready created) permitted
      finished).findTable
  · intro tableObj updated lookup changed permitted finished
    rw [findTable_apply ready] at lookup
    have named : eos.tableNamed (code, scope, table) = some tableObj := by
      injection lookup
    exact (keeps_run (keeps_dbUpdateByScope ready named changed) permitted
      finished).findTable

/-- A row and an index row of the table; the index row is removed last. -/
def scopeValueCalls : List EosCall :=
  [.dbStoreI64 ⟨1⟩ 2 ⟨3⟩ ⟨4⟩ 7 [10] ⟨⟨48, 6⟩, ⟨32, 0⟩⟩,
    .idxStore .idx64 ⟨1⟩ 2 ⟨3⟩ ⟨4⟩ 7 100 ⟨⟨48, 6⟩, ⟨64, 9⟩⟩,
    .dbRemoveI64 0, .idxRemove .idx64 0]

theorem scope_value_kept_indexRow :
    ∃ (eos stored final : EosDb) (tableObj : TableIdObject),
      Reachable (fun _ => 0) false eos.db ∧
      dbStoreByScope ⟨1⟩ 2 ⟨3⟩ ⟨4⟩ [20] ⟨16, 5⟩ eos = .ok 5 stored ∧
      Runs.run (EosCall.step (fun _ => 0) false) stored scopeValueCalls =
        some final ∧
      findTable ⟨1⟩ 2 ⟨3⟩ final = .ok (some tableObj) final ∧
      tableObj.payer = ⟨4⟩ ∧ tableObj.value = [20] := by
  obtain ⟨eos, reachable, test⟩ := reachable_of_any (fun _ => 0) false []
    (fun eos =>
      match dbStoreByScope ⟨1⟩ 2 ⟨3⟩ ⟨4⟩ [20] ⟨16, 5⟩ eos with
      | .error _ _ => false
      | .ok tab stored => decide (tab = 5 ∧
          Runs.AllowedFrom (EosCall.step (fun _ => 0) false)
            (fun eos call => eos.RowCallKeeping false (⟨1⟩, 2, ⟨3⟩) call)
            stored scopeValueCalls ∧
          (Runs.run (EosCall.step (fun _ => 0) false) stored
            scopeValueCalls).isSome))
    (by decide +kernel)
  split at test
  · cases test
  · rename_i tab stored created
    obtain ⟨rfl, permitted, isSome⟩ := of_decide_eq_true test
    obtain ⟨final, finished⟩ := Option.isSome_iff_exists.mp isSome
    obtain ⟨tableObj, lookup, holds⟩ :=
      (scope_value_kept reachable ⟨1⟩ 2 ⟨3⟩ ⟨4⟩ [20] scopeValueCalls final).1
        ⟨16, 5⟩ 5 stored created permitted finished
    exact ⟨eos, stored, final, tableObj, reachable, created, finished, lookup,
      holds⟩

/-- A row is stored in the table and removed: the table is gone with its
value. -/
theorem scope_value_lost :
    ∃ eos stored final : EosDb, Reachable (fun _ => 0) false eos.db ∧
      dbStoreByScope ⟨1⟩ 2 ⟨3⟩ ⟨4⟩ [20] ⟨16, 5⟩ eos = .ok 5 stored ∧
      Runs.run (EosCall.step (fun _ => 0) false) stored
        [.dbStoreI64 ⟨1⟩ 2 ⟨3⟩ ⟨4⟩ 7 [10] ⟨⟨48, 6⟩, ⟨32, 0⟩⟩,
          .dbRemoveI64 0] = some final ∧
      EStateM.run' (findTable ⟨1⟩ 2 ⟨3⟩) final = some none := by
  obtain ⟨eos, reachable, test⟩ := reachable_of_any (fun _ => 0) false []
    (fun eos =>
      match dbStoreByScope ⟨1⟩ 2 ⟨3⟩ ⟨4⟩ [20] ⟨16, 5⟩ eos with
      | .error _ _ => false
      | .ok tab stored => decide (tab = 5) &&
          (Runs.run (EosCall.step (fun _ => 0) false) stored
            [.dbStoreI64 ⟨1⟩ 2 ⟨3⟩ ⟨4⟩ 7 [10] ⟨⟨48, 6⟩, ⟨32, 0⟩⟩,
              .dbRemoveI64 0]).any fun final =>
            decide (EStateM.run' (findTable ⟨1⟩ 2 ⟨3⟩) final = some none))
    (by decide +kernel)
  split at test
  · cases test
  · rename_i tab stored created
    rw [Bool.and_eq_true, decide_eq_true_iff] at test
    obtain ⟨rfl, hit⟩ := test
    obtain ⟨final, finished, gone⟩ := (Option.any_eq_true _ _).mp hit
    exact ⟨eos, stored, final, reachable, created, finished,
      of_decide_eq_true gone⟩

end EosDb

end StateDatabase
