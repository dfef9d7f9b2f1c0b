import Mathlib
import StateDatabase.ReachableRows
import StateDatabase.StoreEffects
import StateDatabase.DatabaseSnapshots

/-!
# Row calls on a database with sessions

A call of `eos_db` on tables and rows makes row steps, and every row step is one
call of a client of the database.  So the call keeps what such calls keep: the
rows of the primary table have the ids of their keys, and in the store with
copies the current rows change and no copy does.
-/

namespace StateDatabase

open Programs GenericIndex

/-- Calls on tables, rows and records; the others are on sessions. -/
def EosCall.onRows : EosCall → Bool
  | .startUndoSession => false
  | .undo _ => false
  | .squash => false
  | .commit _ => false
  | .undoAll _ => false
  | .setRevision _ => false
  | _ => true

namespace EosDb

variable {eos : EosDb}

/-- A call on rows ends the process or makes row steps. -/
theorem loose_call (sha : Bytes → Sha256) (ndebug : Bool) {call : EosCall}
    (onRows : call.onRows = true) (ready : eos.db.Ready) :
    Loose (call.program sha ndebug) eos (fun _ _ => True) := by
  cases call with
  | findOrCreateTable code scope table payer block =>
      exact ends_map (((steps_findOrCreateTable ready).imp
        fun _ _ _ => trivial).loose)
  | dbStoreByScope code scope table payer buffer block =>
      exact ends_map (steps_dbStoreByScope ready).loose
  | dbUpdateByScope iterator payer buffer =>
      exact ends_map (loose_dbUpdateByScope ready)
  | dbStoreI64 code scope table payer id buffer memory =>
      exact ends_map (steps_dbStoreI64 ready).loose
  | dbUpdateI64 iterator payer buffer => exact ends_map (loose_dbUpdateI64 ready)
  | dbRemoveI64 iterator => exact ends_map (loose_dbRemoveI64 ready)
  | dbGetI64 iterator bufferSize => exact ends_map (loose_dbGetI64 ready)
  | dbFindI64 code scope table id => exact ends_map (loose_dbFindI64 ready)
  | idxStore kind code scope table payer id value memory =>
      exact ends_map (steps_idxStore ready).loose
  | idxUpdate kind iterator payer secondary =>
      exact ends_map (loose_idxUpdate ready)
  | idxRemove kind iterator => exact ends_map (loose_idxRemove ready)
  | dbStoreByKey type scope key payer buffer block =>
      exact ends_map (loose_dbStoreByKey ready)
  | dbUpdateByKey type scope key payer buffer =>
      exact ends_map (loose_dbUpdateByKey ready)
  | dbRemoveByKey type scope key => exact ends_map (loose_dbRemoveByKey ready)
  | dbFindByKey type scope key => exact ends_map (loose_dbFindByKey ready)
  | _ => cases onRows

end EosDb

/-! ## The rows of the primary table -/

section Steps

variable {before after : Database eosDbTables}

/-- All rows of all tables. -/
def AllWellMade (contents : Contents) : Prop :=
  ∀ (t : TableType) (id : (indexOf t).Id) (value : (indexOf t).Value),
    (contents t).find id = some value → WellMade t value

/-- New rows of one table. -/
theorem AllWellMade.update {contents : Contents} {t : TableType}
    {rows : MultiIndex (indexOf t)} (wellMade : AllWellMade contents)
    (isNew : ∀ (id : (indexOf t).Id) (value : (indexOf t).Value),
      rows.rows[id]? = some value → WellMade t value) :
    AllWellMade (Function.update contents t rows) := by
  intro tested id value found
  by_cases same : tested = t
  · subst same
    rw [Function.update_self] at found
    exact isNew id value found
  · rw [Function.update_of_ne same] at found
    exact wellMade tested id value found

theorem RowStep.wellMade (step : RowStep before after) (ready : before.Ready)
    (wellMade : AllWellMade before.rows) : AllWellMade after.rows := by
  cases step with
  | @create t value _ isWellMade success =>
      cases attempt : (before.rows t).emplace value with
      | none =>
          rw [ready.create_none attempt] at success
          cases success
      | some inserted =>
          rcases ready.create_some attempt with ⟨final, created, wrote⟩
          rw [created] at success
          cases success
          rw [wrote.rows]
          apply wellMade.update
          intro id other found
          rw [(MultiIndex.emplace_some attempt).2] at found
          split at found
          · cases found
            exact isWellMade
          · exact wellMade t id other found
  | @modify t id value modifier _ isRow same success =>
      rcases ready.modify_of_interchangeable isRow same with
        ⟨final, modified, changed, wrote, rows⟩
      rw [changed] at success
      cases success
      rw [wrote.rows]
      apply wellMade.update
      intro tested other found
      rw [rows] at found
      split at found
      · cases found
        exact (wellMade t id value isRow).of_interchangeable same
      · exact wellMade t tested other found
  | @remove t id value _ isRow success =>
      rcases ready.remove_of_row isRow with ⟨final, removed, wrote⟩
      rw [removed] at success
      cases success
      rw [wrote.rows]
      apply wellMade.update
      intro tested other found
      rw [MultiIndex.erase_row] at found
      split at found
      · cases found
      · exact wellMade t tested other found

theorem RowSteps.wellMade (steps : RowSteps before after)
    (ready : before.Ready) (wellMade : AllWellMade before.rows) :
    AllWellMade after.rows := by
  induction steps with
  | refl => exact wellMade
  | tail earlier step inductionHypothesis =>
      exact step.wellMade (RowSteps.ready earlier ready) inductionHypothesis

theorem AllWellMade.numbered {contents : Contents}
    (wellMade : AllWellMade contents) : EosDb.Numbered contents :=
  fun id row found => wellMade .keyValue id row found

end Steps

/-! ## The store with copies -/

section Copies

variable {client : Client eosDbTables} {copying : CopyingClient eosDbTables}
  {after : Database eosDbTables}

/-- A call of the client that changes current rows only. -/
theorem Client.Mirrors.of_rowCall (call : DatabaseCall eosDbTables)
    (mirrors : client.Mirrors copying) (proper : Proper client call)
    (stepped : call.step false client = some { client with database := after })
    (changes : ∃ rows, call.reference copying =
      { copying with history := copying.history.change rows }) :
    Client.Mirrors { client with database := after }
      { copying with history := copying.history.change after.rows } := by
  rcases mirrors_step false client copying call mirrors proper with
    ⟨next, alsoStepped, nextMirrors⟩
  rw [stepped, Option.some.injEq] at alsoStepped
  rcases changes with ⟨rows, isChange⟩
  rw [← alsoStepped, isChange] at nextMirrors
  have isCurrent : after.rows = rows := nextMirrors.database.rows_eq
  rw [isCurrent]
  exact nextMirrors

variable (client copying) in
theorem RowStep.mirrors (step : RowStep client.database after)
    (ready : client.database.Ready) (mirrors : client.Mirrors copying) :
    Client.Mirrors { client with database := after }
      { copying with history := copying.history.change after.rows } := by
  cases step with
  | @create t value _ wellMade success =>
      refine mirrors.of_rowCall (.create t value)
        ⟨trivial, ready.registered t⟩ ?_ ?_
      · exact Client.survive_onDatabase (by rw [success]; rfl)
      · simp only [DatabaseCall.reference]
        split
        · exact ⟨copying.history.current, rfl⟩
        · exact ⟨_, rfl⟩
  | @modify t id value modifier _ isRow same success =>
      refine mirrors.of_rowCall (.modify t id modifier)
        ⟨trivial, ready.registered t, value, isRow, same⟩ ?_ ?_
      · exact Client.survive_onDatabase (by rw [success]; rfl)
      · simp only [DatabaseCall.reference]
        split
        · exact ⟨copying.history.current, rfl⟩
        · split
          · exact ⟨copying.history.current, rfl⟩
          · exact ⟨_, rfl⟩
  | @remove t id value _ isRow success =>
      have stored : (client.database.index t).indices.find id ≠ none := by
        have found : (client.database.index t).indices.find id = some value :=
          isRow
        rw [found]
        exact Option.some_ne_none value
      refine mirrors.of_rowCall (.remove t id)
        ⟨trivial, ready.registered t, stored⟩ ?_ ⟨_, rfl⟩
      exact Client.survive_onDatabase (by rw [success]; rfl)

/-- Row steps change the current rows and no copy. -/
theorem RowSteps.mirrors (steps : RowSteps client.database after)
    (ready : client.database.Ready) (mirrors : client.Mirrors copying) :
    Client.Mirrors { client with database := after }
      { copying with history := copying.history.change after.rows } := by
  induction steps with
  | refl =>
      have isCurrent := mirrors.database.rows_eq
      rw [isCurrent]
      exact mirrors
  | @tail middle last earlier step inductionHypothesis =>
      -- the second change of the current rows replaces the first
      exact step.mirrors { client with database := middle }
        { copying with history := copying.history.change middle.rows }
        (RowSteps.ready earlier ready) inductionHypothesis

end Copies

end StateDatabase
