import Mathlib
import StateDatabase.EosDbSteps
import StateDatabase.KeyValueApi

/-!
# The row operations of `eos_db`

Whatever a call of `eos_db` does to the database, it does in single steps: it
creates an object, it gives an object a value that excludes the same rows, or
it removes an object.  A property of databases that each such step keeps holds
after every call.
-/

namespace StateDatabase

open Programs GenericIndex

/-- What the constructors of `eos_db` build: the id of a row of the primary
table is its primary key. -/
def WellMade : (t : TableType) → (indexOf t).Value → Prop
  | .keyValue, row => row.id = row.primaryKey.toInt64
  | _, _ => True

/-- One step of a call. -/
inductive RowStep (before : Database eosDbTables) :
    Database eosDbTables → Prop where
  | create {t : TableType} {value : (indexOf t).Value}
      {after : Database eosDbTables} (wellMade : WellMade t value)
      (success : Database.create t value before = .ok ⟨⟩ after) :
      RowStep before after
  | modify {t : TableType} {id : (indexOf t).Id} {value : (indexOf t).Value}
      {modifier : (indexOf t).Value → (indexOf t).Value}
      {after : Database eosDbTables}
      (found : (before.rows t).rows[id]? = some value)
      (same : (indexOf t).Interchangeable value (modifier value))
      (success : Database.modify t id modifier before = .ok ⟨⟩ after) :
      RowStep before after
  | remove {t : TableType} {id : (indexOf t).Id} {value : (indexOf t).Value}
      {after : Database eosDbTables}
      (found : (before.rows t).rows[id]? = some value)
      (success : Database.remove t id before = .ok ⟨⟩ after) :
      RowStep before after

/-- Any number of steps. -/
abbrev RowSteps := Relation.ReflTransGen RowStep

theorem RowStep.ready {before after : Database eosDbTables}
    (step : RowStep before after) (ready : before.Ready) : after.Ready := by
  cases step with
  | @create t value after wellMade success =>
      cases attempt : (before.rows t).emplace value with
      | none =>
          rw [ready.create_none attempt] at success
          cases success
      | some inserted =>
          obtain ⟨final, created, wrote⟩ := ready.create_some attempt
          rw [created] at success
          cases success
          exact wrote.ready
  | modify found same success =>
      obtain ⟨final, modified, changed, wrote, _⟩ :=
        ready.modify_of_interchangeable found same
      rw [changed] at success
      cases success
      exact wrote.ready
  | remove found success =>
      obtain ⟨final, removed, wrote⟩ := ready.remove_of_row found
      rw [removed] at success
      cases success
      exact wrote.ready

theorem RowSteps.ready {before after : Database eosDbTables}
    (steps : RowSteps before after) (ready : before.Ready) : after.Ready := by
  induction steps with
  | refl => exact ready
  | tail _ step inductionHypothesis => exact step.ready inductionHypothesis

namespace EosDb

variable {eos : EosDb}

/-! ## Single steps -/

/-- A call ends normally or with an exception, and after row steps only. -/
def Steps {α : Type} (program : EosDbM α) (eos : EosDb)
    (post : α → EosDb → Prop) : Prop :=
  Ends program eos
    (fun value final => RowSteps eos.db final.db ∧ post value final)
    (fun fault final => fault.isException = true ∧ RowSteps eos.db final.db)

/-- The rest of a call starts in a database with all its indices again. -/
theorem Steps.andThen {α β : Type} {program : EosDbM α}
    {continuation : α → EosDbM β} {post : α → EosDb → Prop}
    {post' : β → EosDb → Prop} (ready : eos.db.Ready)
    (first : Steps program eos post)
    (rest : ∀ value middle, middle.db.Ready → post value middle →
      Steps (continuation value) middle post') :
    Steps (program >>= continuation) eos post' := by
  refine ends_bind (first.imp ?_ fun _ _ failed => failed)
  rintro value middle ⟨steps, holds⟩
  refine (rest value middle (RowSteps.ready steps ready) holds).imp ?_ ?_
  · rintro result final ⟨later, reached⟩
    exact ⟨steps.trans later, reached⟩
  · rintro fault final ⟨isException, later⟩
    exact ⟨isException, steps.trans later⟩

theorem Steps.imp {α : Type} {program : EosDbM α}
    {post post' : α → EosDb → Prop} (steps : Steps program eos post)
    (implies : ∀ value final, post value final → post' value final) :
    Steps program eos post' :=
  Ends.imp steps (fun value final holds => ⟨holds.1, implies value final holds.2⟩)
    fun _ _ failed => failed

theorem steps_of_ok {α : Type} {program : EosDbM α} {value : α}
    {final : EosDb} {post : α → EosDb → Prop}
    (returned : program eos = .ok value final)
    (steps : RowSteps eos.db final.db) (holds : post value final) :
    Steps program eos post :=
  ends_of_ok returned ⟨steps, holds⟩

/-- A program that leaves the database alone. -/
theorem steps_of_same {α : Type} {program : EosDbM α} {value : α}
    {final : EosDb} {post : α → EosDb → Prop}
    (returned : program eos = .ok value final) (same : final.db = eos.db)
    (holds : post value final) :
    Steps program eos post :=
  steps_of_ok returned (same ▸ Relation.ReflTransGen.refl) holds

/-- The same in front of the rest of a call. -/
theorem steps_bind_of_same {α β : Type} {program : EosDbM α}
    {continuation : α → EosDbM β} {value : α} {middle : EosDb}
    {post : β → EosDb → Prop} (returned : program eos = .ok value middle)
    (same : middle.db = eos.db) (rest : Steps (continuation value) middle post) :
    Steps (program >>= continuation) eos post := by
  unfold Steps Ends at rest ⊢
  rw [bind_apply_of_ok _ returned, ← same]
  exact rest

theorem steps_create {t : TableType} {block : Block}
    {value : (indexOf t).Value} (ready : eos.db.Ready)
    (wellMade : WellMade t value) :
    Steps (create t block value) eos
      (fun _ final => ∃ inserted,
        (eos.db.rows t).emplace value = some inserted ∧
        Database.Wrote t inserted eos.db final.db) := by
  cases attempt : (eos.db.rows t).emplace value with
  | none =>
      exact ends_of_error (create_none ready attempt)
        ⟨rfl, Relation.ReflTransGen.refl⟩
  | some inserted =>
      obtain ⟨final, created, wrote⟩ := ready.create_some attempt
      have returned : EosDb.create t block value eos = .ok ⟨⟩ { eos with
          db := final
          place := placed eos.place t ((indexOf t).id value)
            block.address } := by
        rw [create, bind_apply_of_ok _ (onDatabase_ok created),
          bind_apply_of_ok _ (get_apply _)]
        rfl
      exact steps_of_ok returned
        (Relation.ReflTransGen.single (.create wellMade created))
        ⟨inserted, rfl, wrote⟩

theorem steps_modify {t : TableType} {id : (indexOf t).Id}
    {value : (indexOf t).Value}
    {modifier : (indexOf t).Value → (indexOf t).Value} (ready : eos.db.Ready)
    (found : (eos.db.rows t).rows[id]? = some value)
    (same : (indexOf t).Interchangeable value (modifier value)) :
    Steps (modify t id modifier) eos
      (fun _ final => ∃ modified, Database.Wrote t modified eos.db final.db ∧
        modified.rows[id]? = some (modifier value)) := by
  obtain ⟨final, modified, changed, wrote, rows⟩ :=
    ready.modify_of_interchangeable found same
  exact steps_of_ok (onDatabase_ok changed)
    (Relation.ReflTransGen.single (.modify found same changed))
    ⟨modified, wrote, by rw [rows, if_pos rfl]⟩

theorem steps_remove {t : TableType} {id : (indexOf t).Id}
    {value : (indexOf t).Value} (ready : eos.db.Ready)
    (found : (eos.db.rows t).rows[id]? = some value) :
    Steps (remove t id) eos
      (fun _ final =>
        Database.Wrote t ((eos.db.rows t).erase id) eos.db final.db) := by
  obtain ⟨final, removed, wrote⟩ := ready.remove_of_row found
  exact steps_of_ok (onDatabase_ok removed)
    (Relation.ReflTransGen.single (.remove found removed)) wrote

/-! ## Calls -/

section Calls

variable {code : Name} {scope : Sha256} {table payer : Name}

theorem steps_dbStoreByScope {buffer : Bytes} {block : Block}
    (ready : eos.db.Ready) :
    Steps (dbStoreByScope code scope table payer buffer block) eos
      (fun _ _ => True) := by
  refine (steps_create (t := .tableId) ready trivial).andThen ready ?_
  intro _ middle _ _
  exact steps_of_same rfl rfl trivial

theorem steps_dbUpdateByScope {tab : Int64} {buffer : Bytes}
    {tableObj : TableIdObject} (ready : eos.db.Ready)
    (found : (eos.db.rows .tableId).rows[tab]? = some tableObj) :
    Steps (dbUpdateByScope tab payer buffer) eos (fun _ _ => True) :=
  (steps_modify ready found (interchangeable_scope tableObj payer buffer)).imp
    fun _ _ _ => trivial

/-- The returned table is stored. -/
theorem steps_findOrCreateTable {block : Block} (ready : eos.db.Ready) :
    Steps (findOrCreateTable code scope table payer block) eos
      (fun tab final => ∃ tableObj,
        (final.db.rows .tableId).rows[tab]? = some tableObj) := by
  cases found : (eos.db.rows .tableId).findBy TableIdObject.codeScopeTable
      (code, scope, table) with
  | some existing =>
      exact steps_of_same (findOrCreateTable_found ready found) rfl
        ⟨existing, (MultiIndex.findBy_some found).1⟩
  | none =>
      refine steps_bind_of_same (findTable_apply ready _ _ _) rfl ?_
      rw [found]
      refine (steps_create (t := .tableId) ready trivial).andThen ready ?_
      rintro _ middle _ ⟨inserted, success, wrote⟩
      refine steps_of_same rfl rfl ⟨newTable code scope table payer [] block, ?_⟩
      rw [wrote.rows, Function.update_self]
      rw [(MultiIndex.emplace_some success).2, if_pos rfl]

theorem steps_storeRow {r : RowTable}
    {newRow : Int64 → (indexOf r.type).Value} {memory : Memory}
    (ready : eos.db.Ready) (wellMade : ∀ tab, WellMade r.type (newRow tab)) :
    Steps (storeRow r code scope table payer newRow memory) eos
      (fun _ _ => True) := by
  refine (steps_findOrCreateTable ready).andThen ready ?_
  rintro tab located locatedReady ⟨tableObj, hasTable⟩
  refine (steps_create locatedReady (wellMade tab)).andThen locatedReady ?_
  rintro _ created createdReady ⟨inserted, success, wrote⟩
  have stillTable : (created.db.rows .tableId).rows[tab]? = some tableObj := by
    rw [wrote.rows, Function.update_of_ne (type_ne_tableId r).symm]
    exact hasTable
  refine (steps_modify createdReady stillTable
    (interchangeable_count tableObj _)).andThen createdReady ?_
  intro _ counted countedReady _
  -- the caches are not part of the database
  exact steps_bind_of_same rfl rfl (steps_of_same rfl rfl trivial)

theorem steps_dbStoreI64 {id : UInt64} {buffer : Bytes} {memory : Memory}
    (ready : eos.db.Ready) :
    Steps (dbStoreI64 code scope table payer id buffer memory) eos
      (fun _ _ => True) :=
  steps_storeRow ready fun _ => rfl

theorem steps_idxStore {kind : IndexKind} {id : UInt64}
    {value : SecondaryKey kind} {memory : Memory} (ready : eos.db.Ready) :
    Steps (idxStore kind code scope table payer id value memory) eos
      (fun _ _ => True) :=
  steps_storeRow ready fun _ => trivial

theorem steps_updateI64Row {row : Int64} {buffer : Bytes}
    {value : KeyValueObject} (ready : eos.db.Ready)
    (found : (eos.db.rows .keyValue).rows[row]? = some value) :
    Steps (updateI64Row row payer buffer) eos (fun _ _ => True) :=
  (steps_modify ready found (interchangeable_keyValue value payer buffer)).imp
    fun _ _ _ => trivial

theorem steps_updateIdxRow {kind : IndexKind} {row : Int64}
    {secondary : SecondaryKey kind} {value : IndexObject (SecondaryKey kind)}
    (ready : eos.db.Ready)
    (found : (eos.db.rows (.index kind)).rows[row]? = some value) :
    Steps (updateIdxRow kind row payer secondary) eos (fun _ _ => True) :=
  (steps_modify ready found
    (interchangeable_secondary value payer secondary)).imp fun _ _ _ => trivial

theorem steps_dropRow {r : RowTable} {row : (indexOf r.type).Id} {tab : Int64}
    {value : (indexOf r.type).Value} {tableObj : TableIdObject}
    (ready : eos.db.Ready)
    (found : (eos.db.rows r.type).rows[row]? = some value)
    (hasTable : (eos.db.rows .tableId).rows[tab]? = some tableObj) :
    Steps (dropRow r row tab) eos
      (fun _ final => ∃ counted,
        (final.db.rows .tableId).rows[tab]? = some counted) := by
  refine (steps_modify ready hasTable
    (interchangeable_count tableObj _)).andThen ready ?_
  rintro _ middle middleReady ⟨modified, wrote, isCounted⟩
  have stillRow : (middle.db.rows r.type).rows[row]? = some value := by
    rw [wrote.rows, Function.update_of_ne (type_ne_tableId r)]
    exact found
  refine (steps_remove middleReady stillRow).imp ?_
  intro _ final removed
  refine ⟨{ tableObj with count := tableObj.count - 1 }, ?_⟩
  rw [removed.rows, Function.update_of_ne (type_ne_tableId r).symm, wrote.rows,
    Function.update_self]
  exact isCounted

theorem steps_removeI64Row {row tab : Int64} {value : KeyValueObject}
    {tableObj : TableIdObject} (ready : eos.db.Ready)
    (found : (eos.db.rows .keyValue).rows[row]? = some value)
    (hasTable : (eos.db.rows .tableId).rows[tab]? = some tableObj) :
    Steps (removeI64Row row tab) eos (fun _ _ => True) := by
  refine (steps_dropRow (r := .keyValue) ready found hasTable).andThen ready ?_
  rintro _ middle middleReady ⟨counted, isCounted⟩
  refine steps_bind_of_same (indices_apply middleReady .tableId) rfl ?_
  have lookup : (middle.db.rows .tableId).find tab = some counted := isCounted
  simp only [lookup]
  by_cases isEmpty : counted.count = 0
  · rw [if_pos isEmpty]
    exact (steps_remove middleReady isCounted).imp fun _ _ _ => trivial
  · rw [if_neg isEmpty]
    exact steps_of_same rfl rfl trivial

/-! ## Calls by key -/

section ByKey

variable {sha : Bytes → Sha256} {type : KeyType} {key : Key type}
  {ndebug : Bool} {payerHash : Sha256} {buffer : Bytes}

theorem hashKey_error {fault : Fault}
    (failed : hashKey sha scope key = .error fault) :
    fault.isException = true := by
  cases packed : packKey key with
  | ok bytes =>
      rw [hashKey, packed] at failed
      cases failed
  | error first =>
      rw [hashKey, packed] at failed
      cases failed
      cases type with
      | int => cases packed
      | stdString => cases packed
      | cString =>
          simp only [packKey] at packed
          split at packed
          · cases packed
          · cases packed
            rfl

/-- A key that cannot be packed ends the call with an exception. -/
theorem steps_of_hashKey {α : Type} {continuation : Sha256 → EosDbM α}
    {post : α → EosDb → Prop}
    (rest : ∀ tableKey, hashKey sha scope key = .ok tableKey →
      Steps (continuation tableKey) eos post) :
    Steps (ofExcept (hashKey sha scope key) >>= continuation) eos post := by
  cases hashed : hashKey sha scope key with
  | ok tableKey => exact steps_bind_of_same rfl rfl (rest tableKey hashed)
  | error fault =>
      exact ends_of_error (bind_apply_of_error _ rfl)
        ⟨hashKey_error hashed, Relation.ReflTransGen.refl⟩

theorem steps_dbStoreByKey {block : Block} (ready : eos.db.Ready)
    (unchecked : ndebug = true ∨ ∀ tableKey,
      hashKey sha scope key = .ok tableKey →
        (eos.db.rows .tableKey).rows[tableKey]? = none) :
    Steps (dbStoreByKey sha ndebug scope key payerHash buffer block) eos
      (fun _ _ => True) := by
  refine steps_of_hashKey fun tableKey hashed => ?_
  refine steps_bind_of_same (indices_apply ready .tableKey) rfl ?_
  have passes : (((eos.db.rows .tableKey).find tableKey).isSome && !ndebug) =
      false := by
    rcases unchecked with isOff | absent
    · rw [isOff, Bool.not_true, Bool.and_false]
    · rw [MultiIndex.find, absent tableKey hashed, Option.isSome_none,
        Bool.false_and]
  simp only [passes, Bool.false_eq_true, if_false]
  exact (steps_create (t := .tableKey) ready trivial).imp fun _ _ _ => trivial

theorem interchangeable_tableKey (record : TableKeyObject) (payer : Sha256)
    (value : Bytes) :
    tableKeyMultiIndex.Interchangeable record
      { record with payer := payer, value := value } :=
  IndexType.KeepsKeys.interchangeable ⟨rfl, by simp⟩

theorem steps_dbUpdateByKey (ready : eos.db.Ready)
    (present : ∀ tableKey, hashKey sha scope key = .ok tableKey →
      (eos.db.rows .tableKey).rows[tableKey]? ≠ none) :
    Steps (dbUpdateByKey sha ndebug scope key payerHash buffer) eos
      (fun _ _ => True) := by
  refine steps_of_hashKey fun tableKey hashed => ?_
  refine steps_bind_of_same (indices_apply ready .tableKey) rfl ?_
  obtain ⟨record, found⟩ :=
    Option.ne_none_iff_exists'.mp (present tableKey hashed)
  have isId : record.id = tableKey := (eos.db.rows .tableKey).keyed found
  rw [MultiIndex.find, found]
  refine (steps_modify (t := .tableKey) ready ?_
    (interchangeable_tableKey record _ _)).imp fun _ _ _ => trivial
  rw [isId]
  exact found

theorem steps_dbRemoveByKey (ready : eos.db.Ready)
    (present : ∀ tableKey, hashKey sha scope key = .ok tableKey →
      (eos.db.rows .tableKey).rows[tableKey]? ≠ none) :
    Steps (dbRemoveByKey sha ndebug scope key) eos (fun _ _ => True) := by
  refine steps_of_hashKey fun tableKey hashed => ?_
  refine steps_bind_of_same (indices_apply ready .tableKey) rfl ?_
  obtain ⟨record, found⟩ :=
    Option.ne_none_iff_exists'.mp (present tableKey hashed)
  have isId : record.id = tableKey := (eos.db.rows .tableKey).keyed found
  rw [MultiIndex.find, found]
  have isRecord : (eos.db.rows .tableKey).rows[record.id]? = some record := by
    rw [isId]
    exact found
  exact (steps_remove (t := .tableKey) ready isRecord).imp fun _ _ _ => trivial

end ByKey

end Calls

end EosDb

end StateDatabase
