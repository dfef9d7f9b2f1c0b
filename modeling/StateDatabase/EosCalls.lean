import Mathlib
import StateDatabase.RowSteps

/-!
# Runs of `eos_db`

The calls of a program that uses one `eos_db` and the sessions of its
database, with iterators as they were handed out.  A call through an iterator
ends the process or makes row steps on an object that is stored.
-/

namespace StateDatabase

open Programs GenericIndex

/-- The calls of a program; after an undo the restored objects stand at new
addresses. -/
inductive EosCall where
  | findOrCreateTable (code : Name) (scope : Sha256) (table payer : Name)
      (block : Block)
  | dbStoreByScope (code : Name) (scope : Sha256) (table payer : Name)
      (buffer : Bytes) (block : Block)
  | dbUpdateByScope (iterator : Int64) (payer : Name) (buffer : Bytes)
  | dbStoreI64 (code : Name) (scope : Sha256) (table payer : Name)
      (id : UInt64) (buffer : Bytes) (memory : Memory)
  | dbUpdateI64 (iterator : Int) (payer : Name) (buffer : Bytes)
  | dbRemoveI64 (iterator : Int)
  | dbGetI64 (iterator : Int) (bufferSize : Nat)
  | dbFindI64 (code : Name) (scope : Sha256) (table : Name) (id : UInt64)
  | idxStore (kind : IndexKind) (code : Name) (scope : Sha256)
      (table payer : Name) (id : UInt64) (value : SecondaryKey kind)
      (memory : Memory)
  | idxUpdate (kind : IndexKind) (iterator : Int) (payer : Name)
      (secondary : SecondaryKey kind)
  | idxRemove (kind : IndexKind) (iterator : Int)
  | dbStoreByKey (type : KeyType) (scope : Sha256) (key : Key type)
      (payer : Sha256) (buffer : Bytes) (block : Block)
  | dbUpdateByKey (type : KeyType) (scope : Sha256) (key : Key type)
      (payer : Sha256) (buffer : Bytes)
  | dbRemoveByKey (type : KeyType) (scope : Sha256) (key : Key type)
  | dbFindByKey (type : KeyType) (scope : Sha256) (key : Key type)
  | startUndoSession
  | undo (place : (t : TableType) → (indexOf t).Id → Address)
  | squash
  | commit (revision : Int)
  | undoAll (place : (t : TableType) → (indexOf t).Id → Address)
  | setRevision (revision : UInt64)

/-- What a call returns. -/
inductive Reply where
  | done
  | table (id : Int64)
  | iterator (value : Int)
  | copied (size : Int) (buffer : Bytes)
  | found (record : Option TableKeyObject)
deriving DecidableEq

namespace EosDb

/-- Undo, and find the objects where they are afterwards. -/
def restore (program : Database.DatabaseM eosDbTables PUnit)
    (place : (t : TableType) → (indexOf t).Id → Address) :
    EosDbM PUnit := do
  onDatabase program
  let eos ← get
  set { eos with place := place }

end EosDb

namespace EosCall

open EosDb

variable (sha : Bytes → Sha256) (ndebug : Bool)

def program : EosCall → EosDbM Reply
  | .findOrCreateTable code scope table payer block =>
      .table <$> EosDb.findOrCreateTable code scope table payer block
  | .dbStoreByScope code scope table payer buffer block =>
      .table <$> EosDb.dbStoreByScope code scope table payer buffer block
  | .dbUpdateByScope iterator payer buffer =>
      (fun _ => .done) <$> EosDb.dbUpdateByScope iterator payer buffer
  | .dbStoreI64 code scope table payer id buffer memory =>
      .iterator <$> EosDb.dbStoreI64 code scope table payer id buffer memory
  | .dbUpdateI64 iterator payer buffer =>
      (fun _ => .done) <$> EosDb.dbUpdateI64 ndebug iterator payer buffer
  | .dbRemoveI64 iterator =>
      (fun _ => .done) <$> EosDb.dbRemoveI64 ndebug iterator
  | .dbGetI64 iterator bufferSize =>
      (fun copy => .copied copy.1 copy.2) <$>
        EosDb.dbGetI64 ndebug iterator bufferSize
  | .dbFindI64 code scope table id =>
      .iterator <$> EosDb.dbFindI64 code scope table id
  | .idxStore kind code scope table payer id value memory =>
      .iterator <$> EosDb.idxStore kind code scope table payer id value memory
  | .idxUpdate kind iterator payer secondary =>
      (fun _ => .done) <$> EosDb.idxUpdate ndebug kind iterator payer secondary
  | .idxRemove kind iterator =>
      (fun _ => .done) <$> EosDb.idxRemove ndebug kind iterator
  | .dbStoreByKey _ scope key payer buffer block =>
      (fun _ => .done) <$>
        EosDb.dbStoreByKey sha ndebug scope key payer buffer block
  | .dbUpdateByKey _ scope key payer buffer =>
      (fun _ => .done) <$>
        EosDb.dbUpdateByKey sha ndebug scope key payer buffer
  | .dbRemoveByKey _ scope key =>
      (fun _ => .done) <$> EosDb.dbRemoveByKey sha ndebug scope key
  | .dbFindByKey _ scope key =>
      .found <$> EosDb.dbFindByKey sha scope key
  | .startUndoSession =>
      (fun _ => .done) <$> onDatabase Database.startUndoSession
  | .undo place => (fun _ => .done) <$> restore Database.undo place
  | .squash => (fun _ => .done) <$> onDatabase (Database.squash ndebug)
  | .commit revision =>
      (fun _ => .done) <$> onDatabase (Database.commit revision)
  | .undoAll place => (fun _ => .done) <$> restore Database.undoAll place
  | .setRevision revision =>
      (fun _ => .done) <$> onDatabase (Database.setRevision revision)

/-- The caller goes on after an exception. -/
def step (eos : EosDb) (call : EosCall) : Option EosDb :=
  survive (call.program sha ndebug eos)

end EosCall

/-! ## Calls through iterators -/

namespace EosDb

variable {eos : EosDb} {ndebug : Bool}

/-- The program ends the process, or it makes row steps and ends normally or
with an exception. -/
def Loose {α : Type} (program : EosDbM α) (eos : EosDb)
    (post : α → EosDb → Prop) : Prop :=
  Ends program eos
    (fun value final => RowSteps eos.db final.db ∧ post value final)
    (fun fault final => fault.isException = true → RowSteps eos.db final.db)

theorem Steps.loose {α : Type} {program : EosDbM α}
    {post : α → EosDb → Prop} (steps : Steps program eos post) :
    Loose program eos post :=
  Ends.imp steps (fun _ _ holds => holds) fun _ _ failed _ => failed.2

/-- The program reads and changes nothing, or it ends the process. -/
def Reads {α : Type} (program : EosDbM α) (eos : EosDb)
    (post : α → Prop) : Prop :=
  Ends program eos (fun value final => final = eos ∧ post value)
    (fun fault _ => fault.isException = false)

theorem Reads.andThen {α β : Type} {program : EosDbM α}
    {continuation : α → EosDbM β} {post : α → Prop} {post' : β → EosDb → Prop}
    (reads : Reads program eos post)
    (rest : ∀ value, post value → Loose (continuation value) eos post') :
    Loose (program >>= continuation) eos post' := by
  refine ends_bind (Ends.imp reads ?_ ?_)
  · rintro value middle ⟨rfl, holds⟩
    exact rest value holds
  · intro fault final isNone isSome
    rw [isNone] at isSome
    cases isSome

theorem Loose.andThen {α β : Type} {program : EosDbM α}
    {continuation : α → EosDbM β} {post : α → EosDb → Prop}
    {post' : β → EosDb → Prop} (ready : eos.db.Ready)
    (first : Loose program eos post)
    (rest : ∀ value middle, middle.db.Ready → post value middle →
      Loose (continuation value) middle post') :
    Loose (program >>= continuation) eos post' := by
  refine ends_bind (Ends.imp first ?_ fun _ _ failed => failed)
  rintro value middle ⟨steps, holds⟩
  refine Ends.imp (rest value middle (RowSteps.ready steps ready) holds) ?_ ?_
  · rintro result final ⟨later, reached⟩
    exact ⟨steps.trans later, reached⟩
  · intro fault final later isException
    exact steps.trans (later isException)

/-- A pointer that can be followed leads to the object that is stored
there. -/
theorem reads_objectAt_place (ready : eos.db.Ready) (t : TableType)
    (address : Address) :
    Reads (objectAt t address) eos
      (fun value =>
        (eos.db.rows t).rows[(indexOf t).id value]? = some value ∧
          eos.place t ((indexOf t).id value) = address) := by
  apply ends_bind
  apply ends_of_ok (indices_apply ready t)
  apply ends_bind
  apply ends_of_ok (get_apply eos)
  split
  · rename_i entry hit
    have found := (Maps.mem_map_toList _ _ _).mp (List.mem_of_find?_eq_some hit)
    have isId : (indexOf t).id entry.2 = entry.1 := (eos.db.rows t).keyed found
    have isAddress := List.find?_some hit
    rw [decide_eq_true_iff] at isAddress
    refine ends_pure ⟨rfl, ?_⟩
    simp only [isId]
    exact ⟨found, isAddress⟩
  · exact ends_of_error (throw_apply _ _) rfl

theorem reads_objectAt (ready : eos.db.Ready) (t : TableType)
    (address : Address) :
    Reads (objectAt t address) eos
      (fun value =>
        (eos.db.rows t).rows[(indexOf t).id value]? = some value) :=
  (reads_objectAt_place ready t address).imp
    (fun _ _ holds => ⟨holds.1, holds.2.1⟩) (fun _ _ endsProcess => endsProcess)

theorem reads_ofExcept {α : Type} {result : Except Fault α}
    (endsProcess : ∀ fault, result = .error fault →
      fault.isException = false) :
    Reads (ofExcept result) eos (fun value => result = .ok value) := by
  cases result with
  | ok value => exact ends_pure ⟨rfl, rfl⟩
  | error fault => exact ends_of_error (throw_apply _ _) (endsProcess fault rfl)

theorem get_fault {cache : IteratorCache} {iterator : Int} {fault : Fault}
    (failed : cache.get ndebug iterator = .error fault) :
    fault.isException = false := by
  unfold IteratorCache.get at failed
  split at failed
  · cases failed
    exact Fault.failedAssert_isException _ _
  · split at failed
    · cases failed
      exact Fault.failedAssert_isException _ _
    · split at failed
      · cases failed
        exact Fault.failedAssert_isException _ _
      · cases failed
        exact Fault.failedAssert_isException _ _
      · cases failed

theorem remove_fault {cache : IteratorCache} {iterator : Int} {fault : Fault}
    (failed : cache.remove ndebug iterator = .error fault) :
    fault.isException = false := by
  unfold IteratorCache.remove at failed
  split at failed
  · cases failed
    exact Fault.failedAssert_isException _ _
  · split at failed
    · cases failed
      exact Fault.failedAssert_isException _ _
    · split at failed
      · cases failed
        exact Fault.failedAssert_isException _ _
      · cases failed
      · cases failed

theorem getTable_fault {cache : IteratorCache} {id : Int64} {fault : Fault}
    (failed : cache.getTable ndebug id = .error fault) :
    fault.isException = false := by
  unfold IteratorCache.getTable at failed
  split at failed
  · cases failed
  · cases failed
    exact Fault.failedAssert_isException _ _

theorem reads_getObject (ready : eos.db.Ready) (r : RowTable) (iterator : Int) :
    Reads (getObject ndebug r iterator) eos
      (fun value =>
        (eos.db.rows r.type).rows[(indexOf r.type).id value]? =
          some value) := by
  refine ends_bind (ends_of_ok (get_apply eos) (ends_bind ?_))
  refine Ends.imp (reads_ofExcept fun _ => get_fault) ?_ fun _ _ failed => failed
  rintro address middle ⟨rfl, _⟩
  exact reads_objectAt ready r.type address

theorem reads_getTable (r : RowTable) (id : Int64) :
    Reads (getTable ndebug r id) eos (fun _ => True) := by
  refine ends_bind (ends_of_ok (get_apply eos) ?_)
  exact Ends.imp (reads_ofExcept fun _ => getTable_fault)
    (fun _ _ holds => ⟨holds.1, trivial⟩) fun _ _ failed => failed

theorem loose_removeIterator (r : RowTable) (iterator : Int) :
    Loose (removeIterator ndebug r iterator) eos (fun _ _ => True) := by
  refine ends_bind (ends_of_ok (get_apply eos) ?_)
  refine Reads.andThen (reads_ofExcept fun _ => remove_fault) ?_
  intro cache _
  exact Steps.loose
    (steps_of_same rfl rfl trivial)

/-! ## Loose steps -/

/-- A reference to a table that is not stored cannot be used. -/
theorem loose_dbUpdateByScope {tab : Int64} {payer : Name} {buffer : Bytes}
    (ready : eos.db.Ready) :
    Loose (dbUpdateByScope tab payer buffer) eos (fun _ _ => True) := by
  cases found : (eos.db.rows .tableId).rows[tab]? with
  | some tableObj => exact (steps_dbUpdateByScope ready found).loose
  | none =>
      have missing : (eos.db.index .tableId).indices.find tab = none := found
      have failed : GenericIndex.modify tab
          (fun t : TableIdObject => { t with value := buffer, payer := payer })
            (eos.db.index .tableId) =
          .error .undefined (eos.db.index .tableId) := by
        rw [GenericIndex.modify, bind_apply_of_ok _ (get_apply _)]
        simp only [missing]
        rfl
      exact ends_of_error (onDatabase_error (ready.onRegistered_error failed))
        fun isException => by cases isException

theorem loose_dbUpdateI64 {iterator : Int} {payer : Name} {buffer : Bytes}
    (ready : eos.db.Ready) :
    Loose (dbUpdateI64 ndebug iterator payer buffer) eos (fun _ _ => True) := by
  refine (reads_getObject ready .keyValue iterator).andThen ?_
  intro obj found
  exact (steps_updateI64Row ready found).loose

theorem loose_dbRemoveI64 {iterator : Int} (ready : eos.db.Ready) :
    Loose (dbRemoveI64 ndebug iterator) eos (fun _ _ => True) := by
  refine (reads_getObject ready .keyValue iterator).andThen ?_
  intro obj found
  refine (reads_getTable .keyValue obj.tId).andThen ?_
  intro address _
  refine (reads_objectAt ready .tableId address).andThen ?_
  intro tableObj hasTable
  refine (steps_removeI64Row ready found hasTable).loose.andThen ready ?_
  intro _ middle _ _
  exact loose_removeIterator .keyValue iterator

theorem loose_idxUpdate {kind : IndexKind} {iterator : Int} {payer : Name}
    {secondary : SecondaryKey kind} (ready : eos.db.Ready) :
    Loose (idxUpdate ndebug kind iterator payer secondary) eos
      (fun _ _ => True) := by
  refine (reads_getObject ready (.index kind) iterator).andThen ?_
  intro obj found
  refine (reads_getTable (.index kind) _).andThen ?_
  intro _ _
  exact (steps_updateIdxRow ready found).loose

theorem loose_idxRemove {kind : IndexKind} {iterator : Int}
    (ready : eos.db.Ready) :
    Loose (idxRemove ndebug kind iterator) eos (fun _ _ => True) := by
  refine (reads_getObject ready (.index kind) iterator).andThen ?_
  intro obj found
  refine (reads_getTable (.index kind) _).andThen ?_
  intro address _
  refine (reads_objectAt ready .tableId address).andThen ?_
  intro tableObj hasTable
  refine (steps_dropRow (r := .index kind) ready found
    hasTable).loose.andThen ready ?_
  intro _ middle _ _
  exact loose_removeIterator (.index kind) iterator

theorem loose_dbFindI64 {code : Name} {scope : Sha256} {table : Name}
    {id : UInt64} (ready : eos.db.Ready) :
    Loose (dbFindI64 code scope table id) eos (fun _ _ => True) := by
  apply Steps.loose
  refine steps_bind_of_same (findTable_apply ready code scope table) rfl ?_
  split
  · exact steps_of_same rfl rfl trivial
  · rename_i tab _
    have cached : Steps (cacheTable .keyValue tab.id) eos (fun _ _ => True) :=
      steps_of_same rfl rfl trivial
    refine cached.andThen ready ?_
    intro tableEnd middle middleReady _
    refine steps_bind_of_same (indices_apply middleReady .keyValue) rfl ?_
    split
    · exact steps_of_same rfl rfl trivial
    · exact steps_of_same rfl rfl trivial

theorem loose_dbGetI64 {iterator : Int} {bufferSize : Nat}
    (ready : eos.db.Ready) :
    Loose (dbGetI64 ndebug iterator bufferSize) eos (fun _ _ => True) := by
  refine (reads_getObject ready .keyValue iterator).andThen ?_
  intro obj _
  apply Steps.loose
  split
  · exact steps_of_same rfl rfl trivial
  · exact steps_of_same rfl rfl trivial

section ByKey

variable {sha : Bytes → Sha256} {type : KeyType} {scope : Sha256}
  {key : Key type} {payer : Sha256} {buffer : Bytes}

theorem loose_of_hashKey {α : Type} {continuation : Sha256 → EosDbM α}
    {post : α → EosDb → Prop}
    (rest : ∀ tableKey, hashKey sha scope key = .ok tableKey →
      Loose (continuation tableKey) eos post) :
    Loose (ofExcept (hashKey sha scope key) >>= continuation) eos post := by
  cases hashed : hashKey sha scope key with
  | ok tableKey => exact rest tableKey hashed
  | error fault =>
      exact ends_of_error (bind_apply_of_error _ rfl)
        fun _ => Relation.ReflTransGen.refl

/-- A key that is stored already fails the assertion or the uniqueness of the
index. -/
theorem loose_dbStoreByKey {block : Block} (ready : eos.db.Ready) :
    Loose (dbStoreByKey sha ndebug scope key payer buffer block) eos
      (fun _ _ => True) := by
  refine loose_of_hashKey fun tableKey _ => ?_
  have created : Loose (create .tableKey block
      { id := tableKey, payer := payer, value := buffer }) eos _ :=
    (steps_create (t := .tableKey) ready trivial).loose
  refine ends_bind (ends_of_ok (indices_apply ready .tableKey) ?_)
  by_cases asserts : (((eos.db.rows .tableKey).find tableKey).isSome &&
      !ndebug) = true
  · simp only [asserts, if_true]
    exact ends_of_error (bind_apply_of_error _ (throw_apply _ _)) nofun
  · simp only [asserts]
    exact Ends.imp created (fun _ _ holds => ⟨holds.1, trivial⟩)
      fun _ _ failed => failed

/-- A record that is not stored fails the assertion. -/
theorem loose_of_record {tableKey : Sha256}
    {continuation : TableKeyObject → EosDbM PUnit} (ready : eos.db.Ready)
    (rest : ∀ record, (eos.db.rows .tableKey).rows[record.id]? = some record →
      Steps (continuation record) eos (fun _ _ => True)) :
    Loose (indices .tableKey >>= fun records =>
      match records.find tableKey with
      | none => throw (.failedAssert ndebug "object key not found")
      | some existing => continuation existing) eos (fun _ _ => True) := by
  refine ends_bind (ends_of_ok (indices_apply ready .tableKey) ?_)
  cases found : (eos.db.rows .tableKey).find tableKey with
  | none =>
      refine ends_of_error (throw_apply _ _) ?_
      rw [Fault.failedAssert_isException]
      nofun
  | some record =>
      have isId : record.id = tableKey := (eos.db.rows .tableKey).keyed found
      exact (rest record (by rw [isId]; exact found)).loose

theorem loose_dbFindByKey (ready : eos.db.Ready) :
    Loose (dbFindByKey sha scope key) eos (fun _ _ => True) := by
  refine loose_of_hashKey fun tableKey _ => Steps.loose ?_
  exact steps_bind_of_same (indices_apply ready .tableKey) rfl
    (steps_of_same rfl rfl trivial)

theorem loose_dbUpdateByKey (ready : eos.db.Ready) :
    Loose (dbUpdateByKey sha ndebug scope key payer buffer) eos
      (fun _ _ => True) := by
  refine loose_of_hashKey fun tableKey _ => loose_of_record ready ?_
  intro record found
  exact (steps_modify (t := .tableKey) ready found
    (interchangeable_tableKey record _ _)).imp fun _ _ _ => trivial

theorem loose_dbRemoveByKey (ready : eos.db.Ready) :
    Loose (dbRemoveByKey sha ndebug scope key) eos (fun _ _ => True) := by
  refine loose_of_hashKey fun tableKey _ => loose_of_record ready ?_
  intro record found
  exact (steps_remove (t := .tableKey) ready found).imp fun _ _ _ => trivial

end ByKey

end EosDb

end StateDatabase
