import Mathlib
import StateDatabase.FailingIndex
import StateDatabase.EosCalls

/-!
# Calls of `eos_db` in a full segment

The calls that store, change and remove rows, with every place at which they
ask for memory.  `assign` may run out of memory in the middle of a modifier:
`db_update_by_key` writes the payer before it, the other two updates write the
payer after it.  What the container does with the element then is a parameter.
-/

namespace StateDatabase

open Programs GenericIndex

namespace Limited

open EosDb

section Insertion

variable {T : IndexType} (refuses : IndexSite → Bool)

/-- The part of `emplace` before the new row is recorded. -/
def insert (value : T.Value) : IndexM T PUnit := do
  allocate refuses .element
  let index ← get
  match index.indices.emplace value with
  | none => throw (.logicError GenericIndex.uniquenessMessage)
  | some inserted => set { index with indices := inserted }

theorem emplace_eq (value : T.Value) :
    emplace refuses value =
      (insert refuses value >>= fun _ => onCreate refuses value) := by
  simp only [emplace, insert, bind_assoc]
  congr 1
  funext _
  congr 1
  funext index
  cases index.indices.emplace value with
  | none => rfl
  | some inserted => rfl

end Insertion

/-! ## The calls -/

variable (refuses : TableType → IndexSite → Bool) (thrown : ThrownModifier)

/-- `db.create`: the row stands in its block before it is recorded. -/
def createObject (t : TableType) (block : Block) (value : (indexOf t).Value) :
    EosDbM PUnit := do
  onDatabase (Database.onRegistered t (insert (refuses t) value))
  let eos ← get
  set { eos with
    place := Function.update eos.place t
      (Function.update (eos.place t) ((indexOf t).id value) block.address) }
  onDatabase (Database.onRegistered t (onCreate (refuses t) value))

def modifyObject (t : TableType) (id : (indexOf t).Id)
    (modifier : (indexOf t).Value → Except (indexOf t).Value (indexOf t).Value) :
    EosDbM PUnit :=
  onDatabase (Database.onRegistered t
    (modify (refuses t) thrown id modifier))

def removeObject (t : TableType) (id : (indexOf t).Id) : EosDbM PUnit :=
  onDatabase (Database.onRegistered t (remove (refuses t) id))

/-- A modifier that calls `assign`: without memory the object is left with the
fields that were written before. -/
def assigning (t : TableType)
    (written new : (indexOf t).Value → (indexOf t).Value) :
    (indexOf t).Value → Except (indexOf t).Value (indexOf t).Value :=
  fun value =>
    if refuses t .modifier then .error (written value) else .ok (new value)

def findOrCreateTable (code : Name) (scope : Sha256) (table payer : Name)
    (block : Block) : EosDbM Int64 := do
  match ← findTable code scope table with
  | some existing => return existing.id
  | none =>
      let new := newTable code scope table payer [] block
      createObject refuses .tableId block new
      return new.id

def dbStoreI64 (code : Name) (scope : Sha256) (table payer : Name)
    (id : UInt64) (buffer : Bytes) (memory : Memory) : EosDbM Int := do
  let tab ← findOrCreateTable refuses code scope table payer memory.table
  let obj : KeyValueObject :=
    { id := id.toInt64
      tId := tab
      primaryKey := id
      payer := payer
      value := buffer }
  createObject refuses .keyValue memory.row obj
  modifyObject refuses thrown .tableId tab fun t =>
    .ok { t with count := t.count + 1 }
  let _ ← cacheTable .keyValue tab
  addObject .keyValue obj.id

def dbUpdateByScope (iterator : Int64) (payer : Name) (buffer : Bytes) :
    EosDbM PUnit :=
  modifyObject refuses thrown .tableId iterator
    (assigning refuses .tableId id
      fun t => { t with value := buffer, payer := payer })

def dbUpdateI64 (ndebug : Bool) (iterator : Int) (payer : Name)
    (buffer : Bytes) : EosDbM PUnit := do
  let obj ← getObject ndebug .keyValue iterator
  modifyObject refuses thrown .keyValue obj.id
    (assigning refuses .keyValue id
      fun o => { o with value := buffer, payer := payer })

/-- What `db_remove_i64` does to the row and the table that it found. -/
def removeI64Row (row tableObj : Int64) : EosDbM PUnit := do
  modifyObject refuses thrown .tableId tableObj fun t =>
    .ok { t with count := t.count - 1 }
  removeObject refuses .keyValue row
  match (← indices .tableId).find tableObj with
  | none => throw .undefined
  | some table =>
      if table.count = 0 then removeObject refuses .tableId tableObj

def dbRemoveI64 (ndebug : Bool) (iterator : Int) : EosDbM PUnit := do
  let obj ← getObject ndebug .keyValue iterator
  let tableObj ← objectAt .tableId (← getTable ndebug .keyValue obj.tId)
  removeI64Row refuses thrown obj.id tableObj.id
  removeIterator ndebug .keyValue iterator

variable (sha : Bytes → Sha256)

def dbUpdateByKey {type : KeyType} (ndebug : Bool) (scope : Sha256)
    (key : Key type) (payer : Sha256) (buffer : Bytes) : EosDbM PUnit := do
  let tableKey ← EosDb.ofExcept (hashKey sha scope key)
  match (← indices .tableKey).find tableKey with
  | none => throw (.failedAssert ndebug "object key not found")
  | some existing =>
      modifyObject refuses thrown .tableKey existing.id
        (assigning refuses .tableKey
          (fun t => { t with payer := payer })
          fun t => { t with payer := payer, value := buffer })

end Limited

/-- The calls that store, change and remove rows. -/
inductive LimitedCall where
  | dbStoreI64 (code : Name) (scope : Sha256) (table payer : Name)
      (id : UInt64) (buffer : Bytes) (memory : Memory)
  | dbRemoveI64 (iterator : Int)
  | dbUpdateI64 (iterator : Int) (payer : Name) (buffer : Bytes)
  | dbUpdateByScope (iterator : Int64) (payer : Name) (buffer : Bytes)
  | dbUpdateByKey (type : KeyType) (scope : Sha256) (key : Key type)
      (payer : Sha256) (buffer : Bytes)

namespace LimitedCall

/-- The same call in a segment with enough memory. -/
def call : LimitedCall → EosCall
  | .dbStoreI64 code scope table payer id buffer memory =>
      .dbStoreI64 code scope table payer id buffer memory
  | .dbRemoveI64 iterator => .dbRemoveI64 iterator
  | .dbUpdateI64 iterator payer buffer => .dbUpdateI64 iterator payer buffer
  | .dbUpdateByScope iterator payer buffer =>
      .dbUpdateByScope iterator payer buffer
  | .dbUpdateByKey type scope key payer buffer =>
      .dbUpdateByKey type scope key payer buffer

/-- The call in a full segment. -/
def program (refuses : TableType → IndexSite → Bool) (thrown : ThrownModifier)
    (sha : Bytes → Sha256) (ndebug : Bool) : LimitedCall → EosDb.EosDbM Reply
  | .dbStoreI64 code scope table payer id buffer memory =>
      .iterator <$> Limited.dbStoreI64 refuses thrown code scope table payer id
        buffer memory
  | .dbRemoveI64 iterator =>
      (fun _ => .done) <$> Limited.dbRemoveI64 refuses thrown ndebug iterator
  | .dbUpdateI64 iterator payer buffer =>
      (fun _ => .done) <$>
        Limited.dbUpdateI64 refuses thrown ndebug iterator payer buffer
  | .dbUpdateByScope iterator payer buffer =>
      (fun _ => .done) <$>
        Limited.dbUpdateByScope refuses thrown iterator payer buffer
  | .dbUpdateByKey _ scope key payer buffer =>
      (fun _ => .done) <$> Limited.dbUpdateByKey refuses thrown sha ndebug scope
        key payer buffer

end LimitedCall

/-! ## With enough memory -/

namespace Limited

open EosDb

section Generous

/-- A program on an index that is registered and stored. -/
theorem onRegistered_apply (eos : EosDb) {t : TableType} {α : Type}
    {index : GenericIndex (indexOf t)} (program : IndexM (indexOf t) α)
    (registered : t ∈ eos.db.indexList)
    (found : eos.db.segment t = some index) :
    onDatabase (Database.onRegistered t program) eos =
      match program index with
      | .ok value final =>
          .ok value { eos with db := eos.db.setIndex t final }
      | .error fault final =>
          .error fault { eos with db := eos.db.setIndex t final } := by
  rw [onDatabase, zoom, Database.onRegistered,
    bind_apply_of_ok _ (get_apply _), if_pos registered, Database.onIndex,
    found]
  cases ran : program index with
  | ok value final => simp only [ran]
  | error fault final => simp only [ran]

/-- A program on an index that is not registered or not stored. -/
theorem onRegistered_undefined {t : TableType} {α : Type} {eos : EosDb}
    (program : IndexM (indexOf t) α)
    (missing : t ∉ eos.db.indexList ∨ eos.db.segment t = none) :
    onDatabase (Database.onRegistered t program) eos =
      .error .undefined eos := by
  rw [onDatabase, zoom, Database.onRegistered, bind_apply_of_ok _ (get_apply _)]
  by_cases registered : t ∈ eos.db.indexList
  · rcases missing with unregistered | absent
    · exact absurd registered unregistered
    · rw [if_pos registered, Database.onIndex, absent]
  · rw [if_neg registered]
    rfl

theorem createObject_generous (t : TableType) (block : Block)
    (value : (indexOf t).Value) :
    createObject (fun _ _ => false) t block value = create t block value := by
  have emplaces := rowCall_generous (T := indexOf t) .keepsElement false
    (.emplace value)
  rw [rowCall, emplace_eq] at emplaces
  change _ = GenericIndex.emplace value at emplaces
  funext eos
  rw [createObject, create, Database.create, ← emplaces]
  by_cases missing : t ∉ eos.db.indexList ∨ eos.db.segment t = none
  · rw [bind_apply_of_error _ (onRegistered_undefined _ missing),
      bind_apply_of_error _ (onRegistered_undefined _ missing)]
  push Not at missing
  obtain ⟨registered, stored⟩ := missing
  obtain ⟨index, found⟩ := Option.ne_none_iff_exists'.mp stored
  cases inserts : insert (fun _ => false) value index with
  | error fault final =>
      have both := bind_apply_of_error
        (fun _ => onCreate (fun _ => false) value) inserts
      have alone := onRegistered_apply eos (insert (fun _ => false) value)
        registered found
      have together := onRegistered_apply eos
        (insert (fun _ => false) value >>= fun _ =>
          onCreate (fun _ => false) value) registered found
      rw [inserts] at alone
      rw [both] at together
      rw [bind_apply_of_error _ alone, bind_apply_of_error _ together]
  | ok result inserted =>
      have records : onCreate (fun _ => false) value inserted =
          .ok ⟨⟩ (recordHead (onCreateHead value) inserted) := by
        rw [onCreate, record_generous]
        rfl
      have both := (bind_apply_of_ok
        (fun _ => onCreate (fun _ => false) value) inserts).trans records
      have alone := onRegistered_apply eos (insert (fun _ => false) value)
        registered found
      have together := onRegistered_apply eos
        (insert (fun _ => false) value >>= fun _ =>
          onCreate (fun _ => false) value) registered found
      rw [inserts] at alone
      rw [both] at together
      rw [bind_apply_of_ok _ alone, bind_apply_of_ok _ together,
        bind_apply_of_ok _ (get_apply _), bind_apply_of_ok _ (get_apply _),
        bind_apply_of_ok _ (set_apply _ _)]
      have kept : (eos.db.setIndex t inserted).segment t = some inserted :=
        Database.setIndex_segment_self (F := eosDbTables) t inserted
      have after := onRegistered_apply
        { eos with
          db := eos.db.setIndex t inserted
          place := Function.update eos.place t
            (Function.update (eos.place t) ((indexOf t).id value)
              block.address) }
        (onCreate (fun _ => false) value) registered kept
      rw [records] at after
      simp only [Database.setIndex, Function.update_idem] at after ⊢
      exact after

theorem assigning_generous (t : TableType)
    (written new : (indexOf t).Value → (indexOf t).Value) :
    assigning (fun _ _ => false) t written new =
      fun value => .ok (new value) := rfl

theorem modifyObject_generous (thrown : ThrownModifier) (t : TableType)
    (id : (indexOf t).Id)
    (modifier : (indexOf t).Value → (indexOf t).Value) :
    modifyObject (fun _ _ => false) thrown t id
      (fun value => .ok (modifier value)) = EosDb.modify t id modifier := by
  have generous := rowCall_generous (T := indexOf t) thrown false
    (.modify id modifier)
  rw [rowCall] at generous
  rw [modifyObject, generous]
  rfl

theorem removeObject_generous (t : TableType) (id : (indexOf t).Id) :
    removeObject (fun _ _ => false) t id = EosDb.remove t id := by
  have generous := rowCall_generous (T := indexOf t) .keepsElement false
    (.remove id)
  rw [rowCall] at generous
  rw [removeObject, generous]
  rfl

/-- With enough memory these are the calls of `eos_db`. -/
theorem program_generous (thrown : ThrownModifier) (sha : Bytes → Sha256)
    (ndebug : Bool) (call : LimitedCall) :
    call.program (fun _ _ => false) thrown sha ndebug =
      call.call.program sha ndebug := by
  cases call with
  | dbStoreI64 code scope table payer id buffer memory =>
      simp only [LimitedCall.program, dbStoreI64, findOrCreateTable,
        createObject_generous, modifyObject_generous]
      rfl
  | dbRemoveI64 iterator =>
      have removes : ∀ row tableObj : Int64,
          removeI64Row (fun _ _ => false) thrown row tableObj =
            EosDb.removeI64Row row tableObj := by
        intro row tableObj
        simp only [removeI64Row, modifyObject_generous, removeObject_generous]
        exact (bind_assoc (EosDb.modify .tableId tableObj _) _ _).symm
      simp only [LimitedCall.program, dbRemoveI64, removes]
      rfl
  | dbUpdateI64 iterator payer buffer =>
      simp only [LimitedCall.program, dbUpdateI64, assigning_generous,
        modifyObject_generous]
      rfl
  | dbUpdateByScope iterator payer buffer =>
      simp only [LimitedCall.program, dbUpdateByScope, assigning_generous,
        modifyObject_generous]
      rfl
  | dbUpdateByKey type scope key payer buffer =>
      simp only [LimitedCall.program, dbUpdateByKey, assigning_generous,
        modifyObject_generous]
      rfl

end Generous

/-! ## The operations on a given state -/

section Steps

variable {refuses : TableType → IndexSite → Bool} {thrown : ThrownModifier}
  {eos : EosDb} {t : TableType}

/-- There is no memory to record a change in the head of the undo stack. -/
def NotRecorded (refuses : TableType → IndexSite → Bool) (t : TableType)
    (site : UndoState (indexOf t) → Option IndexSite) (eos : EosDb) : Prop :=
  recordRefused (refuses t) site (eos.db.index t) = true

instance (t : TableType) (site : UndoState (indexOf t) → Option IndexSite) :
    Decidable (NotRecorded refuses t site eos) := by
  unfold NotRecorded
  infer_instance

/-- `create` stores and records the row, throws before it stores it, or throws
when it should record it. -/
theorem ends_createObject {block : Block} {value : (indexOf t).Value}
    (ready : eos.db.Ready) :
    Ends (createObject refuses t block value) eos
      (fun _ final => (refuses t .element = false ∧
          ¬ NotRecorded refuses t (onCreateSite value) eos) ∧
        ∃ inserted, (eos.db.rows t).emplace value = some inserted ∧
          Database.Wrote t inserted eos.db final.db)
      (fun _ final =>
        (final.db = eos.db ∧
          ¬ (refuses t .element = false ∧ (eos.db.rows t).Admits value)) ∨
        (refuses t .element = false ∧
            NotRecorded refuses t (onCreateSite value) eos) ∧
          ∃ inserted, (eos.db.rows t).emplace value = some inserted ∧
            Database.Wrote t inserted eos.db final.db) := by
  have found := ready.segment_eq t
  have registered := ready.registered t
  have inserting := onRegistered_apply eos (insert (refuses t) value)
    registered found
  cases element : refuses t .element with
  | true =>
      have refused : insert (refuses t) value (eos.db.index t) =
          .error .badAlloc (eos.db.index t) :=
        bind_apply_of_error _ (allocate_refused element)
      rw [refused] at inserting
      apply ends_of_error (bind_apply_of_error _ inserting)
      exact Or.inl ⟨ready.setIndex_index t, fun granted => by cases granted.1⟩
  | false =>
      have starts : insert (refuses t) value (eos.db.index t) =
          match (eos.db.rows t).emplace value with
          | none => .error (.logicError uniquenessMessage) (eos.db.index t)
          | some inserted =>
              .ok ⟨⟩ { eos.db.index t with indices := inserted } := by
        rw [insert, bind_apply_of_ok _ (allocate_granted element),
          bind_apply_of_ok _ (get_apply _), Database.rows]
        cases (eos.db.index t).indices.emplace value with
        | none => rfl
        | some inserted => rfl
      cases attempt : (eos.db.rows t).emplace value with
      | none =>
          rw [attempt] at starts
          rw [starts] at inserting
          apply ends_of_error (bind_apply_of_error _ inserting)
          exact Or.inl ⟨ready.setIndex_index t, fun granted =>
            (MultiIndex.emplace_eq_none_iff _ _).mp attempt granted.2⟩
      | some inserted =>
          rw [attempt] at starts
          rw [starts] at inserting
          have kept : (eos.db.setIndex t
              { eos.db.index t with indices := inserted }).segment t =
                some { eos.db.index t with indices := inserted } :=
            Database.setIndex_segment_self (F := eosDbTables) t _
          have recording := onRegistered_apply
            { eos with
              db := eos.db.setIndex t
                { eos.db.index t with indices := inserted }
              place := Function.update eos.place t
                (Function.update (eos.place t) ((indexOf t).id value)
                  block.address) }
            (onCreate (refuses t) value) registered kept
          have runs : createObject refuses t block value eos = _ :=
            (bind_apply_of_ok _ inserting).trans
              ((bind_apply_of_ok _ (get_apply _)).trans
                ((bind_apply_of_ok _ (set_apply _ _)).trans recording))
          have wrote : ∀ final : GenericIndex (indexOf t),
              final.indices = inserted →
              Database.Wrote t inserted eos.db
                ((eos.db.setIndex t
                  { eos.db.index t with indices := inserted }).setIndex t
                    final) := by
            intro final isInserted
            refine ⟨(ready.setIndex _).setIndex _, ?_⟩
            rw [Database.rows_setIndex, Database.rows_setIndex,
              Function.update_idem, isInserted]
          cases recorded : recordRefused (refuses t) (onCreateSite value)
              (eos.db.index t) with
          | true =>
              have stops : onCreate (refuses t) value
                  { eos.db.index t with indices := inserted } = _ :=
                record_refused _ recorded
              rw [stops] at runs
              apply ends_of_error runs
              exact Or.inr ⟨⟨rfl, recorded⟩, inserted, rfl, wrote _ rfl⟩
          | false =>
              have goesOn : onCreate (refuses t) value
                  { eos.db.index t with indices := inserted } = _ :=
                record_granted _ recorded
              rw [goesOn] at runs
              apply ends_of_ok runs
              refine ⟨⟨rfl, Bool.eq_false_iff.mp recorded⟩, inserted, rfl,
                wrote _ ?_⟩
              rw [recordHead_indices]

variable (thrown) in
/-- There is no memory to record the change. -/
theorem modifyObject_notRecorded {id : (indexOf t).Id}
    {value : (indexOf t).Value}
    (modifier : (indexOf t).Value →
      Except (indexOf t).Value (indexOf t).Value)
    (ready : eos.db.Ready)
    (found : (eos.db.rows t).rows[id]? = some value)
    (refused : NotRecorded refuses t (onModifySite value) eos) :
    modifyObject refuses thrown t id modifier eos = .error .badAlloc eos := by
  have failed := modify_notRecorded thrown modifier found refused
  have outcome := ready.onRegistered_error failed
  rw [ready.setIndex_index] at outcome
  exact onDatabase_error outcome

section Recorded

variable {id : (indexOf t).Id} {value left new : (indexOf t).Value}
  {modifier : (indexOf t).Value → Except (indexOf t).Value (indexOf t).Value}

variable (thrown modifier) in
/-- The modifier succeeds and the row excludes the same rows as before. -/
theorem modifyObject_ok (ready : eos.db.Ready)
    (found : (eos.db.rows t).rows[id]? = some value)
    (granted : ¬ NotRecorded refuses t (onModifySite value) eos)
    (works : modifier value = .ok new)
    (same : (indexOf t).Interchangeable value new) :
    ∃ db modified, modifyObject refuses thrown t id modifier eos =
        .ok ⟨⟩ { eos with db := db } ∧
      Database.Wrote t modified eos.db db ∧
      ∀ tested : (indexOf t).Id, modified.rows[tested]? =
        if id = tested then some new else (eos.db.rows t).rows[tested]? := by
  obtain ⟨modified, success, isRows⟩ := modify_of_interchangeable found same
  have isRecorded := modify_recorded thrown modifier found
    (Bool.eq_false_iff.mpr granted)
  rw [bind_apply_of_ok _ (get_apply _)] at isRecorded
  simp only [works, recordHead_indices] at isRecorded
  change (eos.db.index t).indices.modify id new = some modified at success
  simp only [success] at isRecorded
  refine ⟨_, modified, onDatabase_ok (ready.onRegistered_ok isRecorded),
    ⟨ready.setIndex _, Database.rows_setIndex _⟩, isRows⟩

variable (modifier) in
/-- The modifier throws, and the container erases the row. -/
theorem modifyObject_erased (ready : eos.db.Ready)
    (found : (eos.db.rows t).rows[id]? = some value)
    (granted : ¬ NotRecorded refuses t (onModifySite value) eos)
    (throws : modifier value = .error left) :
    ∃ db, modifyObject refuses .erasesElement t id modifier eos =
        .error .badAlloc { eos with db := db } ∧
      Database.Wrote t ((eos.db.rows t).erase id) eos.db db := by
  have isRecorded := modify_recorded .erasesElement modifier found
    (Bool.eq_false_iff.mpr granted)
  rw [bind_apply_of_ok _ (get_apply _)] at isRecorded
  simp only [throws, recordHead_indices] at isRecorded
  rw [bind_apply_of_ok _ (set_apply _ _)] at isRecorded
  exact ⟨_, onDatabase_error (ready.onRegistered_error isRecorded),
    ready.setIndex _, Database.rows_setIndex _⟩

variable (modifier) in
/-- The modifier throws, and the container keeps the row as it was left. -/
theorem modifyObject_kept (ready : eos.db.Ready)
    (found : (eos.db.rows t).rows[id]? = some value)
    (granted : ¬ NotRecorded refuses t (onModifySite value) eos)
    (throws : modifier value = .error left)
    (same : (indexOf t).Interchangeable value left) :
    ∃ db modified, modifyObject refuses .keepsElement t id modifier eos =
        .error .badAlloc { eos with db := db } ∧
      Database.Wrote t modified eos.db db ∧
      ∀ tested : (indexOf t).Id, modified.rows[tested]? =
        if id = tested then some left else (eos.db.rows t).rows[tested]? := by
  obtain ⟨modified, success, isRows⟩ := modify_of_interchangeable found same
  have isRecorded := modify_recorded .keepsElement modifier found
    (Bool.eq_false_iff.mpr granted)
  rw [bind_apply_of_ok _ (get_apply _)] at isRecorded
  change (eos.db.index t).indices.modify id left = some modified at success
  simp only [throws, recordHead_indices, success] at isRecorded
  rw [bind_apply_of_ok _ (set_apply _ _)] at isRecorded
  exact ⟨_, modified, onDatabase_error (ready.onRegistered_error isRecorded),
    ⟨ready.setIndex _, Database.rows_setIndex _⟩, isRows⟩

end Recorded

variable (refuses eos) in
theorem ends_removeObject {id : (indexOf t).Id} {value : (indexOf t).Value}
    (ready : eos.db.Ready)
    (found : (eos.db.rows t).rows[id]? = some value) :
    Ends (removeObject refuses t id) eos
      (fun _ final => Database.Wrote t ((eos.db.rows t).erase id) eos.db
        final.db)
      (fun _ final => final = eos) := by
  cases recorded : recordRefused (refuses t) (onRemoveSite value)
      (eos.db.index t) with
  | true =>
      have outcome := ready.onRegistered_error
        (remove_notRecorded found recorded)
      rw [ready.setIndex_index] at outcome
      exact ends_of_error (onDatabase_error outcome) rfl
  | false =>
      have outcome := ready.onRegistered_ok (remove_recorded found recorded)
      exact ends_of_ok (onDatabase_ok outcome)
        ⟨ready.setIndex _, Database.rows_setIndex _⟩

end Steps

end Limited

end StateDatabase
