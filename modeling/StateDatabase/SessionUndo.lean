import Mathlib
import StateDatabase.RowSteps
import StateDatabase.DatabaseRuns

/-!
# Undoing the sessions of `eos_db`

A session on top of any database records what the calls of `eos_db` do inside
it.  Each `undo` goes back to the database at the start of the newest session
that is still on the undo stacks: first to those of the nested sessions that
were pushed, and then to that of the session itself.
-/

namespace StateDatabase

open Programs GenericIndex

/-! ## One index -/

section OneIndex

variable {T : IndexType} {start index : GenericIndex T} {depth : Nat}

/-- The index after `depth` sessions were started on top of `start`: each undo
state records the changes since the index at the start of its session. -/
def Layered (start : GenericIndex T) : Nat → GenericIndex T → Prop
  | 0, index => index = start
  | depth + 1, index => ∃ head below,
      Layered start depth below ∧
      index.stack = head :: below.stack ∧
      index.revision = below.revision + 1 ∧
      Records head below.indices index.indices

theorem Layered.started (layered : Layered start depth index) :
    Layered start (depth + 1) index.opened :=
  ⟨_, index, layered, rfl, rfl, records_empty _ _⟩

/-- `undo` gives back the index at the start of the newest session. -/
theorem Layered.undone (layered : Layered start (depth + 1) index) :
    ∃ below, GenericIndex.undo index = .ok ⟨⟩ below ∧
      Layered start depth below := by
  obtain ⟨head, below, belowLayered, top, revision, records⟩ := layered
  refine ⟨below, ?_, belowLayered⟩
  rw [undo_apply_cons top (undoRows_of_records records), revision,
    add_sub_cancel_right]

/-- A change of rows that the newest undo state records. -/
theorem Layered.recorded {update : UndoState T → UndoState T}
    {rows : MultiIndex T} (layered : Layered start (depth + 1) index)
    (keepsRecord : ∀ head before, Records head before index.indices →
      Records (update head) before rows) :
    Layered start (depth + 1)
      { recordHead update index with indices := rows } := by
  obtain ⟨head, below, belowLayered, top, revision, records⟩ := layered
  refine ⟨update head, below, belowLayered, ?_, ?_,
    keepsRecord head below.indices records⟩
  · simp only [recordHead, top]
  · simp only [recordHead, top, revision]

theorem Layered.revision_eq : ∀ {depth : Nat} {index : GenericIndex T},
    Layered start depth index → index.revision = start.revision + depth
  | 0, _, layered => by
      cases layered
      simp
  | depth + 1, _, ⟨_, _, below, _, revision, _⟩ => by
      rw [revision, below.revision_eq]
      push_cast
      ring

end OneIndex

/-! ## The database -/

namespace Database

variable {τ : Type} [DecidableEq τ] {F : IndexFamily τ} {database : Database F}

/-- All index types are registered, and no revision is negative. -/
structure Complete (database : Database F) : Prop extends Ready database where
  nodup : database.indexList.Nodup
  revisions : ∀ t, 0 ≤ (database.index t).revision

/-- The database after `depth` sessions were started on top of `start`. -/
structure LayeredOver (start : Database F) (depth : Nat)
    (database : Database F) : Prop where
  ready : database.Ready
  indexList : database.indexList = start.indexList
  readOnly : database.readOnly = start.readOnly
  layers : ∀ t, Layered (start.index t) depth (database.index t)

variable {start : Database F} {depth : Nat}

theorem LayeredOver.setIndex {t : τ} {final : GenericIndex (F.indexType t)}
    (isOver : LayeredOver start depth database)
    (layered : Layered (start.index t) depth final) :
    LayeredOver start depth (database.setIndex t final) where
  ready := isOver.ready.setIndex final
  indexList := isOver.indexList
  readOnly := isOver.readOnly
  layers := by
    intro tested
    by_cases same : tested = t
    · subst same
      rwa [index_setIndex_self]
    · rw [index_setIndex_ne same]
      exact isOver.layers tested

omit [DecidableEq τ] in
/-- With no session left the database is the one at the start. -/
theorem LayeredOver.eq_start (isOver : LayeredOver start 0 database)
    (ready : start.Ready) : database = start := by
  have sameSegment : database.segment = start.segment := by
    funext t
    have layer : database.index t = start.index t := isOver.layers t
    rw [isOver.ready.segment_eq t, ready.segment_eq t, layer]
  obtain ⟨segment, indexList, readOnly⟩ := database
  obtain ⟨segment', indexList', readOnly'⟩ := start
  cases sameSegment
  cases isOver.indexList
  cases isOver.readOnly
  rfl

/-- What a loop that ends normally does to each index. -/
theorem Ready.forIndices_ok
    {program : (t : τ) → IndexM (F.indexType t) PUnit}
    {next : (t : τ) → GenericIndex (F.indexType t)} :
    ∀ (targets : List τ) {database : Database F}, database.Ready →
      targets.Nodup →
      (∀ t ∈ targets, program t (database.index t) = .ok ⟨⟩ (next t)) →
        ∃ final, forIndices program targets database = .ok ⟨⟩ final ∧
          final.Ready ∧ final.indexList = database.indexList ∧
          final.readOnly = database.readOnly ∧
          ∀ t, final.index t =
            if t ∈ targets then next t else database.index t
  | [], database, ready, _, _ =>
      ⟨database, rfl, ready, rfl, rfl, by simp⟩
  | t :: rest, database, ready, nodup, each => by
      obtain ⟨notInRest, restNodup⟩ := List.nodup_cons.mp nodup
      have first : onIndex t (program t) database =
          .ok ⟨⟩ (database.setIndex t (next t)) := by
        simp only [onIndex, ready.segment_eq t, each t List.mem_cons_self]
      obtain ⟨final, finished, finalReady, indexList, readOnly, indices⟩ :=
        Ready.forIndices_ok rest (ready.setIndex (next t)) restNodup (by
          intro tested member
          have different : tested ≠ t := fun equal => notInRest (equal ▸ member)
          rw [index_setIndex_ne different]
          exact each tested (List.mem_cons_of_mem t member))
      refine ⟨final, ?_, finalReady, indexList, readOnly, ?_⟩
      · rw [forIndices, bind_apply_of_ok _ first]
        exact finished
      · intro tested
        rw [indices tested]
        by_cases inRest : tested ∈ rest
        · rw [if_pos inRest, if_pos (List.mem_cons_of_mem t inRest)]
        · rw [if_neg inRest]
          by_cases same : tested = t
          · subst same
            rw [index_setIndex_self, if_pos List.mem_cons_self]
          · rw [index_setIndex_ne same, if_neg (by simp [same, inRest])]

/-- `undo` on all indices. -/
theorem LayeredOver.undone (isOver : LayeredOver start (depth + 1) database)
    (complete : start.Complete) :
    ∃ below, undo database = .ok ⟨⟩ below ∧ LayeredOver start depth below := by
  choose next undoes layers using fun t => (isOver.layers t).undone
  obtain ⟨final, finished, ready, indexList, readOnly, indices⟩ :=
    isOver.ready.forIndices_ok database.indexList
      (isOver.indexList ▸ complete.nodup) fun t _ => undoes t
  refine ⟨final, finished, ready, indexList.trans isOver.indexList,
    readOnly.trans isOver.readOnly, ?_⟩
  intro t
  rw [indices t, if_pos (isOver.ready.registered t)]
  exact layers t

/-- The sub-sessions of a session apply to the listed indices. -/
structure Spans (targets : List τ) (sessions : List (SubSession τ)) : Prop where
  indices : sessions.map SubSession.index = targets
  armed : ∀ session ∈ sessions, session.apply = true

/-- Starting the sub-sessions puts an empty undo state on every stack. -/
theorem Ready.startSubSessions_ok :
    ∀ (targets : List τ) {database : Database F}, database.Ready →
      targets.Nodup →
      (∀ t, 0 ≤ (database.index t).revision) →
      (∀ t ∈ targets, (database.index t).revision < int64Max) →
        ∃ sessions final,
          startSubSessions targets database = .ok sessions final ∧
          Spans targets sessions ∧
          final.Ready ∧ final.indexList = database.indexList ∧
          final.readOnly = database.readOnly ∧
          ∀ t, final.index t =
            if t ∈ targets then (database.index t).opened
            else database.index t
  | [], database, ready, _, _, _ =>
      ⟨[], database, rfl, ⟨rfl, by simp⟩, ready, rfl, rfl, by simp⟩
  | t :: rest, database, ready, nodup, nonneg, bounded => by
      obtain ⟨notInRest, restNodup⟩ := List.nodup_cons.mp nodup
      have started : GenericIndex.startUndoSession (database.index t) =
          .ok ⟨⟩ (database.index t).opened :=
        startUndoSession_apply (bounded t List.mem_cons_self)
      have revision : (database.index t).opened.revision =
          (database.index t).revision + 1 := rfl
      generalize isNext : (database.index t).opened = next at started revision
      have first : startSubSession t database =
          .ok { index := t, apply := true, revision := 0 }
            (database.setIndex t next) := by
        have opened : onIndex t GenericIndex.startUndoSession database =
            .ok ⟨⟩ (database.setIndex t next) := by
          simp only [onIndex, ready.segment_eq t, started]
        have read : onIndex t (do return (← get).revision)
            (database.setIndex t next) =
              .ok next.revision (database.setIndex t next) := by
          simp only [onIndex, setIndex_segment_self]
          change EStateM.Result.ok next.revision
            ((database.setIndex t next).setIndex t next) = _
          rw [setIndex_self (setIndex_segment_self t next)]
        have armed : next.revision ≠ -1 := by
          have lower := nonneg t
          omega
        rw [startSubSession, bind_apply_of_ok _ opened, bind_apply_of_ok _ read,
          decide_eq_true armed]
        rfl
      have others : ∀ tested, tested ≠ t →
          (database.setIndex t next).index tested = database.index tested :=
        fun tested different => index_setIndex_ne different next
      obtain ⟨sessions, final, finished, spans, finalReady, indexList, readOnly,
          indices⟩ :=
        Ready.startSubSessions_ok rest (ready.setIndex next) restNodup
          (by
            intro tested
            by_cases same : tested = t
            · subst same
              rw [index_setIndex_self, revision]
              have lower := nonneg tested
              omega
            · rw [others tested same]
              exact nonneg tested)
          (by
            intro tested member
            rw [others tested fun equal => notInRest (equal ▸ member)]
            exact bounded tested (List.mem_cons_of_mem t member))
      refine ⟨{ index := t, apply := true, revision := 0 } :: sessions, final,
        ?_, ⟨?_, ?_⟩, finalReady, indexList, readOnly, ?_⟩
      · rw [startSubSessions, bind_apply_of_ok _ first,
          bind_apply_of_ok _ finished]
        rfl
      · rw [List.map_cons, spans.indices]
      · intro session member
        rcases List.mem_cons.mp member with isHead | inRest
        · rw [isHead]
        · exact spans.armed session inRest
      · intro tested
        rw [indices tested]
        by_cases inRest : tested ∈ rest
        · rw [if_pos inRest, if_pos (List.mem_cons_of_mem t inRest),
            others tested fun equal => notInRest (equal ▸ inRest)]
        · rw [if_neg inRest]
          by_cases same : tested = t
          · subst same
            rw [index_setIndex_self, if_pos List.mem_cons_self, isNext]
          · rw [others tested same, if_neg (by simp [same, inRest])]

/-- A new session starts on top of the others. -/
theorem LayeredOver.started (isOver : LayeredOver start depth database)
    (complete : start.Complete)
    (bounded : ∀ t ∈ database.indexList,
      (database.index t).revision < int64Max) :
    ∃ session next, startUndoSession database = .ok session next ∧
      Spans database.indexList session.subSessions ∧
      LayeredOver start (depth + 1) next := by
  obtain ⟨sessions, final, finished, spans, ready, indexList, readOnly,
      indices⟩ :=
    isOver.ready.startSubSessions_ok database.indexList
      (isOver.indexList ▸ complete.nodup)
      (by
        intro t
        rw [(isOver.layers t).revision_eq]
        have lower := complete.revisions t
        omega)
      bounded
  refine ⟨.ofSubSessions sessions, final, ?_, spans, ready,
    indexList.trans isOver.indexList, readOnly.trans isOver.readOnly, ?_⟩
  · rw [startUndoSession, bind_apply_of_ok _ (get_apply database),
      bind_apply_of_ok _ finished]
    rfl
  · intro t
    rw [indices t, if_pos (isOver.ready.registered t)]
    exact (isOver.layers t).started

/-- A session with a sub-session for every index undoes what the database
undoes. -/
theorem sessionUndo_eq_undo {session : DatabaseSession τ}
    (spans : Spans database.indexList session.subSessions) :
    sessionUndo session database = undo database := by
  rw [sessionUndo, forSubSessions_eq spans.armed, spans.indices, undo,
    bind_apply_of_ok _ (get_apply database)]

end Database

/-! ## Row steps inside a session -/

section RowSteps

variable {start before after : Database eosDbTables} {depth : Nat}

/-- The newest undo state records every step. -/
theorem RowStep.layeredOver (step : RowStep before after)
    (isOver : Database.LayeredOver start (depth + 1) before) :
    Database.LayeredOver start (depth + 1) after := by
  have ready := isOver.ready
  cases step with
  | @create t value after wellMade success =>
      cases attempt : (before.rows t).emplace value with
      | none =>
          rw [ready.create_none attempt] at success
          cases success
      | some inserted =>
          rw [Database.create,
            ready.onRegistered_ok (emplace_apply_some attempt)] at success
          cases success
          rw [recordHead_rows]
          exact isOver.setIndex ((isOver.layers t).recorded
            fun _ _ records => records_onCreateHead records attempt)
  | @modify t id value modifier after found same success =>
      obtain ⟨modified, changed, rows⟩ := modify_of_interchangeable found same
      have sameId : (indexOf t).id value = id := (before.rows t).keyed found
      rw [Database.modify,
        ready.onRegistered_ok (modify_apply_some found changed)] at success
      cases success
      refine isOver.setIndex ((isOver.layers t).recorded
        fun _ _ records => ?_)
      exact records_onModifyHead records (by rw [sameId]; exact found) same
        (by rw [sameId]; exact rows)
  | @remove t id value after found success =>
      have sameId : (indexOf t).id value = id := (before.rows t).keyed found
      rw [Database.remove, ready.onRegistered_ok (remove_apply found)] at success
      cases success
      refine isOver.setIndex ((isOver.layers t).recorded
        fun _ _ records => ?_)
      exact records_onRemoveHead records (by rw [sameId]; exact found)
        (by rw [sameId]; exact MultiIndex.erase_row (before.rows t) id)

theorem RowSteps.layeredOver (steps : RowSteps before after)
    (isOver : Database.LayeredOver start (depth + 1) before) :
    Database.LayeredOver start (depth + 1) after := by
  induction steps with
  | refl => exact isOver
  | tail _ step inductionHypothesis =>
      exact step.layeredOver inductionHypothesis

end RowSteps

/-! ## Nested sessions -/

/-- An `eos_db` and the sessions that were not ended yet, the last started one
first. -/
structure Nesting where
  eos : EosDb
  sessions : List (DatabaseSession TableType)

/-- The calls that create, modify or remove objects; the calls through
iterators are taken at the row that the iterator led to. -/
inductive TableCall where
  | findOrCreateTable (code : Name) (scope : Sha256) (table payer : Name)
      (block : Block)
  | dbStoreByScope (code : Name) (scope : Sha256) (table payer : Name)
      (buffer : Bytes) (block : Block)
  | dbUpdateByScope (iterator : Int64) (payer : Name) (buffer : Bytes)
  | dbStoreI64 (code : Name) (scope : Sha256) (table payer : Name)
      (id : UInt64) (buffer : Bytes) (memory : Memory)
  | updateI64Row (row : Int64) (payer : Name) (buffer : Bytes)
  | removeI64Row (row tableObj : Int64)
  | idxStore (kind : IndexKind) (code : Name) (scope : Sha256)
      (table payer : Name) (id : UInt64) (value : SecondaryKey kind)
      (memory : Memory)
  | updateIdxRow (kind : IndexKind) (row : Int64) (payer : Name)
      (secondary : SecondaryKey kind)
  | removeIdxRow (kind : IndexKind) (row tableObj : Int64)
  | dbStoreByKey (type : KeyType) (scope : Sha256) (key : Key type)
      (payer : Sha256) (buffer : Bytes) (block : Block)
  | dbUpdateByKey (type : KeyType) (scope : Sha256) (key : Key type)
      (payer : Sha256) (buffer : Bytes)
  | dbRemoveByKey (type : KeyType) (scope : Sha256) (key : Key type)

namespace TableCall

open EosDb

variable (sha : Bytes → Sha256) (ndebug : Bool)

def program : TableCall → EosDbM PUnit
  | .findOrCreateTable code scope table payer block => do
      let _ ← EosDb.findOrCreateTable code scope table payer block
  | .dbStoreByScope code scope table payer buffer block => do
      let _ ← EosDb.dbStoreByScope code scope table payer buffer block
  | .dbUpdateByScope iterator payer buffer =>
      EosDb.dbUpdateByScope iterator payer buffer
  | .dbStoreI64 code scope table payer id buffer memory => do
      let _ ← EosDb.dbStoreI64 code scope table payer id buffer memory
  | .updateI64Row row payer buffer => EosDb.updateI64Row row payer buffer
  | .removeI64Row row tableObj => EosDb.removeI64Row row tableObj
  | .idxStore kind code scope table payer id value memory => do
      let _ ← EosDb.idxStore kind code scope table payer id value memory
  | .updateIdxRow kind row payer secondary =>
      EosDb.updateIdxRow kind row payer secondary
  | .removeIdxRow kind row tableObj => dropRow (.index kind) row tableObj
  | .dbStoreByKey _ scope key payer buffer block =>
      EosDb.dbStoreByKey sha ndebug scope key payer buffer block
  | .dbUpdateByKey _ scope key payer buffer =>
      EosDb.dbUpdateByKey sha ndebug scope key payer buffer
  | .dbRemoveByKey _ scope key => EosDb.dbRemoveByKey sha ndebug scope key

/-- Updates and removals are of objects that are stored.  A key that is stored
already is stored again only when assertions are off. -/
def Permitted (eos : EosDb) : TableCall → Prop
  | .dbUpdateByScope iterator _ _ =>
      (eos.db.rows .tableId).rows[iterator]?.isSome
  | .updateI64Row row _ _ => (eos.db.rows .keyValue).rows[row]?.isSome
  | .removeI64Row row tableObj =>
      (eos.db.rows .keyValue).rows[row]?.isSome ∧
        (eos.db.rows .tableId).rows[tableObj]?.isSome
  | .updateIdxRow kind row _ _ => (eos.db.rows (.index kind)).rows[row]?.isSome
  | .removeIdxRow kind row tableObj =>
      (eos.db.rows (.index kind)).rows[row]?.isSome ∧
        (eos.db.rows .tableId).rows[tableObj]?.isSome
  | .dbStoreByKey _ scope key _ _ _ =>
      ndebug = true ∨ (hashKey sha scope key).toOption.all fun tableKey =>
        ((eos.db.rows .tableKey).find tableKey).isNone
  | .dbUpdateByKey _ scope key _ _ =>
      (hashKey sha scope key).toOption.all fun tableKey =>
        ((eos.db.rows .tableKey).find tableKey).isSome
  | .dbRemoveByKey _ scope key =>
      (hashKey sha scope key).toOption.all fun tableKey =>
        ((eos.db.rows .tableKey).find tableKey).isSome
  | _ => True

instance (eos : EosDb) (call : TableCall) :
    Decidable (call.Permitted sha ndebug eos) := by
  cases call <;> unfold Permitted <;> infer_instance

variable {sha ndebug}

theorem hashed_of_all {type : KeyType} {scope : Sha256} {key : Key type}
    {property : Sha256 → Bool}
    (holds : (hashKey sha scope key).toOption.all property = true)
    (tableKey : Sha256) (hashed : hashKey sha scope key = .ok tableKey) :
    property tableKey = true := by
  rw [hashed] at holds
  exact holds

/-- A permitted call makes row steps and throws exceptions at most. -/
theorem Permitted.steps {eos : EosDb} {call : TableCall}
    (permitted : call.Permitted sha ndebug eos) (ready : eos.db.Ready) :
    Steps (call.program sha ndebug) eos (fun _ _ => True) := by
  cases call with
  | findOrCreateTable code scope table payer block =>
      exact (steps_findOrCreateTable ready).andThen ready
        fun _ _ _ _ => steps_of_same rfl rfl trivial
  | dbStoreByScope code scope table payer buffer block =>
      exact (steps_dbStoreByScope ready).andThen ready
        fun _ _ _ _ => steps_of_same rfl rfl trivial
  | dbUpdateByScope iterator payer buffer =>
      obtain ⟨tableObj, found⟩ := Option.isSome_iff_exists.mp permitted
      exact steps_dbUpdateByScope ready found
  | dbStoreI64 code scope table payer id buffer memory =>
      exact (steps_dbStoreI64 ready).andThen ready
        fun _ _ _ _ => steps_of_same rfl rfl trivial
  | updateI64Row row payer buffer =>
      obtain ⟨value, found⟩ := Option.isSome_iff_exists.mp permitted
      exact steps_updateI64Row ready found
  | removeI64Row row tableObj =>
      obtain ⟨value, found⟩ := Option.isSome_iff_exists.mp permitted.1
      obtain ⟨object, hasTable⟩ := Option.isSome_iff_exists.mp permitted.2
      exact steps_removeI64Row ready found hasTable
  | idxStore kind code scope table payer id value memory =>
      exact (steps_idxStore ready).andThen ready
        fun _ _ _ _ => steps_of_same rfl rfl trivial
  | updateIdxRow kind row payer secondary =>
      obtain ⟨value, found⟩ := Option.isSome_iff_exists.mp permitted
      exact steps_updateIdxRow ready found
  | removeIdxRow kind row tableObj =>
      obtain ⟨value, found⟩ := Option.isSome_iff_exists.mp permitted.1
      obtain ⟨object, hasTable⟩ := Option.isSome_iff_exists.mp permitted.2
      exact (steps_dropRow (r := .index kind) ready found hasTable).imp
        fun _ _ _ => trivial
  | dbStoreByKey type scope key payer buffer block =>
      refine steps_dbStoreByKey ready (permitted.imp_right ?_)
      intro absent tableKey hashed
      exact Option.isNone_iff_eq_none.mp (hashed_of_all absent tableKey hashed)
  | dbUpdateByKey type scope key payer buffer =>
      refine steps_dbUpdateByKey ready fun tableKey hashed => ?_
      exact Option.isSome_iff_ne_none.mp
        (hashed_of_all permitted tableKey hashed)
  | dbRemoveByKey type scope key =>
      refine steps_dbRemoveByKey ready fun tableKey hashed => ?_
      exact Option.isSome_iff_ne_none.mp
        (hashed_of_all permitted tableKey hashed)

end TableCall

abbrev NestingM := EStateM Fault Nesting

/-- Calls inside sessions.  After an undo the restored objects stand at new
addresses. -/
inductive NestedCall where
  | table (call : TableCall)
  | startUndoSession
  | sessionUndo (place : (t : TableType) → (indexOf t).Id → Address)
  | sessionPush
  | undo (place : (t : TableType) → (indexOf t).Id → Address)

namespace Nesting

def onEos {α : Type} (program : EosDb.EosDbM α) : NestingM α :=
  zoom Nesting.eos (fun nesting final => { nesting with eos := final }) program

/-- Undo, and find the objects where they are afterwards. -/
def restore (program : Database.DatabaseM eosDbTables PUnit)
    (place : (t : TableType) → (indexOf t).Id → Address) :
    EosDb.EosDbM PUnit := do
  EosDb.onDatabase program
  let eos ← get
  set { eos with place := place }

def startUndoSession : NestingM PUnit := do
  let session ← onEos (EosDb.onDatabase Database.startUndoSession)
  let nesting ← get
  set { nesting with sessions := session :: nesting.sessions }

/-- End the newest session. -/
def endSession (program : DatabaseSession TableType → NestingM PUnit) :
    NestingM PUnit := do
  match (← get).sessions with
  | [] => throw .undefined
  | session :: rest =>
      program session
      let nesting ← get
      set { nesting with sessions := rest }

end Nesting

namespace NestedCall

open Nesting

variable (sha : Bytes → Sha256) (ndebug : Bool)

def program : NestedCall → NestingM PUnit
  | .table call => onEos (call.program sha ndebug)
  | .startUndoSession => Nesting.startUndoSession
  | .sessionUndo place =>
      endSession fun session =>
        onEos (restore (Database.sessionUndo session) place)
  | .sessionPush => endSession fun _ => pure ⟨⟩
  | .undo place => onEos (restore Database.undo place)

/-- The caller goes on after an exception. -/
def step (nesting : Nesting) (call : NestedCall) : Option Nesting :=
  survive (call.program sha ndebug nesting)

def Permitted (nesting : Nesting) : NestedCall → Prop
  | .table call => call.Permitted sha ndebug nesting.eos
  | .startUndoSession => ∀ t ∈ nesting.eos.db.indexList,
      (nesting.eos.db.index t).revision < int64Max
  | .sessionUndo _ => nesting.sessions.length ≠ 0
  | .sessionPush => nesting.sessions.length ≠ 0
  | .undo _ => True

instance (nesting : Nesting) (call : NestedCall) :
    Decidable (call.Permitted sha ndebug nesting) := by
  cases call <;> unfold Permitted <;> infer_instance

/-- The number of undo states on top of those of the session itself; an undo
of the session itself is not counted. -/
def statesAfter (states : Nat) : NestedCall → Option Nat
  | .table _ => some states
  | .startUndoSession => some (states + 1)
  | .sessionUndo _ => if states = 0 then none else some (states - 1)
  | .sessionPush => some states
  | .undo _ => if states = 0 then none else some (states - 1)

end NestedCall

/-! ## Runs inside a session -/

section Runs

variable {sha : Bytes → Sha256} {ndebug : Bool}
  {start : Database eosDbTables} {depth : Nat} {nesting : Nesting}

/-- `depth` undo states on top of the start, and sessions that span all
indices. -/
structure Nesting.Inside (start : Database eosDbTables) (depth : Nat)
    (nesting : Nesting) : Prop where
  layers : Database.LayeredOver start depth nesting.eos.db
  sessions : ∀ session ∈ nesting.sessions,
    Database.Spans start.indexList session.subSessions

namespace Nesting.Inside

theorem table {call : TableCall}
    (inside : nesting.Inside start (depth + 1))
    (permitted : call.Permitted sha ndebug nesting.eos) :
    ∃ next, (NestedCall.table call).step sha ndebug nesting = some next ∧
      next.Inside start (depth + 1) := by
  have steps := permitted.steps inside.layers.ready
  unfold EosDb.Steps Ends at steps
  simp only [NestedCall.step, NestedCall.program, onEos, zoom]
  cases ran : call.program sha ndebug nesting.eos with
  | ok value final =>
      rw [ran] at steps
      exact ⟨_, rfl, RowSteps.layeredOver steps.1 inside.layers,
        inside.sessions⟩
  | error fault final =>
      rw [ran] at steps
      refine ⟨{ nesting with eos := final }, ?_,
        RowSteps.layeredOver steps.2 inside.layers, inside.sessions⟩
      simp only [survive, steps.1, if_true]

theorem started (inside : nesting.Inside start depth)
    (complete : start.Complete)
    (bounded : ∀ t ∈ nesting.eos.db.indexList,
      (nesting.eos.db.index t).revision < int64Max) :
    ∃ next, NestedCall.startUndoSession.step sha ndebug nesting = some next ∧
      next.Inside start (depth + 1) ∧
      next.sessions.length = nesting.sessions.length + 1 := by
  obtain ⟨session, final, opened, spans, layers⟩ :=
    inside.layers.started complete bounded
  refine ⟨{ eos := { nesting.eos with db := final }
            sessions := session :: nesting.sessions }, ?_, ⟨layers, ?_⟩, rfl⟩
  · have ran : onEos (EosDb.onDatabase Database.startUndoSession) nesting =
        .ok session { nesting with eos := { nesting.eos with db := final } } := by
      simp only [onEos, zoom, EosDb.onDatabase, opened]
    simp only [NestedCall.step, NestedCall.program, Nesting.startUndoSession]
    rw [bind_apply_of_ok _ ran]
    rfl
  · intro tested member
    rcases List.mem_cons.mp member with isNew | isOld
    · rw [isNew, ← inside.layers.indexList]
      exact spans
    · exact inside.sessions tested isOld

/-- One undo, by the database or by a session. -/
theorem restored {program : Database.DatabaseM eosDbTables PUnit}
    {place : (t : TableType) → (indexOf t).Id → Address}
    (inside : nesting.Inside start (depth + 1)) (complete : start.Complete)
    (isUndo : program nesting.eos.db = Database.undo nesting.eos.db) :
    ∃ below, onEos (restore program place) nesting =
        .ok ⟨⟩ { nesting with eos := { nesting.eos with
          db := below
          place := place } } ∧
      Database.LayeredOver start depth below := by
  obtain ⟨below, undone, layers⟩ := inside.layers.undone complete
  refine ⟨below, ?_, layers⟩
  have ran : restore program place nesting.eos =
      .ok ⟨⟩ { nesting.eos with db := below, place := place } := by
    rw [restore, bind_apply_of_ok _ (EosDb.onDatabase_ok (isUndo.trans undone)),
      bind_apply_of_ok _ (get_apply _)]
    rfl
  simp only [onEos, zoom, ran]

theorem undone (inside : nesting.Inside start (depth + 1))
    (complete : start.Complete)
    (place : (t : TableType) → (indexOf t).Id → Address) :
    ∃ next, (NestedCall.undo place).step sha ndebug nesting = some next ∧
      next.Inside start depth := by
  obtain ⟨below, ran, layers⟩ :=
    inside.restored complete rfl
  refine ⟨_, congrArg survive ran, layers, inside.sessions⟩

theorem ended (inside : nesting.Inside start depth)
    {next : Nesting} {rest : List (DatabaseSession TableType)}
    {session : DatabaseSession TableType}
    (program : DatabaseSession TableType → NestingM PUnit)
    (isList : nesting.sessions = session :: rest)
    (ran : program session nesting = .ok ⟨⟩ next) :
    endSession program nesting = .ok ⟨⟩ { next with sessions := rest } ∧
      ∀ other ∈ rest, Database.Spans start.indexList other.subSessions := by
  constructor
  · rw [endSession, bind_apply_of_ok _ (get_apply nesting), isList]
    simp only
    rw [bind_apply_of_ok _ ran]
    rfl
  · intro other member
    exact inside.sessions other (by simp [isList, member])

theorem sessionUndone (inside : nesting.Inside start (depth + 1))
    (complete : start.Complete) (nonempty : nesting.sessions.length ≠ 0)
    (place : (t : TableType) → (indexOf t).Id → Address) :
    ∃ next, (NestedCall.sessionUndo place).step sha ndebug nesting =
        some next ∧
      next.Inside start depth := by
  obtain ⟨session, rest, isList⟩ :=
    List.exists_cons_of_length_pos (Nat.pos_of_ne_zero nonempty)
  have spans := inside.sessions session (by simp [isList])
  rw [← inside.layers.indexList] at spans
  obtain ⟨below, ran, layers⟩ :=
    inside.restored complete
      (Database.sessionUndo_eq_undo spans)
  obtain ⟨finished, sessions⟩ := inside.ended
    (fun session => onEos (restore (Database.sessionUndo session) place))
    isList ran
  exact ⟨_, congrArg survive finished, layers, sessions⟩

theorem pushed (inside : nesting.Inside start depth)
    (nonempty : nesting.sessions.length ≠ 0) :
    ∃ next, NestedCall.sessionPush.step sha ndebug nesting = some next ∧
      next.Inside start depth := by
  obtain ⟨session, rest, isList⟩ :=
    List.exists_cons_of_length_pos (Nat.pos_of_ne_zero nonempty)
  obtain ⟨finished, sessions⟩ := inside.ended (fun _ => pure ⟨⟩)
    isList rfl
  exact ⟨_, congrArg survive finished, inside.layers, sessions⟩

end Nesting.Inside

/-- One call inside a session. -/
theorem inside_step {call : NestedCall} {states states' : Nat}
    (complete : start.Complete) (inside : nesting.Inside start (states + 1))
    (permitted : call.Permitted sha ndebug nesting)
    (counted : call.statesAfter states = some states') :
    ∃ next, call.step sha ndebug nesting = some next ∧
      next.Inside start (states' + 1) := by
  cases call with
  | table call =>
      cases counted
      exact inside.table permitted
  | startUndoSession =>
      cases counted
      obtain ⟨next, stepped, nextInside, _⟩ :=
        inside.started complete permitted
      exact ⟨next, stepped, nextInside⟩
  | sessionUndo place =>
      cases states with
      | zero => cases counted
      | succ fewer =>
          cases counted
          exact inside.sessionUndone complete permitted place
  | sessionPush =>
      cases counted
      exact inside.pushed permitted
  | undo place =>
      cases states with
      | zero => cases counted
      | succ fewer =>
          cases counted
          exact inside.undone complete place

/-- Any calls inside a session. -/
theorem inside_run (complete : start.Complete) :
    ∀ (calls : List NestedCall) {nesting : Nesting} {states states' : Nat},
      nesting.Inside start (states + 1) →
      Runs.AllowedFrom (NestedCall.step sha ndebug)
        (fun nesting call => call.Permitted sha ndebug nesting) nesting calls →
      calls.foldlM NestedCall.statesAfter states = some states' →
        ∃ reached,
          Runs.run (NestedCall.step sha ndebug) nesting calls =
            some reached ∧
          reached.Inside start (states' + 1)
  | [], nesting, _, _, inside, _, counted => by
      cases counted
      exact ⟨nesting, rfl, inside⟩
  | call :: rest, nesting, states, states', inside, permitted, counted => by
      rw [List.foldlM_cons] at counted
      obtain ⟨middle, first, later⟩ := Option.bind_eq_some_iff.mp counted
      obtain ⟨next, stepped, nextInside⟩ :=
        inside_step complete inside permitted.1 first
      obtain ⟨reached, finished, reachedInside⟩ :=
        inside_run complete rest nextInside (permitted.2 next stepped) later
      refine ⟨reached, ?_, reachedInside⟩
      rw [Runs.run_cons, stepped]
      exact finished

/-- As many undos as there are undo states. -/
theorem inside_undos (complete : start.Complete) :
    ∀ (places : List ((t : TableType) → (indexOf t).Id → Address))
      {nesting : Nesting}, nesting.Inside start places.length →
        ∃ final,
          Runs.run (NestedCall.step sha ndebug) nesting
            (places.map NestedCall.undo) = some final ∧
          final.eos.db = start
  | [], nesting, inside =>
      ⟨nesting, rfl, inside.layers.eq_start complete.toReady⟩
  | place :: rest, nesting, inside => by
      obtain ⟨next, stepped, nextInside⟩ := inside.undone complete place
      obtain ⟨final, finished, same⟩ := inside_undos complete rest nextInside
      refine ⟨final, ?_, same⟩
      rw [List.map_cons, Runs.run_cons, stepped]
      exact finished

/-- On top of any database with all tables, any calls inside a session run
without an abort.  When the nested sessions are undone, the undo of the session
gives back the database as it was at the start of the session: rows, counts,
undo stacks and revisions.  When nested sessions were pushed, it takes one
more undo for each of them. -/
theorem session_undo_exact (sha : Bytes → Sha256) (ndebug : Bool)
    (nesting : Nesting) (calls : List NestedCall) (states : Nat)
    (complete : nesting.eos.db.Complete)
    (spans : ∀ session ∈ nesting.sessions,
      Database.Spans nesting.eos.db.indexList session.subSessions)
    (permitted : Runs.AllowedFrom (NestedCall.step sha ndebug)
      (fun nesting call => call.Permitted sha ndebug nesting) nesting
      (.startUndoSession :: calls))
    (counted : calls.foldlM NestedCall.statesAfter 0 = some states) :
    ∃ reached,
      Runs.run (NestedCall.step sha ndebug) nesting
        (.startUndoSession :: calls) = some reached ∧
      (states = 0 → reached.sessions.length ≠ 0 → ∀ place, ∃ final,
        (NestedCall.sessionUndo place).step sha ndebug reached = some final ∧
        final.eos.db = nesting.eos.db) ∧
      ∀ places : List ((t : TableType) → (indexOf t).Id → Address),
        places.length = states + 1 → ∃ final,
          Runs.run (NestedCall.step sha ndebug) reached
            (places.map NestedCall.undo) = some final ∧
          final.eos.db = nesting.eos.db := by
  have initially : nesting.Inside nesting.eos.db 0 :=
    ⟨⟨complete.toReady, rfl, rfl, fun _ => rfl⟩, spans⟩
  obtain ⟨opened, stepped, openedInside, _⟩ :=
    initially.started complete permitted.1
  obtain ⟨reached, finished, inside⟩ :=
    inside_run complete calls openedInside (permitted.2 opened stepped) counted
  refine ⟨reached, ?_, ?_, ?_⟩
  · rw [Runs.run_cons, stepped]
    exact finished
  · rintro rfl nonempty place
    obtain ⟨final, undone, finalInside⟩ :=
      inside.sessionUndone complete nonempty place
    exact ⟨final, undone, finalInside.layers.eq_start complete.toReady⟩
  · intro places length
    exact inside_undos complete places (length ▸ inside)

end Runs

/-! ## Examples -/

theorem emptyTables_complete : emptyTables.Complete where
  toReady := emptyTables_ready
  nodup := by decide
  revisions := fun _ => le_refl 0

/-- An `eos_db` without tables and rows. -/
def emptyNesting : Nesting :=
  { eos := EosDb.ofDatabase emptyTables fun _ _ => 0, sessions := [] }

/-- A table and a row are created; a nested session updates and removes the
row and is undone. -/
def nestedCalls : List NestedCall :=
  [.table (.dbStoreI64 ⟨1⟩ 2 ⟨3⟩ ⟨4⟩ 7 [10] ⟨⟨16, 5⟩, ⟨32, 0⟩⟩),
    .startUndoSession, .table (.updateI64Row 7 ⟨4⟩ [11]),
    .table (.removeI64Row 7 5), .sessionUndo fun _ _ => 0]

theorem session_undo_exact_nested :
    ∃ reached,
      Runs.run (NestedCall.step (fun _ => 0) false) emptyNesting
        (.startUndoSession :: nestedCalls) = some reached ∧
      ((0 : Nat) = 0 → reached.sessions.length ≠ 0 → ∀ place, ∃ final,
        (NestedCall.sessionUndo place).step (fun _ => 0) false reached =
          some final ∧
        final.eos.db = emptyNesting.eos.db) ∧
      ∀ places : List ((t : TableType) → (indexOf t).Id → Address),
        places.length = 0 + 1 → ∃ final,
          Runs.run (NestedCall.step (fun _ => 0) false) reached
            (places.map NestedCall.undo) = some final ∧
          final.eos.db = emptyNesting.eos.db := by
  apply session_undo_exact
  · exact emptyTables_complete
  · exact fun _ member => absurd member List.not_mem_nil
  · decide +kernel
  · decide +kernel

/-- A table is created in a session and a nested session is pushed: the undo of
the outer session undoes the pushed one, and the table stays. -/
theorem session_undo_pushed :
    (Runs.run (NestedCall.step (fun _ => 0) false) emptyNesting
      [.startUndoSession, .table (.findOrCreateTable ⟨1⟩ 2 ⟨3⟩ ⟨4⟩ ⟨16, 5⟩),
        .startUndoSession, .sessionPush,
        .sessionUndo fun _ _ => 0]).map (fun nesting =>
      (nesting.sessions.length,
        (nesting.eos.db.rows .tableId).rows[(5 : Int64)]?.isSome)) =
      some (0, true) ∧
    (emptyNesting.eos.db.rows .tableId).rows[(5 : Int64)]? = none := by
  decide +kernel

end StateDatabase
