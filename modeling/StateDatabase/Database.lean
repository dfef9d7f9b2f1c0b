import Mathlib
import StateDatabase.GenericIndex

/-!
# `chainbase::database`

A database file holds indices of several types, one of each type at most.
`add_index` registers an index: it finds the stored index or constructs a new
one, and gives a new index the undo depth of the first registered one.  A
database session holds one sub-session for each index that was registered when
it was started.
-/

namespace StateDatabase

open Programs

/-- The index types of a program, each with the name of its objects. -/
structure IndexFamily (τ : Type) where
  indexType : τ → IndexType
  typeName : τ → String

variable {τ : Type} [DecidableEq τ] {F : IndexFamily τ}

/-- The indices stored in the segment, and `_index_list`. -/
structure Database (F : IndexFamily τ) where
  segment : (t : τ) → Option (GenericIndex (F.indexType t))
  indexList : List τ
  readOnly : Bool

/-- A `generic_index::session` held by a database session. -/
structure SubSession (τ : Type) where
  index : τ
  apply : Bool
  revision : Int

/-- `database::session` -/
structure DatabaseSession (τ : Type) where
  subSessions : List (SubSession τ)
  revision : Int

/-- The move constructor of `generic_index::session` takes over the index and
the flag; the revision keeps its default. -/
def SubSession.move (session : SubSession τ) : SubSession τ :=
  { session with revision := 0 }

/-- The constructor of `database::session` from its sub-sessions. -/
def DatabaseSession.ofSubSessions (sessions : List (SubSession τ)) :
    DatabaseSession τ :=
  { subSessions := sessions
    revision := (sessions.head?.map SubSession.revision).getD (-1) }

/-- The move constructor of `database::session`. -/
def DatabaseSession.move (session : DatabaseSession τ) : DatabaseSession τ :=
  { subSessions := session.subSessions, revision := session.revision }

/-- The sub-sessions are gone after `push`, `squash` and `undo`. -/
def DatabaseSession.clear (session : DatabaseSession τ) : DatabaseSession τ :=
  { session with subSessions := [] }

namespace Database

abbrev DatabaseM (F : IndexFamily τ) := EStateM Fault (Database F)

/-- No index is registered or stored. -/
def empty (F : IndexFamily τ) : Database F :=
  { segment := fun _ => none, indexList := [], readOnly := false }

def setIndex (database : Database F) (t : τ)
    (index : GenericIndex (F.indexType t)) : Database F :=
  { database with segment := Function.update database.segment t (some index) }

/-- Run a program on one index of the segment. -/
def onIndex {α : Type} (t : τ)
    (program : GenericIndex.IndexM (F.indexType t) α) : DatabaseM F α :=
  fun database =>
    match database.segment t with
    | none => .error .undefined database
    | some index =>
        match program index with
        | .ok value final => .ok value (database.setIndex t final)
        | .error fault final => .error fault (database.setIndex t final)

/-- `get_mutable_index`: only registered indices can be used. -/
def onRegistered {α : Type} (t : τ)
    (program : GenericIndex.IndexM (F.indexType t) α) : DatabaseM F α := do
  if t ∈ (← get).indexList then
    onIndex t program
  else
    throw .undefined

/-! ## Rows -/

/-- `create` of the value that the constructor builds. -/
def create (t : τ) (value : (F.indexType t).Value) : DatabaseM F PUnit :=
  onRegistered t (GenericIndex.emplace value)

/-- `modify` of the object with this id. -/
def modify (t : τ) (id : (F.indexType t).Id)
    (modifier : (F.indexType t).Value → (F.indexType t).Value) :
    DatabaseM F PUnit :=
  onRegistered t (GenericIndex.modify id modifier)

/-- `remove` of the object with this id. -/
def remove (t : τ) (id : (F.indexType t).Id) : DatabaseM F PUnit :=
  onRegistered t (GenericIndex.remove id)

/-- `get_index<…>().indices()` -/
def indices (t : τ) : DatabaseM F (MultiIndex (F.indexType t)) :=
  onRegistered t (do return (← get).indices)

/-! ## All indices -/

/-- Run a program on the listed indices, one after the other. -/
def forIndices (program : (t : τ) → GenericIndex.IndexM (F.indexType t) PUnit) :
    List τ → DatabaseM F PUnit
  | [] => pure ⟨⟩
  | t :: rest => do
      onIndex t (program t)
      forIndices program rest

def undo : DatabaseM F PUnit := do
  forIndices (fun _ => GenericIndex.undo) (← get).indexList

def squash (ndebug : Bool) : DatabaseM F PUnit := do
  forIndices (fun _ => GenericIndex.squash ndebug) (← get).indexList

def commit (revision : Int) : DatabaseM F PUnit := do
  forIndices (fun _ => GenericIndex.commit revision) (← get).indexList

def undoAll : DatabaseM F PUnit := do
  forIndices (fun _ => GenericIndex.undoAll) (← get).indexList

def setRevision (revision : UInt64) : DatabaseM F PUnit := do
  forIndices (fun _ => GenericIndex.setRevision revision) (← get).indexList

/-- `start_undo_session(true)` of one index, moved into its `session_impl`. -/
def startSubSession (t : τ) : DatabaseM F (SubSession τ) := do
  onIndex t GenericIndex.startUndoSession
  let revision ← onIndex t (do return (← get).revision)
  return SubSession.move
    { index := t, apply := decide (revision ≠ -1), revision := revision }

def startSubSessions : List τ → DatabaseM F (List (SubSession τ))
  | [] => pure []
  | t :: rest => do
      let session ← startSubSession t
      return session :: (← startSubSessions rest)

/-- `database::start_undo_session(true)` -/
def startUndoSession : DatabaseM F (DatabaseSession τ) := do
  return DatabaseSession.ofSubSessions
    (← startSubSessions (← get).indexList)

/-! ## Reading -/

/-- The index of this type; a new one when none is stored. -/
def index (database : Database F) (t : τ) : GenericIndex (F.indexType t) :=
  (database.segment t).getD (GenericIndex.empty (F.indexType t))

/-- The rows of the index of this type. -/
def rows (database : Database F) (t : τ) : MultiIndex (F.indexType t) :=
  (database.index t).indices

/-- `revision`: that of the first registered index. -/
def revision (database : Database F) : Int :=
  match database.indexList with
  | [] => -1
  | front :: _ => (database.index front).revision

/-! ## Ending a session -/

/-- Each sub-session that still applies runs the program on its index. -/
def forSubSessions
    (program : (t : τ) → GenericIndex.IndexM (F.indexType t) PUnit) :
    List (SubSession τ) → DatabaseM F PUnit
  | [] => pure ⟨⟩
  | session :: rest => do
      if session.apply then
        onIndex session.index (program session.index)
      forSubSessions program rest

def sessionSquash (ndebug : Bool) (session : DatabaseSession τ) :
    DatabaseM F PUnit :=
  forSubSessions (fun _ => GenericIndex.squash ndebug) session.subSessions

def sessionUndo (session : DatabaseSession τ) : DatabaseM F PUnit :=
  forSubSessions (fun _ => GenericIndex.undo) session.subSessions

/-! ## Registration -/

/-- The range of a stored index. -/
def revisionRange (database : Database F) (t : τ) : Option (Int × Int) :=
  (database.segment t).map GenericIndex.undoStackRevisionRange

def inconsistentMessage (name : String) (added expected : Int × Int) : String :=
  "existing index for " ++ name ++ " has an undo stack (revision range [" ++
    toString added.1 ++ ", " ++ toString added.2 ++
    "]) that is inconsistent with other indices in the database " ++
    "(revision range [" ++ toString expected.1 ++ ", " ++
    toString expected.2 ++ "]); corrupted database?"

/-- `while( idx_ptr->revision() < target ) idx_ptr->start_undo_session(true).push();`
Every round raises the revision by one, so `rounds` bounds the loop. -/
def replaySessions {T : IndexType} (target : Int) :
    Nat → GenericIndex.IndexM T PUnit
  | 0 => pure ⟨⟩
  | rounds + 1 => do
      if (← get).revision < target then
        GenericIndex.startUndoSession
        replaySessions target rounds

/-- Give a new index the range of the first registered one. -/
def adoptRange {T : IndexType} (expected : Int × Int) :
    GenericIndex.IndexM T PUnit := do
  GenericIndex.setRevision (UInt64.ofInt expected.1)
  replaySessions expected.2 (expected.2 - (← get).revision).toNat

/-- The stored index, or a newly constructed one; returns whether it is
new. -/
def findOrConstruct (t : τ) : DatabaseM F Bool := do
  let database ← get
  match database.segment t with
  | some _ => return false
  | none =>
      if database.readOnly then
        throw (.runtimeError ("unable to find index for " ++ F.typeName t ++
          " in read only database"))
      set (database.setIndex t (GenericIndex.empty (F.indexType t)))
      return true

/-- The undo stack of the added index must agree with the first registered
index; a new index is adjusted. -/
def reconcile (t front : τ) (firstTimeAdding : Bool) : DatabaseM F PUnit := do
  let database ← get
  match database.revisionRange front, database.revisionRange t with
  | some expected, some added =>
      if added ≠ expected then
        if firstTimeAdding = false then
          throw (.logicError
            (inconsistentMessage (F.typeName t) added expected))
        if database.readOnly then
          throw (.logicError ("new index for " ++ F.typeName t ++
            " requires an undo stack that is consistent with other indices " ++
            "in the database; cannot fix in read-only mode"))
        onIndex t (adoptRange expected)
  | _, _ => throw .undefined

def register (t : τ) : DatabaseM F PUnit := do
  let database ← get
  set { database with indexList := database.indexList ++ [t] }

def addIndex (t : τ) : DatabaseM F PUnit := do
  let database ← get
  if t ∈ database.indexList then
    throw (.logicError (F.typeName t ++ "::type_id is already in use"))
  let firstTimeAdding ← findOrConstruct t
  match database.indexList with
  | [] => register t
  | front :: _ => do
      reconcile t front firstTimeAdding
      register t

end Database

end StateDatabase
