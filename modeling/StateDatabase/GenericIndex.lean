import Mathlib
import StateDatabase.MultiIndex

/-!
# `generic_index`

An index holds the rows and a stack of undo states.  An undo state records the
changes of one session as three sets: the ids created, the old values of
modified rows and the values of removed rows.

The stack is a list with the newest undo state, `_stack.back()`, first.
-/

namespace StateDatabase

/-- `undo_state`: what one session has changed. -/
structure UndoState (T : IndexType) where
  oldValues : IdMap T T.Value
  removedValues : IdMap T T.Value
  newIds : IdSet T
  revision : Int

namespace UndoState

/-- A session that has changed nothing. -/
def empty (T : IndexType) (revision : Int) : UndoState T :=
  { oldValues := ∅, removedValues := ∅, newIds := ∅, revision := revision }

end UndoState

structure GenericIndex (T : IndexType) where
  stack : List (UndoState T)
  revision : Int
  indices : MultiIndex T

/-- The largest `int64_t`. -/
def int64Max : Int := 2 ^ 63 - 1

namespace GenericIndex

variable {T : IndexType}

/-- A newly constructed index. -/
def empty (T : IndexType) : GenericIndex T :=
  { stack := [], revision := 0, indices := MultiIndex.empty T }

/-- Programs on one index. -/
abbrev IndexM (T : IndexType) := EStateM Fault (GenericIndex T)

/-! ## Recording changes -/

/-- The undo state after a row is about to be modified: only the first change
of a row that the session found is recorded. -/
def onModifyHead (value : T.Value) (head : UndoState T) : UndoState T :=
  if T.id value ∈ head.newIds then
    head
  else if T.id value ∈ head.oldValues then
    head
  else
    { head with oldValues := head.oldValues.insertIfNew (T.id value) value }

/-- The undo state after a row is about to be removed. -/
def onRemoveHead (value : T.Value) (head : UndoState T) : UndoState T :=
  if T.id value ∈ head.newIds then
    { head with newIds := head.newIds.erase (T.id value) }
  else
    match head.oldValues[T.id value]? with
    | some old =>
        { head with
          removedValues := head.removedValues.insertIfNew (T.id value) old
          oldValues := head.oldValues.erase (T.id value) }
    | none =>
        if T.id value ∈ head.removedValues then
          head
        else
          { head with
            removedValues :=
              head.removedValues.insertIfNew (T.id value) value }

/-- The undo state after a row was created. -/
def onCreateHead (value : T.Value) (head : UndoState T) : UndoState T :=
  { head with newIds := head.newIds.insert (T.id value) }

/-- Update `_stack.back()`; nothing is recorded while the stack is empty. -/
def recordHead (update : UndoState T → UndoState T)
    (index : GenericIndex T) : GenericIndex T :=
  match index.stack with
  | [] => index
  | head :: older => { index with stack := update head :: older }

def onModify (value : T.Value) : IndexM T PUnit := do
  set (recordHead (onModifyHead value) (← get))

def onRemove (value : T.Value) : IndexM T PUnit := do
  set (recordHead (onRemoveHead value) (← get))

def onCreate (value : T.Value) : IndexM T PUnit := do
  set (recordHead (onCreateHead value) (← get))

/-! ## Row operations -/

/-- The text of the exception of `emplace`. -/
def uniquenessMessage : String :=
  "could not insert object, most likely a uniqueness constraint was violated"

/-- `emplace` of the value that the constructor builds. -/
def emplace (value : T.Value) : IndexM T PUnit := do
  let index ← get
  match index.indices.emplace value with
  | none => throw (.logicError uniquenessMessage)
  | some inserted =>
      set { index with indices := inserted }
      onCreate value

/-- `modify` of the row with this id.  A reference to an object that is not
stored has no meaning. -/
def modify (id : T.Id) (modifier : T.Value → T.Value) : IndexM T PUnit := do
  match (← get).indices.find id with
  | none => throw .undefined
  | some value =>
      onModify value
      let index ← get
      match index.indices.modify id (modifier value) with
      | none => throw .abort
      | some modified => set { index with indices := modified }

/-- `remove` of the row with this id. -/
def remove (id : T.Id) : IndexM T PUnit := do
  match (← get).indices.find id with
  | none => throw .undefined
  | some value =>
      onRemove value
      let index ← get
      set { index with indices := index.indices.erase id }

/-! ## Sessions -/

/-- `start_undo_session(true)`; the increment of the revision must not
overflow. -/
def startUndoSession : IndexM T PUnit := do
  let index ← get
  if index.revision < int64Max then
    set { index with
      stack := UndoState.empty T (index.revision + 1) :: index.stack
      revision := index.revision + 1 }
  else
    throw .undefined

/-- The index with a new undo state. -/
def opened (index : GenericIndex T) : GenericIndex T :=
  { index with
    stack := UndoState.empty T (index.revision + 1) :: index.stack
    revision := index.revision + 1 }

/-- `_indices.erase( _indices.find( id ) )` -/
def eraseNew (container : MultiIndex T) (id : T.Id) :
    Except Fault (MultiIndex T) :=
  match container.find id with
  | none => .error .undefined
  | some _ => .ok (container.erase id)

/-- `_indices.modify( _indices.find( item.second.id ), … )` -/
def restoreOld (container : MultiIndex T) (item : T.Id × T.Value) :
    Except Fault (MultiIndex T) :=
  match container.find (T.id item.2) with
  | none => .error .undefined
  | some _ =>
      match container.modify (T.id item.2) item.2 with
      | none => .error .abort
      | some restored => .ok restored

/-- `_indices.emplace( std::move( item.second ) )` -/
def restoreRemoved (container : MultiIndex T) (item : T.Id × T.Value) :
    Except Fault (MultiIndex T) :=
  match container.emplace item.2 with
  | none => .error .abort
  | some restored => .ok restored

/-- The three loops of `undo`. -/
def undoRows (head : UndoState T) (container : MultiIndex T) :
    Except Fault (MultiIndex T) := do
  let withoutNew ← head.newIds.toList.foldlM eraseNew container
  let withOld ← head.oldValues.toList.foldlM restoreOld withoutNew
  head.removedValues.toList.foldlM restoreRemoved withOld

def undo : IndexM T PUnit := do
  let index ← get
  match index.stack with
  | [] => pure ⟨⟩
  | head :: older =>
      match undoRows head index.indices with
      | .error fault => throw fault
      | .ok restored =>
          set { index with
            stack := older
            revision := index.revision - 1
            indices := restored }

/-- The texts of the two assertions of `squash`. -/
def squashOldAssertion : String :=
  "prev_state.removed_values.find(item.second.id) == prev_state.removed_values.end()"

def squashRemovedAssertion : String :=
  "prev_state.removed_values.find( obj.second.id ) == prev_state.removed_values.end()"

/-- `assert( condition )`, compiled away when `NDEBUG` is defined. -/
def assertThat {σ : Type} (ndebug : Bool) (condition : Bool)
    (message : String) (value : σ) : Except Fault σ :=
  if ndebug || condition then .ok value else .error (.assertion message)

/-- One step of the loop of `squash` over `state.old_values`. -/
def squashOld (ndebug : Bool) (previous : UndoState T)
    (item : T.Id × T.Value) : Except Fault (UndoState T) :=
  if T.id item.2 ∈ previous.newIds then
    .ok previous
  else if T.id item.2 ∈ previous.oldValues then
    .ok previous
  else
    assertThat ndebug (decide (T.id item.2 ∉ previous.removedValues))
      squashOldAssertion
      { previous with
        oldValues := previous.oldValues.insertIfNew item.1 item.2 }

/-- One step of the loop of `squash` over `state.new_ids`. -/
def squashNew (previous : UndoState T) (id : T.Id) : UndoState T :=
  { previous with newIds := previous.newIds.insert id }

/-- One step of the loop of `squash` over `state.removed_values`. -/
def squashRemoved (ndebug : Bool) (previous : UndoState T)
    (item : T.Id × T.Value) : Except Fault (UndoState T) :=
  if T.id item.2 ∈ previous.newIds then
    .ok { previous with newIds := previous.newIds.erase (T.id item.2) }
  else
    match previous.oldValues[T.id item.2]? with
    | some old =>
        .ok { previous with
          removedValues :=
            previous.removedValues.insertIfNew (T.id item.2) old
          oldValues := previous.oldValues.erase (T.id item.2) }
    | none =>
        assertThat ndebug (decide (T.id item.2 ∉ previous.removedValues))
          squashRemovedAssertion
          { previous with
            removedValues :=
              previous.removedValues.insertIfNew item.1 item.2 }

/-- The three loops of `squash`: the changes of `state` are added to those of
`previous`. -/
def mergeStates (ndebug : Bool) (previous state : UndoState T) :
    Except Fault (UndoState T) := do
  let withOld ← state.oldValues.toList.foldlM (squashOld ndebug) previous
  let withNew := state.newIds.toList.foldl squashNew withOld
  state.removedValues.toList.foldlM (squashRemoved ndebug) withNew

def squash (ndebug : Bool) : IndexM T PUnit := do
  let index ← get
  match index.stack with
  | [] => pure ⟨⟩
  | [_] => set { index with stack := [], revision := index.revision - 1 }
  | state :: previous :: older =>
      match mergeStates ndebug previous state with
      | .error fault => throw fault
      | .ok merged =>
          set { index with
            stack := merged :: older
            revision := index.revision - 1 }

/-- `commit`: undo states are popped from the front of the deque, which is the
end of the list, while their revision is at most the given one. -/
def commit (revision : Int) : IndexM T PUnit := do
  let index ← get
  set { index with
    stack := index.stack.rdropWhile fun state =>
      decide (state.revision ≤ revision) }

/-- `undo` repeated; every round pops one undo state. -/
def undoTimes : Nat → IndexM T PUnit
  | 0 => pure ⟨⟩
  | rounds + 1 => do
      undo
      undoTimes rounds

/-- `undo_all`: the loop ends when the stack is empty. -/
def undoAll : IndexM T PUnit := do
  undoTimes (← get).stack.length

def setRevision (revision : UInt64) : IndexM T PUnit := do
  let index ← get
  if index.stack ≠ [] then
    throw (.logicError
      "cannot set revision while there is an existing undo stack")
  else if int64Max < (revision.toNat : Int) then
    throw (.logicError "revision to set is too high")
  else
    set { index with revision := (revision.toNat : Int) }

/-- `undo_stack_revision_range`: `_stack.front()` is the last element of the
list. -/
def undoStackRevisionRange (index : GenericIndex T) : Int × Int :=
  match index.stack.getLast?, index.stack.head? with
  | some front, some back => (front.revision - 1, back.revision)
  | _, _ => (index.revision, index.revision)

/-! ## The operations on a given state -/

section Apply

open Programs

@[simp]
theorem recordHead_indices (update : UndoState T → UndoState T)
    (index : GenericIndex T) :
    (recordHead update index).indices = index.indices := by
  unfold recordHead
  split
  · rfl
  · rfl

@[simp]
theorem recordHead_revision (update : UndoState T → UndoState T)
    (index : GenericIndex T) :
    (recordHead update index).revision = index.revision := by
  unfold recordHead
  split
  · rfl
  · rfl

/-- The rows may change before or after the recording. -/
theorem recordHead_rows (update : UndoState T → UndoState T)
    (index : GenericIndex T) (rows : MultiIndex T) :
    recordHead update { index with indices := rows } =
      { recordHead update index with indices := rows } := by
  obtain ⟨stack, revision, indices⟩ := index
  cases stack with
  | nil => rfl
  | cons head older => rfl

theorem assertThat_ok {σ : Type} {ndebug condition : Bool} {message : String}
    {value next : σ}
    (passed : assertThat ndebug condition message value = .ok next) :
    next = value := by
  unfold assertThat at passed
  split at passed
  · cases passed
    rfl
  · cases passed

theorem emplace_apply_some {index : GenericIndex T} {value : T.Value}
    {inserted : MultiIndex T}
    (success : index.indices.emplace value = some inserted) :
    emplace value index =
      .ok ⟨⟩ (recordHead (onCreateHead value)
        { index with indices := inserted }) := by
  unfold emplace
  rw [bind_apply_of_ok _ (get_apply index)]
  simp only [success]
  rfl

theorem emplace_apply_none {index : GenericIndex T} {value : T.Value}
    (refused : index.indices.emplace value = none) :
    emplace value index =
      .error (.logicError uniquenessMessage) index := by
  unfold emplace
  rw [bind_apply_of_ok _ (get_apply index)]
  simp only [refused]
  rfl

theorem modify_apply_some {index : GenericIndex T} {id : T.Id}
    {modifier : T.Value → T.Value} {value : T.Value}
    {modified : MultiIndex T}
    (found : index.indices.find id = some value)
    (success : index.indices.modify id (modifier value) = some modified) :
    modify id modifier index =
      .ok ⟨⟩ { recordHead (onModifyHead value) index with
        indices := modified } := by
  unfold modify
  rw [bind_apply_of_ok _ (get_apply index)]
  simp only [found]
  have recorded : onModify value index =
      .ok ⟨⟩ (recordHead (onModifyHead value) index) := rfl
  rw [bind_apply_of_ok _ recorded, bind_apply_of_ok _ (get_apply _)]
  simp only [recordHead_indices, success]
  rfl

theorem remove_apply {index : GenericIndex T} {id : T.Id} {value : T.Value}
    (found : index.indices.find id = some value) :
    remove id index =
      .ok ⟨⟩ { recordHead (onRemoveHead value) index with
        indices := index.indices.erase id } := by
  unfold remove
  rw [bind_apply_of_ok _ (get_apply index)]
  simp only [found]
  have recorded : onRemove value index =
      .ok ⟨⟩ (recordHead (onRemoveHead value) index) := rfl
  rw [bind_apply_of_ok _ recorded, bind_apply_of_ok _ (get_apply _)]
  simp only [recordHead_indices]
  rfl

theorem startUndoSession_apply {index : GenericIndex T}
    (bounded : index.revision < int64Max) :
    startUndoSession index =
      .ok ⟨⟩ { index with
        stack := UndoState.empty T (index.revision + 1) :: index.stack
        revision := index.revision + 1 } := by
  unfold startUndoSession
  rw [bind_apply_of_ok _ (get_apply index), if_pos bounded]
  rfl

theorem undo_apply_nil {index : GenericIndex T} (empty : index.stack = []) :
    undo index = .ok ⟨⟩ index := by
  unfold undo
  rw [bind_apply_of_ok _ (get_apply index)]
  simp only [empty]
  rfl

theorem undo_apply_cons {index : GenericIndex T} {head : UndoState T}
    {older : List (UndoState T)} {restored : MultiIndex T}
    (top : index.stack = head :: older)
    (success : undoRows head index.indices = .ok restored) :
    undo index =
      .ok ⟨⟩ { index with
        stack := older
        revision := index.revision - 1
        indices := restored } := by
  unfold undo
  rw [bind_apply_of_ok _ (get_apply index)]
  simp only [top, success]
  rfl

theorem squash_apply_nil {ndebug : Bool} {index : GenericIndex T}
    (empty : index.stack = []) :
    squash ndebug index = .ok ⟨⟩ index := by
  unfold squash
  rw [bind_apply_of_ok _ (get_apply index)]
  simp only [empty]
  rfl

theorem squash_apply_single {ndebug : Bool} {index : GenericIndex T}
    {head : UndoState T} (top : index.stack = [head]) :
    squash ndebug index =
      .ok ⟨⟩ { index with stack := [], revision := index.revision - 1 } := by
  unfold squash
  rw [bind_apply_of_ok _ (get_apply index)]
  simp only [top]
  rfl

theorem squash_apply_cons {ndebug : Bool} {index : GenericIndex T}
    {state previous merged : UndoState T} {older : List (UndoState T)}
    (top : index.stack = state :: previous :: older)
    (success : mergeStates ndebug previous state = .ok merged) :
    squash ndebug index =
      .ok ⟨⟩ { index with
        stack := merged :: older
        revision := index.revision - 1 } := by
  unfold squash
  rw [bind_apply_of_ok _ (get_apply index)]
  simp only [top, success]
  rfl

theorem commit_apply (revision : Int) (index : GenericIndex T) :
    commit revision index =
      .ok ⟨⟩ { index with
        stack := index.stack.rdropWhile fun state =>
          decide (state.revision ≤ revision) } := rfl

theorem undoAll_apply (index : GenericIndex T) :
    undoAll index = undoTimes index.stack.length index := rfl

theorem setRevision_apply_nil {index : GenericIndex T} {revision : UInt64}
    (empty : index.stack = []) (bounded : (revision.toNat : Int) ≤ int64Max) :
    setRevision revision index =
      .ok ⟨⟩ { index with revision := (revision.toNat : Int) } := by
  unfold setRevision
  rw [bind_apply_of_ok _ (get_apply index), if_neg (not_not_intro empty),
    if_neg (not_lt.mpr bounded)]
  rfl

/-- A refused `set_revision` changes nothing. -/
theorem setRevision_apply_error {index : GenericIndex T} {revision : UInt64}
    (refused : index.stack ≠ [] ∨ int64Max < (revision.toNat : Int)) :
    ∃ message, setRevision revision index =
      .error (.logicError message) index := by
  unfold setRevision
  rw [bind_apply_of_ok _ (get_apply index)]
  by_cases nonempty : index.stack ≠ []
  · rw [if_pos nonempty]
    exact ⟨_, rfl⟩
  · rw [if_neg nonempty, if_pos (refused.resolve_left nonempty)]
    exact ⟨_, rfl⟩

end Apply

end GenericIndex

end StateDatabase
