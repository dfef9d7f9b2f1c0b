import Mathlib
import StateDatabase.SquashRecords

/-!
# Row operations in a full segment

The containers of an index take their memory from the shared segment, which has
a fixed size, so every insertion may throw `std::bad_alloc`.  An insertion that
throws leaves its container as it was.

`Limited` holds the row operations with every place at which they ask for
memory.  `modify` and `remove` record the change before they make it; `emplace`
inserts the row first and records it afterwards.
-/

namespace StateDatabase

open Programs

/-- The places at which an operation on an index asks for memory. -/
inductive IndexSite where
  /-- the node of a new row, and what its constructor needs -/
  | element
  | newIds
  | oldValues
  | removedValues
  /-- what a modifier needs -/
  | modifier
deriving DecidableEq, Repr

/-- What a multi-index container does with an element when the modifier
throws. -/
inductive ThrownModifier where
  | keepsElement
  | erasesElement
deriving DecidableEq, Repr

namespace Limited

/-- There is memory at this place of a program, or `std::bad_alloc` is
thrown. -/
def allocate {ρ σ : Type} (refuses : ρ → Bool) (site : ρ) :
    EStateM Fault σ PUnit :=
  if refuses site then throw .badAlloc else pure ⟨⟩

theorem allocate_granted {ρ σ : Type} {refuses : ρ → Bool} {site : ρ}
    {state : σ} (granted : refuses site = false) :
    allocate refuses site state = .ok ⟨⟩ state := by
  rw [allocate, granted]
  rfl

theorem allocate_refused {ρ σ : Type} {refuses : ρ → Bool} {site : ρ}
    {state : σ} (refused : refuses site = true) :
    allocate refuses site state = .error .badAlloc state := by
  rw [allocate, refused]
  rfl

variable {T : IndexType} (refuses : IndexSite → Bool)

/-! ## Recording changes -/

/-- The container that `on_modify` inserts into. -/
def onModifySite (value : T.Value) (head : UndoState T) : Option IndexSite :=
  if T.id value ∈ head.newIds then none
  else if T.id value ∈ head.oldValues then none
  else some .oldValues

/-- The container that `on_remove` inserts into. -/
def onRemoveSite (value : T.Value) (head : UndoState T) : Option IndexSite :=
  if T.id value ∈ head.newIds then none
  else if T.id value ∈ head.oldValues then some .removedValues
  else if T.id value ∈ head.removedValues then none
  else some .removedValues

/-- The container that `on_create` inserts into. -/
def onCreateSite (value : T.Value) (head : UndoState T) : Option IndexSite :=
  if T.id value ∈ head.newIds then none else some .newIds

/-- Ask for the memory and update `_stack.back()`. -/
def record (site : UndoState T → Option IndexSite)
    (update : UndoState T → UndoState T) : GenericIndex.IndexM T PUnit := do
  let index ← get
  match index.stack with
  | [] => pure ⟨⟩
  | head :: older =>
      match site head with
      | none => pure ⟨⟩
      | some container => allocate refuses container
      set { index with stack := update head :: older }

def onModify (value : T.Value) : GenericIndex.IndexM T PUnit :=
  record refuses (onModifySite value) (GenericIndex.onModifyHead value)

def onRemove (value : T.Value) : GenericIndex.IndexM T PUnit :=
  record refuses (onRemoveSite value) (GenericIndex.onRemoveHead value)

def onCreate (value : T.Value) : GenericIndex.IndexM T PUnit :=
  record refuses (onCreateSite value) (GenericIndex.onCreateHead value)

/-! ## Row operations -/

/-- `emplace`: the container builds the element before it looks for rows that
exclude it. -/
def emplace (value : T.Value) : GenericIndex.IndexM T PUnit := do
  allocate refuses .element
  let index ← get
  match index.indices.emplace value with
  | none => throw (.logicError GenericIndex.uniquenessMessage)
  | some inserted =>
      set { index with indices := inserted }
      onCreate refuses value

/-- `modify` with a modifier that may run out of memory; it then leaves the
object with the value in `.error`. -/
def modify (thrown : ThrownModifier) (id : T.Id)
    (modifier : T.Value → Except T.Value T.Value) :
    GenericIndex.IndexM T PUnit := do
  match (← get).indices.find id with
  | none => throw .undefined
  | some value =>
      onModify refuses value
      let index ← get
      match modifier value with
      | .ok new =>
          match index.indices.modify id new with
          | none => throw .abort
          | some modified => set { index with indices := modified }
      | .error left =>
          match thrown with
          | .erasesElement =>
              set { index with indices := index.indices.erase id }
              throw .badAlloc
          | .keepsElement =>
              match index.indices.modify id left with
              | none => throw .undefined
              | some modified =>
                  set { index with indices := modified }
                  throw .badAlloc

def remove (id : T.Id) : GenericIndex.IndexM T PUnit := do
  match (← get).indices.find id with
  | none => throw .undefined
  | some value =>
      onRemove refuses value
      let index ← get
      set { index with indices := index.indices.erase id }

/-- A row operation with a modifier that does not throw. -/
def rowCall (thrown : ThrownModifier) : RowCall T → GenericIndex.IndexM T PUnit
  | .emplace value => emplace refuses value
  | .modify id modifier =>
      modify refuses thrown id fun value => .ok (modifier value)
  | .remove id => remove refuses id

/-! ## The operations on a given state -/

section Apply

variable {refuses} {index : GenericIndex T}

/-- The segment has no memory for the recording. -/
def recordRefused (refuses : IndexSite → Bool)
    (site : UndoState T → Option IndexSite) (index : GenericIndex T) : Bool :=
  (index.stack.head?.bind site).any refuses

theorem record_granted {site : UndoState T → Option IndexSite}
    (update : UndoState T → UndoState T)
    (granted : recordRefused refuses site index = false) :
    record refuses site update index =
      .ok ⟨⟩ (GenericIndex.recordHead update index) := by
  rw [record, bind_apply_of_ok _ (get_apply index), GenericIndex.recordHead]
  unfold recordRefused at granted
  cases top : index.stack with
  | nil => rfl
  | cons head older =>
      rw [top, List.head?_cons, Option.bind_some] at granted
      simp only
      cases isSite : site head with
      | none => rfl
      | some container =>
          rw [isSite] at granted
          exact bind_apply_of_ok _ (allocate_granted granted)

theorem record_refused {site : UndoState T → Option IndexSite}
    (update : UndoState T → UndoState T)
    (refused : recordRefused refuses site index = true) :
    record refuses site update index = .error .badAlloc index := by
  rw [record, bind_apply_of_ok _ (get_apply index)]
  unfold recordRefused at refused
  cases top : index.stack with
  | nil =>
      rw [top] at refused
      cases refused
  | cons head older =>
      rw [top, List.head?_cons, Option.bind_some] at refused
      simp only
      cases isSite : site head with
      | none =>
          rw [isSite] at refused
          cases refused
      | some container =>
          rw [isSite] at refused
          exact bind_apply_of_error _ (allocate_refused refused)

section Emplace

variable {value : T.Value} {inserted : MultiIndex T}

theorem emplace_noElement (refused : refuses .element = true) :
    emplace refuses value index = .error .badAlloc index :=
  bind_apply_of_error _ (allocate_refused refused)

theorem emplace_notAdmitted (granted : refuses .element = false)
    (clashes : index.indices.emplace value = none) :
    emplace refuses value index =
      .error (.logicError GenericIndex.uniquenessMessage) index := by
  rw [emplace, bind_apply_of_ok _ (allocate_granted granted),
    bind_apply_of_ok _ (get_apply index), clashes]
  rfl

theorem emplace_inserted (granted : refuses .element = false)
    (success : index.indices.emplace value = some inserted) :
    emplace refuses value index =
      onCreate refuses value { index with indices := inserted } := by
  rw [emplace, bind_apply_of_ok _ (allocate_granted granted),
    bind_apply_of_ok _ (get_apply index), success]
  exact bind_apply_of_ok _ (set_apply _ _)

end Emplace

section Modify

variable {thrown : ThrownModifier} {id : T.Id} {value : T.Value}
  {modifier : T.Value → Except T.Value T.Value}

variable (refuses thrown modifier) in
theorem modify_missing (missing : index.indices.find id = none) :
    modify refuses thrown id modifier index = .error .undefined index := by
  rw [modify, bind_apply_of_ok _ (get_apply index), missing]
  rfl

variable (thrown modifier) in
theorem modify_notRecorded (found : index.indices.find id = some value)
    (refused : recordRefused refuses (onModifySite value) index = true) :
    modify refuses thrown id modifier index = .error .badAlloc index := by
  rw [modify, bind_apply_of_ok _ (get_apply index), found]
  exact bind_apply_of_error _ (record_refused _ refused)

variable (thrown modifier) in
/-- The change is recorded before it is made. -/
theorem modify_recorded (found : index.indices.find id = some value)
    (granted : recordRefused refuses (onModifySite value) index = false) :
    modify refuses thrown id modifier index =
      (do
        let index ← get
        match modifier value with
        | .ok new =>
            match index.indices.modify id new with
            | none => throw .abort
            | some modified => set { index with indices := modified }
        | .error left =>
            match thrown with
            | .erasesElement =>
                set { index with indices := index.indices.erase id }
                throw .badAlloc
            | .keepsElement =>
                match index.indices.modify id left with
                | none => throw .undefined
                | some modified =>
                    set { index with indices := modified }
                    throw .badAlloc : GenericIndex.IndexM T PUnit)
        (GenericIndex.recordHead (GenericIndex.onModifyHead value) index) := by
  rw [modify, bind_apply_of_ok _ (get_apply index), found]
  exact bind_apply_of_ok _ (record_granted _ granted)

end Modify

section Remove

variable {id : T.Id} {value : T.Value}

theorem remove_missing (missing : index.indices.find id = none) :
    remove refuses id index = .error .undefined index := by
  rw [remove, bind_apply_of_ok _ (get_apply index), missing]
  rfl

theorem remove_notRecorded (found : index.indices.find id = some value)
    (refused : recordRefused refuses (onRemoveSite value) index = true) :
    remove refuses id index = .error .badAlloc index := by
  rw [remove, bind_apply_of_ok _ (get_apply index), found]
  exact bind_apply_of_error _ (record_refused _ refused)

theorem remove_recorded (found : index.indices.find id = some value)
    (granted : recordRefused refuses (onRemoveSite value) index = false) :
    remove refuses id index =
      .ok ⟨⟩ { GenericIndex.recordHead (GenericIndex.onRemoveHead value) index
        with indices := index.indices.erase id } := by
  rw [remove, bind_apply_of_ok _ (get_apply index), found]
  refine (bind_apply_of_ok _ (record_granted _ granted)).trans ?_
  refine (bind_apply_of_ok _ (get_apply _)).trans ?_
  rw [GenericIndex.recordHead_indices]
  rfl

end Remove

end Apply

/-! ## With enough memory -/

section Generous

theorem record_generous (site : UndoState T → Option IndexSite)
    (update : UndoState T → UndoState T) :
    record (fun _ => false) site update =
      (do set (GenericIndex.recordHead update (← get))) := by
  funext index
  have granted : recordRefused (fun _ => false) site index = false := by
    simp [recordRefused]
  exact record_granted update granted

/-- With enough memory these are the row operations of the index. -/
theorem rowCall_generous (thrown : ThrownModifier) (ndebug : Bool)
    (call : RowCall T) :
    rowCall (fun _ => false) thrown call = call.call.program ndebug := by
  cases call with
  | emplace value =>
      have records := record_generous (onCreateSite value)
        (GenericIndex.onCreateHead value)
      funext index
      rw [rowCall, emplace, bind_apply_of_ok _ (allocate_granted rfl)]
      simp only [onCreate, records]
      rfl
  | modify id modifier =>
      have records := fun value : T.Value =>
        record_generous (onModifySite value) (GenericIndex.onModifyHead value)
      simp only [rowCall, modify, onModify, records]
      rfl
  | remove id =>
      have records := fun value : T.Value =>
        record_generous (onRemoveSite value) (GenericIndex.onRemoveHead value)
      simp only [rowCall, remove, onRemove, records]
      rfl

end Generous

end Limited

/-! ## Operations that throw -/

section Failures

variable {T : IndexType}

/-- The rows, the undo states and the revision are as before, and a later undo
returns to the rows at the start of the session. -/
structure Undisturbed (index final : GenericIndex T) : Prop where
  rows : final.indices = index.indices
  stack : final.stack = index.stack
  revision : final.revision = index.revision
  undo : ∀ history, Represents index history →
    ∃ undone, GenericIndex.undo final = .ok ⟨⟩ undone ∧
      undone.indices = history.undo.current

theorem undisturbed_refl (index : GenericIndex T) :
    Undisturbed index index where
  rows := rfl
  stack := rfl
  revision := rfl
  undo history represents := by
    obtain ⟨undone, success, _, related⟩ := represents.undo
    exact ⟨undone, success, related.rows⟩

/-- The operation gets as far as a new row in the container. -/
def RowCall.InsertsRow (refuses : IndexSite → Bool) (index : GenericIndex T) :
    RowCall T → Prop
  | .emplace value => refuses .element = false ∧ index.indices.Admits value
  | .modify _ _ => False
  | .remove _ => False

instance (refuses : IndexSite → Bool) (index : GenericIndex T)
    (call : RowCall T) : Decidable (call.InsertsRow refuses index) := by
  cases call <;> unfold RowCall.InsertsRow <;> infer_instance

variable {refuses : IndexSite → Bool} {thrown : ThrownModifier}
  {index final : GenericIndex T} {fault : Fault}

/-- `emplace` throws before it inserts the row, or after it. -/
theorem emplace_failed {value : T.Value}
    (failed : Limited.emplace refuses value index = .error fault final) :
    (final = index ∧ ¬ (refuses .element = false ∧
      index.indices.Admits value)) ∨
    ∃ inserted, refuses .element = false ∧
      index.indices.emplace value = some inserted ∧
      final = { index with indices := inserted } := by
  cases element : refuses .element with
  | true =>
      rw [Limited.emplace_noElement element] at failed
      cases failed
      exact Or.inl ⟨rfl, fun granted => by cases granted.1⟩
  | false =>
      cases attempt : index.indices.emplace value with
      | none =>
          rw [Limited.emplace_notAdmitted element attempt] at failed
          cases failed
          exact Or.inl ⟨rfl, fun granted =>
            (MultiIndex.emplace_eq_none_iff _ _).mp attempt granted.2⟩
      | some inserted =>
          refine Or.inr ⟨inserted, rfl, rfl, ?_⟩
          rw [Limited.emplace_inserted element attempt] at failed
          cases recorded : Limited.recordRefused refuses
              (Limited.onCreateSite value) { index with indices := inserted } with
          | true =>
              rw [Limited.onCreate, Limited.record_refused _ recorded] at failed
              cases failed
              rfl
          | false =>
              rw [Limited.onCreate, Limited.record_granted _ recorded] at failed
              cases failed

/-- `modify` and `remove` throw before they change anything. -/
theorem modify_failed {id : T.Id} {modifier : T.Value → T.Value}
    (isException : fault.isException = true)
    (failed : Limited.modify refuses thrown id
      (fun value => .ok (modifier value)) index = .error fault final) :
    final = index := by
  cases found : index.indices.find id with
  | none =>
      rw [Limited.modify_missing _ _ _ found] at failed
      cases failed
      cases isException
  | some value =>
      cases recorded : Limited.recordRefused refuses
          (Limited.onModifySite value) index with
      | true =>
          rw [Limited.modify_notRecorded _ _ found recorded] at failed
          cases failed
          rfl
      | false =>
          rw [Limited.modify_recorded _ _ found recorded,
            bind_apply_of_ok _ (get_apply _)] at failed
          simp only [GenericIndex.recordHead_indices] at failed
          cases attempt : index.indices.modify id (modifier value) with
          | none =>
              rw [attempt] at failed
              cases failed
              cases isException
          | some modified =>
              rw [attempt] at failed
              cases failed

theorem remove_failed {id : T.Id} (isException : fault.isException = true)
    (failed : Limited.remove refuses id index = .error fault final) :
    final = index := by
  cases found : index.indices.find id with
  | none =>
      rw [Limited.remove_missing found] at failed
      cases failed
      cases isException
  | some value =>
      cases recorded : Limited.recordRefused refuses
          (Limited.onRemoveSite value) index with
      | true =>
          rw [Limited.remove_notRecorded found recorded] at failed
          cases failed
          rfl
      | false =>
          rw [Limited.remove_recorded found recorded] at failed
          cases failed

/-- A row operation that throws leaves the index as it was if and only if it
did not get as far as a new row: `emplace` keeps the row that it could not
record. -/
theorem failed_rowCall_undisturbed_iff (refuses : IndexSite → Bool)
    (thrown : ThrownModifier) (index final : GenericIndex T)
    (call : RowCall T) (fault : Fault)
    (isException : fault.isException = true)
    (failed : Limited.rowCall refuses thrown call index =
      .error fault final) :
    Undisturbed index final ↔ ¬ call.InsertsRow refuses index := by
  cases call with
  | emplace value =>
      rcases emplace_failed failed with
        ⟨rfl, notInserted⟩ | ⟨inserted, element, success, rfl⟩
      · exact iff_of_true (undisturbed_refl _) notInserted
      · apply iff_of_false
        · intro undisturbed
          have sameRows : inserted = index.indices := undisturbed.rows
          obtain ⟨absent, entries⟩ := MultiIndex.emplace_some success
          have present := entries (T.id value)
          rw [if_pos rfl, sameRows, absent] at present
          cases present
        · exact not_not_intro
            ⟨element, MultiIndex.admits_of_emplace success⟩
  | modify id modifier =>
      change Limited.modify refuses thrown id
        (fun value => .ok (modifier value)) index = _ at failed
      rw [modify_failed isException failed]
      exact iff_of_true (undisturbed_refl _) not_false
  | remove id =>
      rw [remove_failed isException failed]
      exact iff_of_true (undisturbed_refl _) not_false

/-- One stored row, and an open session. -/
def openSessionCalls : List (IndexCall tableKeyMultiIndex) :=
  [.emplace ⟨1, 7, [10]⟩, .startUndoSession]

/-- There is no memory to record the removed row. -/
theorem failed_rowCall_undisturbed_iff_removal :
    ∃ index final,
      Runs.run (IndexCall.step false) (GenericIndex.empty tableKeyMultiIndex)
        openSessionCalls = some index ∧
      Limited.rowCall (fun site => site == .removedValues) .erasesElement
        (.remove 1) index = .error .badAlloc final ∧
      Undisturbed index final := by
  have test : (Runs.run (IndexCall.step false)
      (GenericIndex.empty tableKeyMultiIndex) openSessionCalls).any
        (fun index => match Limited.rowCall
            (fun site => site == .removedValues) .erasesElement (.remove 1)
            index with
          | .ok _ _ => false
          | .error fault _ => decide (fault = .badAlloc)) = true := by
    decide +kernel
  obtain ⟨index, ran, holds⟩ := (Option.any_eq_true _ _).mp test
  split at holds
  · cases holds
  · rename_i fault final failed
    rw [of_decide_eq_true holds] at failed
    exact ⟨index, final, ran, failed, (failed_rowCall_undisturbed_iff _ _ _ _ _
      _ rfl failed).mpr not_false⟩

/-- There is no memory to record the new row: it stays, also after the
undo. -/
theorem failed_rowCall_keepsRow :
    ∃ index final undone : GenericIndex tableKeyMultiIndex,
      Runs.run (IndexCall.step false) (GenericIndex.empty tableKeyMultiIndex)
        openSessionCalls = some index ∧
      Limited.rowCall (fun site => site == .newIds) .erasesElement
        (RowCall.emplace (T := tableKeyMultiIndex) ⟨2, 7, [20]⟩) index =
          .error .badAlloc final ∧
      GenericIndex.undo final = .ok ⟨⟩ undone ∧
      index.indices.rows[(2 : Sha256)]? = none ∧
      undone.indices.rows[(2 : Sha256)]? = some ⟨2, 7, [20]⟩ ∧
      ¬ Undisturbed index final := by
  have test : (Runs.run (IndexCall.step false)
      (GenericIndex.empty tableKeyMultiIndex) openSessionCalls).any
        (fun index => match Limited.rowCall
            (fun site => site == .newIds) .erasesElement
            (RowCall.emplace (T := tableKeyMultiIndex) ⟨2, 7, [20]⟩) index with
          | .ok _ _ => false
          | .error fault final => match GenericIndex.undo final with
              | .error _ _ => false
              | .ok _ undone => decide (fault = .badAlloc ∧
                  index.indices.rows[(2 : Sha256)]? = none ∧
                  final.indices.rows[(2 : Sha256)]? ≠ none ∧
                  undone.indices.rows[(2 : Sha256)]? =
                    some ⟨2, 7, [20]⟩)) = true := by
    decide +kernel
  obtain ⟨index, ran, holds⟩ := (Option.any_eq_true _ _).mp test
  split at holds
  · cases holds
  · rename_i fault final failed
    split at holds
    · cases holds
    · rename_i undone success
      obtain ⟨isBadAlloc, absent, present, stays⟩ := of_decide_eq_true holds
      rw [isBadAlloc] at failed
      refine ⟨index, final, undone, ran, failed, success, absent, stays, ?_⟩
      intro undisturbed
      rw [undisturbed.rows] at present
      exact present absent

end Failures

end StateDatabase
