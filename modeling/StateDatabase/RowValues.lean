import Mathlib
import StateDatabase.RevisionRange

/-!
# Properties of all values of an index

A property that holds of every value that is stored holds of every value that
can come back: of the rows and of the values in all undo states.
-/

namespace StateDatabase

open Maps Programs GenericIndex

variable {T : IndexType} {property : T.Value → Prop}

/-- The property holds of every entry. -/
def AllValues (property : T.Value → Prop) (map : IdMap T T.Value) : Prop :=
  ∀ (id : T.Id) (value : T.Value), map[id]? = some value → property value

structure UndoState.Satisfies (property : T.Value → Prop)
    (state : UndoState T) : Prop where
  oldValues : AllValues property state.oldValues
  removedValues : AllValues property state.removedValues

/-- The property holds of the rows and of the values in the undo states. -/
structure GenericIndex.Satisfies (property : T.Value → Prop)
    (index : GenericIndex T) : Prop where
  rows : AllValues property index.indices.rows
  states : ∀ state ∈ index.stack, state.Satisfies property

/-! ## Maps and containers -/

theorem AllValues.insertIfNew {map : IdMap T T.Value} {id : T.Id}
    {value : T.Value} (all : AllValues property map) (holds : property value) :
    AllValues property (map.insertIfNew id value) := by
  intro tested found isFound
  rw [map_insertIfNew] at isFound
  split at isFound
  · cases isFound
    exact holds
  · exact all tested found isFound

theorem AllValues.erase {map : IdMap T T.Value}
    (all : AllValues property map) (id : T.Id) :
    AllValues property (map.erase id) := by
  intro tested found isFound
  rw [map_erase] at isFound
  split at isFound
  · cases isFound
  · exact all tested found isFound

theorem AllValues.of_mem {map : IdMap T T.Value}
    (all : AllValues property map) {item : T.Id × T.Value}
    (member : item ∈ map.toList) : property item.2 :=
  all item.1 item.2 ((mem_map_toList map item.1 item.2).mp member)

theorem AllValues.emplace {container stored : MultiIndex T} {value : T.Value}
    (all : AllValues property container.rows) (holds : property value)
    (success : container.emplace value = some stored) :
    AllValues property stored.rows := by
  intro tested found isFound
  rw [(MultiIndex.emplace_some success).2] at isFound
  split at isFound
  · cases isFound
    exact holds
  · exact all tested found isFound

theorem AllValues.modify {container modified : MultiIndex T} {id : T.Id}
    {value : T.Value} (all : AllValues property container.rows)
    (holds : property value)
    (success : container.modify id value = some modified) :
    AllValues property modified.rows :=
  AllValues.emplace (all.erase id) holds
    success

/-! ## Undo states -/

section States

variable {state previous merged : UndoState T} {value : T.Value}

theorem satisfies_empty (revision : Int) :
    (UndoState.empty T revision).Satisfies property :=
  ⟨fun _ _ found => by simp [UndoState.empty] at found,
    fun _ _ found => by simp [UndoState.empty] at found⟩

theorem UndoState.Satisfies.onModifyHead (satisfies : state.Satisfies property)
    (holds : property value) :
    (GenericIndex.onModifyHead value state).Satisfies property := by
  unfold GenericIndex.onModifyHead
  split
  · exact satisfies
  · split
    · exact satisfies
    · exact ⟨satisfies.oldValues.insertIfNew holds, satisfies.removedValues⟩

theorem UndoState.Satisfies.onRemoveHead (satisfies : state.Satisfies property)
    (holds : property value) :
    (GenericIndex.onRemoveHead value state).Satisfies property := by
  unfold GenericIndex.onRemoveHead
  split
  · exact ⟨satisfies.oldValues, satisfies.removedValues⟩
  · split
    · rename_i old isOld
      exact ⟨satisfies.oldValues.erase _,
        satisfies.removedValues.insertIfNew (satisfies.oldValues _ old isOld)⟩
    · split
      · exact satisfies
      · exact ⟨satisfies.oldValues, satisfies.removedValues.insertIfNew holds⟩

/-- The rows that `undo` puts back come from the undo state. -/
theorem undoRows_allValues {container restored : MultiIndex T}
    (all : AllValues property container.rows)
    (satisfies : state.Satisfies property)
    (success : undoRows state container = .ok restored) :
    AllValues property restored.rows := by
  unfold undoRows at success
  cases first : state.newIds.toList.foldlM eraseNew container with
  | error fault =>
      rw [first] at success
      cases success
  | ok withoutNew =>
      rw [first] at success
      cases second : state.oldValues.toList.foldlM restoreOld withoutNew with
      | error fault =>
          simp only [bind, Except.bind, second] at success
          cases success
      | ok withOld =>
          simp only [bind, Except.bind, second] at success
          have allWithoutNew : AllValues property withoutNew.rows := by
            refine foldlM_preserves
              (fun reached => AllValues property reached.rows)
              ?_ all first
            intro id _ reached next holds stepped
            unfold eraseNew at stepped
            split at stepped
            · cases stepped
            · cases stepped
              exact holds.erase id
          have allWithOld : AllValues property withOld.rows := by
            refine foldlM_preserves
              (fun reached => AllValues property reached.rows)
              ?_ allWithoutNew second
            intro item member reached next holds stepped
            unfold restoreOld at stepped
            split at stepped
            · cases stepped
            · split at stepped
              · cases stepped
              · rename_i modified changed
                cases stepped
                exact holds.modify (satisfies.oldValues.of_mem member) changed
          refine foldlM_preserves
            (fun reached => AllValues property reached.rows)
            ?_ allWithOld success
          intro item member reached next holds stepped
          unfold restoreRemoved at stepped
          split at stepped
          · cases stepped
          · rename_i stored inserted
            cases stepped
            exact holds.emplace (satisfies.removedValues.of_mem member) inserted

theorem foldl_squashNew_satisfies : ∀ (ids : List T.Id) {state : UndoState T},
    state.Satisfies property →
      (ids.foldl squashNew state).Satisfies property
  | [], _, satisfies => satisfies
  | _ :: rest, _, satisfies =>
      foldl_squashNew_satisfies rest
        ⟨satisfies.oldValues, satisfies.removedValues⟩

/-- Merging moves values between the records. -/
theorem mergeStates_satisfies {ndebug : Bool}
    (previousSatisfies : previous.Satisfies property)
    (satisfies : state.Satisfies property)
    (success : mergeStates ndebug previous state = .ok merged) :
    merged.Satisfies property := by
  unfold mergeStates at success
  cases first : state.oldValues.toList.foldlM (squashOld ndebug) previous with
  | error fault =>
      rw [first] at success
      cases success
  | ok withOld =>
      rw [first] at success
      have oldSatisfies : withOld.Satisfies property := by
        refine foldlM_preserves _ ?_ previousSatisfies first
        intro item member reached next holds stepped
        unfold squashOld at stepped
        split at stepped
        · cases stepped
          exact holds
        · split at stepped
          · cases stepped
            exact holds
          · rw [assertThat_ok stepped]
            exact ⟨holds.oldValues.insertIfNew
              (satisfies.oldValues.of_mem member), holds.removedValues⟩
      refine foldlM_preserves _ ?_
        (foldl_squashNew_satisfies _ oldSatisfies) success
      intro item member reached next holds stepped
      unfold squashRemoved at stepped
      split at stepped
      · cases stepped
        exact ⟨holds.oldValues, holds.removedValues⟩
      · split at stepped
        · rename_i old isOld
          cases stepped
          exact ⟨holds.oldValues.erase _,
            holds.removedValues.insertIfNew (holds.oldValues _ old isOld)⟩
        · rw [assertThat_ok stepped]
          exact ⟨holds.oldValues, holds.removedValues.insertIfNew
            (satisfies.removedValues.of_mem member)⟩

end States

/-! ## Calls -/

section Calls

variable {index : GenericIndex T}

theorem GenericIndex.Satisfies.recordHead {update : UndoState T → UndoState T}
    {rows : MultiIndex T} (satisfies : index.Satisfies property)
    (keeps : ∀ state, state.Satisfies property →
      (update state).Satisfies property)
    (all : AllValues property rows.rows) :
    GenericIndex.Satisfies property
      { GenericIndex.recordHead update index with indices := rows } := by
  refine ⟨all, ?_⟩
  unfold GenericIndex.recordHead
  cases top : index.stack with
  | nil =>
      simp only [top]
      exact fun _ member => absurd member List.not_mem_nil
  | cons head older =>
      intro state member
      have satisfiesAll := satisfies.states
      rw [top] at satisfiesAll
      rcases List.mem_cons.mp member with isHead | isOlder
      · rw [isHead]
        exact keeps head (satisfiesAll head List.mem_cons_self)
      · exact satisfiesAll state (List.mem_cons_of_mem head isOlder)

/-- The call stores only values with the property. -/
def IndexCall.Stores (property : T.Value → Prop) (index : GenericIndex T) :
    IndexCall T → Prop
  | .emplace value => property value
  | .modify id modifier => ∀ value, index.indices.find id = some value →
      property value → property (modifier value)
  | _ => True

theorem GenericIndex.Satisfies.ends_undo
    (satisfies : index.Satisfies property) :
    Ends GenericIndex.undo index
      (fun _ final => final.Satisfies property)
      (fun _ final => final.Satisfies property) := by
  cases top : index.stack with
  | nil => exact ends_of_ok (undo_apply_nil top) satisfies
  | cons head older =>
      have states := satisfies.states
      rw [top] at states
      refine ends_bind (ends_of_ok (get_apply index) ?_)
      rw [top]
      cases restored : undoRows head index.indices with
      | error fault =>
          simp only [restored]
          exact ends_of_error (throw_apply _ _) satisfies
      | ok rows =>
          simp only [restored]
          refine ends_of_ok (set_apply _ index) ⟨?_, ?_⟩
          · exact undoRows_allValues satisfies.rows
              (states head List.mem_cons_self) restored
          · exact fun state member =>
              states state (List.mem_cons_of_mem head member)

theorem GenericIndex.Satisfies.ends_undoTimes :
    ∀ (rounds : Nat) {index : GenericIndex T}, index.Satisfies property →
      Ends (GenericIndex.undoTimes rounds) index
        (fun _ final => final.Satisfies property)
        (fun _ final => final.Satisfies property)
  | 0, _, satisfies => ends_pure satisfies
  | rounds + 1, _, satisfies =>
      ends_bind (satisfies.ends_undo.imp
        (fun _ _ middle => GenericIndex.Satisfies.ends_undoTimes rounds middle)
        fun _ _ failed => failed)

theorem GenericIndex.Satisfies.ends_squash (ndebug : Bool)
    (satisfies : index.Satisfies property) :
    Ends (GenericIndex.squash ndebug) index
      (fun _ final => final.Satisfies property)
      (fun _ final => final.Satisfies property) := by
  have states := satisfies.states
  refine ends_bind (ends_of_ok (get_apply index) ?_)
  match top : index.stack with
  | [] => exact ends_pure satisfies
  | [head] =>
      exact ends_of_ok (set_apply _ index) ⟨satisfies.rows,
        fun _ member => absurd member List.not_mem_nil⟩
  | state :: previous :: older =>
      rw [top] at states
      cases merge : mergeStates ndebug previous state with
      | error fault =>
          simp only [merge]
          exact ends_of_error (throw_apply _ _) satisfies
      | ok merged =>
          simp only [merge]
          refine ends_of_ok (set_apply _ index) ⟨satisfies.rows, ?_⟩
          intro tested member
          rcases List.mem_cons.mp member with isMerged | isOlder
          · rw [isMerged]
            exact mergeStates_satisfies (states previous (by simp))
              (states state (by simp)) merge
          · exact states tested (by simp [isOlder])

theorem GenericIndex.Satisfies.ends_setRevision (revision : UInt64)
    (satisfies : index.Satisfies property) :
    Ends (GenericIndex.setRevision revision) index
      (fun _ final => final.Satisfies property)
      (fun _ final => final.Satisfies property) := by
  refine ends_bind (ends_of_ok (get_apply index) ?_)
  split
  · exact ends_of_error (throw_apply _ _) satisfies
  · split
    · exact ends_of_error (throw_apply _ _) satisfies
    · exact ends_of_ok (set_apply _ index) ⟨satisfies.rows, satisfies.states⟩

theorem GenericIndex.Satisfies.ends_modify {id : T.Id}
    {modifier : T.Value → T.Value} (satisfies : index.Satisfies property)
    (stores : ∀ value, index.indices.find id = some value →
      property value → property (modifier value)) :
    Ends (GenericIndex.modify id modifier) index
      (fun _ final => final.Satisfies property)
      (fun fault _ => fault.isException = false) := by
  refine ends_bind (ends_of_ok (get_apply index) ?_)
  cases found : index.indices.find id with
  | none => exact ends_of_error (throw_apply _ _) rfl
  | some value =>
      have holds : property value := satisfies.rows id value found
      refine ends_bind (ends_of_ok
        rfl
        (ends_bind (ends_of_ok (get_apply _) ?_)))
      rw [recordHead_indices]
      cases attempt : index.indices.modify id (modifier value) with
      | none => exact ends_of_error (throw_apply _ _) rfl
      | some modified =>
          exact ends_of_ok (set_apply _ _) (satisfies.recordHead
            (fun _ state => state.onModifyHead holds)
            (satisfies.rows.modify (stores value found holds) attempt))

theorem GenericIndex.Satisfies.ends_remove {id : T.Id}
    (satisfies : index.Satisfies property) :
    Ends (GenericIndex.remove id) index
      (fun _ final => final.Satisfies property)
      (fun fault _ => fault.isException = false) := by
  refine ends_bind (ends_of_ok (get_apply index) ?_)
  cases found : index.indices.find id with
  | none => exact ends_of_error (throw_apply _ _) rfl
  | some value =>
      refine ends_bind (ends_of_ok
        rfl
        (ends_bind (ends_of_ok (get_apply _) (ends_of_ok (set_apply _ _) ?_))))
      rw [recordHead_indices]
      exact satisfies.recordHead
        (fun _ state => state.onRemoveHead (satisfies.rows id value found))
        (satisfies.rows.erase id)

theorem GenericIndex.Satisfies.ends_emplace {value : T.Value}
    (satisfies : index.Satisfies property) (holds : property value) :
    Ends (GenericIndex.emplace value) index
      (fun _ final => final.Satisfies property)
      (fun _ final => final.Satisfies property) := by
  cases attempt : index.indices.emplace value with
  | none => exact ends_of_error (emplace_apply_none attempt) satisfies
  | some inserted =>
      refine ends_of_ok (emplace_apply_some attempt) ?_
      rw [recordHead_rows]
      exact satisfies.recordHead
        (fun _ state => ⟨state.oldValues, state.removedValues⟩)
        (satisfies.rows.emplace holds attempt)

/-- Every call that stores only values with the property keeps it. -/
theorem satisfies_ends (ndebug : Bool) (call : IndexCall T)
    (satisfies : index.Satisfies property)
    (stores : call.Stores property index) :
    Ends (call.program ndebug) index
      (fun _ final => final.Satisfies property)
      (fun fault final => fault.isException = true →
        final.Satisfies property) := by
  have impossible : ∀ (fault : Fault) (final : GenericIndex T),
      fault.isException = false → fault.isException = true →
        final.Satisfies property := by
    intro fault final isNone isSome
    rw [isNone] at isSome
    cases isSome
  cases call with
  | emplace value =>
      exact (satisfies.ends_emplace stores).imp (fun _ _ holds => holds)
        fun _ _ holds _ => holds
  | modify id modifier =>
      exact (satisfies.ends_modify stores).imp (fun _ _ holds => holds)
        impossible
  | remove id =>
      exact satisfies.ends_remove.imp (fun _ _ holds => holds) impossible
  | startUndoSession =>
      refine ends_bind (ends_of_ok (get_apply index) ?_)
      split
      · refine ends_of_ok (set_apply _ index) ⟨satisfies.rows, ?_⟩
        intro state member
        rcases List.mem_cons.mp member with isNew | isOld
        · rw [isNew]
          exact satisfies_empty _
        · exact satisfies.states state isOld
      · exact ends_of_error (throw_apply _ _) nofun
  | undo =>
      exact satisfies.ends_undo.imp (fun _ _ holds => holds)
        fun _ _ holds _ => holds
  | squash =>
      exact (satisfies.ends_squash ndebug).imp (fun _ _ holds => holds)
        fun _ _ holds _ => holds
  | commit revision =>
      refine ends_of_ok (commit_apply revision index) ⟨satisfies.rows, ?_⟩
      intro state member
      exact satisfies.states state
        ((List.rdropWhile_prefix _ _).subset member)
  | undoAll =>
      refine ends_bind (ends_of_ok (get_apply index) ?_)
      exact (GenericIndex.Satisfies.ends_undoTimes _ satisfies).imp
        (fun _ _ holds => holds) fun _ _ holds _ => holds
  | setRevision revision =>
      exact (satisfies.ends_setRevision revision).imp (fun _ _ holds => holds)
        fun _ _ holds _ => holds

end Calls

end StateDatabase
