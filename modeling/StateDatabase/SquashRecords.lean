import Mathlib
import StateDatabase.SnapshotRefinement

/-!
# Squash and one longer session

Two sessions are made on top of an index, one after the other, and squashed.
If no row is created under an id that one of the two sessions has removed
before, the merged undo state is the one that a single session would have
recorded.  This is the assumption about causal timing in the comment of
`squash`; modifiers keep the id of their row.

The proof runs both versions side by side.  `Course` is what a session can have
done to one id under the assumption, `InParallel` relates the index with two
undo states to the index with one, and every row operation keeps it.
-/

namespace StateDatabase

open Maps GenericIndex Programs

variable {T : IndexType}

/-! ## Row operations -/

/-- The calls that change rows. -/
inductive RowCall (T : IndexType) where
  | emplace (value : T.Value)
  | modify (id : T.Id) (modifier : T.Value → T.Value)
  | remove (id : T.Id)

namespace RowCall

def call : RowCall T → IndexCall T
  | .emplace value => .emplace value
  | .modify id modifier => .modify id modifier
  | .remove id => .remove id

/-- The id that the call removes. -/
def removes : RowCall T → List T.Id
  | .remove id => [id]
  | _ => []

/-- A row that is created does not have the id of a row that was removed, and a
modifier keeps the id. -/
def Causal (removed : List T.Id) (rows : MultiIndex T) : RowCall T → Prop
  | .emplace value => rows.Admits value → T.id value ∉ removed
  | .modify id modifier => ∀ value ∈ rows.find id,
      T.id (modifier value) = T.id value
  | .remove _ => True

/-- The new rows and the change of the newest undo state; `none` when the call
ends the process. -/
def outcome (rows : MultiIndex T) :
    RowCall T → Option (MultiIndex T × (UndoState T → UndoState T))
  | .emplace value =>
      match rows.emplace value with
      | none => some (rows, id)
      | some inserted => some (inserted, onCreateHead value)
  | .modify id modifier =>
      (rows.find id).bind fun value =>
        (rows.modify id (modifier value)).map fun modified =>
          (modified, onModifyHead value)
  | .remove id =>
      (rows.find id).map fun value => (rows.erase id, onRemoveHead value)

end RowCall

/-- Every call of the sessions satisfies the causal assumption; `removed` are
the ids that were removed before. -/
def CausalFrom (ndebug : Bool) :
    List T.Id → GenericIndex T → List (RowCall T) → Prop
  | _, _, [] => True
  | removed, index, call :: rest =>
      call.Causal removed index.indices ∧
        ∀ next, call.call.step ndebug index = some next →
          CausalFrom ndebug (call.removes ++ removed) next rest

instance RowCall.decidableCausal (removed : List T.Id) (rows : MultiIndex T) :
    ∀ call : RowCall T, Decidable (call.Causal removed rows)
  | .emplace value =>
      inferInstanceAs (Decidable (rows.Admits value → T.id value ∉ removed))
  | .modify id modifier =>
      inferInstanceAs (Decidable (∀ value ∈ rows.find id,
        T.id (modifier value) = T.id value))
  | .remove _ => isTrue trivial

theorem causalFrom_cons_iff_of_none {ndebug : Bool} {removed : List T.Id}
    {index : GenericIndex T} {call : RowCall T} {rest : List (RowCall T)}
    (ended : call.call.step ndebug index = none) :
    CausalFrom ndebug removed index (call :: rest) ↔
      call.Causal removed index.indices := by
  simp [CausalFrom, ended]

theorem causalFrom_cons_iff_of_some {ndebug : Bool} {removed : List T.Id}
    {index next : GenericIndex T} {call : RowCall T} {rest : List (RowCall T)}
    (stepped : call.call.step ndebug index = some next) :
    CausalFrom ndebug removed index (call :: rest) ↔
      call.Causal removed index.indices ∧
        CausalFrom ndebug (call.removes ++ removed) next rest := by
  simp [CausalFrom, stepped]

instance decidableCausalFrom (ndebug : Bool) :
    ∀ (removed : List T.Id) (index : GenericIndex T)
      (calls : List (RowCall T)), Decidable (CausalFrom ndebug removed index calls)
  | _, _, [] => isTrue trivial
  | removed, index, call :: rest =>
      match stepped : call.call.step ndebug index with
      | none => decidable_of_iff _ (causalFrom_cons_iff_of_none stepped).symm
      | some next =>
          have := decidableCausalFrom ndebug (call.removes ++ removed) next rest
          decidable_of_iff _ (causalFrom_cons_iff_of_some stepped).symm

theorem recordHead_id (index : GenericIndex T) :
    recordHead id index = index := by
  unfold recordHead
  split
  · rfl
  · rename_i head older top
    rw [id, ← top]

/-- A row operation depends on the rows only. -/
theorem RowCall.step_eq (ndebug : Bool) (call : RowCall T)
    (index : GenericIndex T) :
    call.call.step ndebug index =
      (call.outcome index.indices).map fun result =>
        { recordHead result.2 index with indices := result.1 } := by
  cases call with
  | emplace value =>
      change survive (GenericIndex.emplace value index) = _
      cases attempt : index.indices.emplace value with
      | none =>
          rw [emplace_apply_none attempt]
          simp only [RowCall.outcome, attempt, Option.map_some, recordHead_id]
          rfl
      | some inserted =>
          rw [emplace_apply_some attempt, recordHead_rows]
          simp only [RowCall.outcome, attempt, Option.map_some]
          rfl
  | modify id modifier =>
      change survive (GenericIndex.modify id modifier index) = _
      cases found : index.indices.find id with
      | none =>
          rw [GenericIndex.modify, bind_apply_of_ok _ (get_apply index)]
          simp only [RowCall.outcome, found, Option.bind_none, Option.map_none]
          rfl
      | some value =>
          simp only [RowCall.outcome, found, Option.bind_some]
          cases attempt : index.indices.modify id (modifier value) with
          | none =>
              have recorded : onModify value index =
                  .ok ⟨⟩ (recordHead (onModifyHead value) index) := rfl
              rw [GenericIndex.modify, bind_apply_of_ok _ (get_apply index)]
              simp only [found]
              rw [bind_apply_of_ok _ recorded, bind_apply_of_ok _ (get_apply _)]
              simp only [recordHead_indices, attempt, Option.map_none]
              rfl
          | some modified =>
              rw [modify_apply_some found attempt]
              rfl
  | remove id =>
      change survive (GenericIndex.remove id index) = _
      cases found : index.indices.find id with
      | none =>
          rw [GenericIndex.remove, bind_apply_of_ok _ (get_apply index)]
          simp only [RowCall.outcome, found, Option.map_none]
          rfl
      | some value =>
          rw [remove_apply found]
          simp only [RowCall.outcome, found, Option.map_some]
          rfl

/-! ## One id -/

/-- The row before a session, the row now, and the entry of its id, if no id
that the session has removed was created again. -/
inductive Course (T : IndexType) :
    Option T.Value → Option T.Value → Entry T → Prop
  | untouched (row : Option T.Value) :
      Course T row row ⟨false, none, none⟩
  | created (value : T.Value) :
      Course T none (some value) ⟨true, none, none⟩
  | updated (old value : T.Value) :
      Course T (some old) (some value) ⟨false, some old, none⟩
  | removed (old : T.Value) :
      Course T (some old) none ⟨false, none, some old⟩

namespace Course

variable {before middle after : Option T.Value} {entry previous state : Entry T}

theorem create (course : Course T before none entry)
    (unremoved : entry.removed = none) (value : T.Value) :
    Course T before (some value) entry.create := by
  cases course with
  | untouched => exact .created value
  | removed old => cases unremoved

theorem modify {value : T.Value} (course : Course T before (some value) entry)
    (new : T.Value) :
    Course T before (some new) (entry.modify value) := by
  cases course with
  | untouched => exact .updated value new
  | created => exact .created new
  | updated old => exact .updated old new

theorem remove {value : T.Value}
    (course : Course T before (some value) entry) :
    Course T before none (entry.remove value) := by
  cases course with
  | untouched => exact .removed value
  | created => exact .untouched none
  | updated old => exact .removed old

/-- A row that is there is not on record as removed. -/
theorem unremoved {value : T.Value}
    (course : Course T before (some value) entry) : entry.removed = none := by
  cases course with
  | untouched => rfl
  | created => rfl
  | updated => rfl

theorem of_old {value : T.Value} (course : Course T before after entry)
    (recorded : entry.old = some value) : before = some value := by
  cases course with
  | updated =>
      cases recorded
      rfl
  | untouched => cases recorded
  | created => cases recorded
  | removed => cases recorded

theorem of_removed {value : T.Value} (course : Course T before after entry)
    (recorded : entry.removed = some value) :
    before = some value ∧ entry.old = none := by
  cases course with
  | removed =>
      cases recorded
      exact ⟨rfl, rfl⟩
  | untouched => cases recorded
  | created => cases recorded
  | updated => cases recorded

theorem of_new (course : Course T before after entry)
    (isNew : entry.isNew = true) : before = none := by
  cases course with
  | created => rfl
  | untouched => cases isNew
  | updated => cases isNew
  | removed => cases isNew

/-! Recording in the newer of two sessions and merging, or merging and
recording, is the same. -/

theorem merge_create (previous : Entry T) (second : Course T middle none state)
    (unremoved : state.removed = none) :
    previous.merge state.create = (previous.merge state).create := by
  cases second with
  | untouched => rfl
  | removed => cases unremoved

theorem merge_modify {value : T.Value}
    (first : Course T before middle previous)
    (second : Course T middle (some value) state) :
    previous.merge (state.modify value) =
      (previous.merge state).modify value := by
  cases second with
  | untouched => rfl
  | created => rfl
  | updated old =>
      cases first with
      | untouched => rfl
      | created => rfl
      | updated => rfl

theorem merge_remove {value : T.Value}
    (first : Course T before middle previous)
    (second : Course T middle (some value) state) :
    previous.merge (state.remove value) =
      (previous.merge state).remove value := by
  cases second with
  | untouched => rfl
  | created =>
      cases first with
      | untouched => rfl
      | removed => rfl
  | updated old =>
      cases first with
      | untouched => rfl
      | created => rfl
      | updated => rfl

end Course

/-! ## One session -/

/-- The undo state records how the rows went from `before` to `rows`, and the
ids that it has as removed are among `removed`. -/
structure Recording (removed : List T.Id) (before : MultiIndex T)
    (state : UndoState T) (rows : MultiIndex T) : Prop where
  courses : ∀ id : T.Id,
    Course T before.rows[id]? rows.rows[id]? (state.entry id)
  removed : ∀ id : T.Id, (state.entry id).removed ≠ none → id ∈ removed

section Recording

variable {removed : List T.Id} {before middle rows rows' : MultiIndex T}
  {previous state joint : UndoState T} {update : UndoState T → UndoState T}
  {call : RowCall T}

theorem recording_empty (removed : List T.Id) (revision : Int)
    (rows : MultiIndex T) :
    Recording removed rows (UndoState.empty T revision) rows where
  courses := fun id => by
    rw [entry_empty]
    exact .untouched _
  removed := fun id isRemoved => by
    rw [entry_empty] at isRemoved
    exact absurd rfl isRemoved

theorem Recording.mono {more : List T.Id}
    (recording : Recording removed before state rows)
    (subset : removed ⊆ more) : Recording more before state rows where
  courses := recording.courses
  removed := fun id isRemoved => subset (recording.removed id isRemoved)

/-- What a row operation does to the row of one id, and to the entry of this id
in every undo state. -/
inductive Acts (rows rows' : MultiIndex T)
    (update : UndoState T → UndoState T) : RowCall T → Prop
  | refused (value : T.Value) (same : rows' = rows) (noUpdate : update = id) :
      Acts rows rows' update (.emplace value)
  | created (value : T.Value) (absent : rows.rows[T.id value]? = none)
      (admits : rows.Admits value)
      (changed : ∀ id : T.Id, rows'.rows[id]? =
        if T.id value = id then some value else rows.rows[id]?)
      (isUpdate : update = onCreateHead value) :
      Acts rows rows' update (.emplace value)
  | modified (value : T.Value) (modifier : T.Value → T.Value)
      (found : rows.rows[T.id value]? = some value)
      (changed : ∀ id : T.Id, rows'.rows[id]? =
        if T.id value = id then some (modifier value) else rows.rows[id]?)
      (isUpdate : update = onModifyHead value) :
      Acts rows rows' update (.modify (T.id value) modifier)
  | removed (value : T.Value) (found : rows.rows[T.id value]? = some value)
      (changed : ∀ id : T.Id, rows'.rows[id]? =
        if T.id value = id then none else rows.rows[id]?)
      (isUpdate : update = onRemoveHead value) :
      Acts rows rows' update (.remove (T.id value))

theorem RowCall.acts (causal : call.Causal removed rows)
    (isOutcome : call.outcome rows = some (rows', update)) :
    Acts rows rows' update call := by
  cases call with
  | emplace value =>
      unfold RowCall.outcome at isOutcome
      cases attempt : rows.emplace value with
      | none =>
          simp only [attempt] at isOutcome
          cases isOutcome
          exact .refused value rfl rfl
      | some inserted =>
          simp only [attempt] at isOutcome
          cases isOutcome
          obtain ⟨absent, changed⟩ := MultiIndex.emplace_some attempt
          exact .created value absent (MultiIndex.admits_of_emplace attempt)
            changed rfl
  | modify id modifier =>
      obtain ⟨value, found, isModified⟩ := Option.bind_eq_some_iff.mp isOutcome
      obtain ⟨modified, attempt, isPair⟩ := Option.map_eq_some_iff.mp isModified
      cases isPair
      have isId : T.id value = id := rows.keyed found
      have keepsId : T.id (modifier value) = T.id value := causal value found
      subst isId
      refine .modified value modifier found ?_ rfl
      intro tested
      rw [(MultiIndex.emplace_some attempt).2 tested, keepsId,
        MultiIndex.erase_row]
      split
      · rfl
      · rfl
  | remove id =>
      obtain ⟨value, found, isPair⟩ := Option.map_eq_some_iff.mp isOutcome
      cases isPair
      have isId : T.id value = id := rows.keyed found
      subst isId
      exact .removed value found (MultiIndex.erase_row rows _) rfl

theorem Acts.revision (acts : Acts rows rows' update call)
    (state : UndoState T) : (update state).revision = state.revision := by
  cases acts with
  | refused value same noUpdate =>
      subst noUpdate
      rfl
  | created value absent admits changed isUpdate =>
      subst isUpdate
      rfl
  | modified value modifier found changed isUpdate =>
      subst isUpdate
      exact onModifyHead_revision value state
  | removed value found changed isUpdate =>
      subst isUpdate
      exact onRemoveHead_revision value state

/-- Every row operation under the causal assumption is recorded. -/
theorem Recording.step (recording : Recording removed before state rows)
    (causal : call.Causal removed rows) (acts : Acts rows rows' update call) :
    Recording (call.removes ++ removed) before (update state) rows' := by
  cases acts with
  | refused value same noUpdate =>
      subst same noUpdate
      exact recording
  | created value absent admits changed isUpdate =>
      subst isUpdate
      have notRemoved : T.id value ∉ removed := causal admits
      constructor
      · intro id
        have course := recording.courses id
        rw [changed id, entry_onCreateHead]
        split
        · rename_i isId
          subst isId
          rw [absent] at course
          refine course.create ?_ value
          by_contra isRemoved
          exact notRemoved (recording.removed _ isRemoved)
        · exact course
      · intro id isRemoved
        rw [entry_onCreateHead] at isRemoved
        split at isRemoved
        · exact recording.removed id isRemoved
        · exact recording.removed id isRemoved
  | modified value modifier found changed isUpdate =>
      subst isUpdate
      constructor
      · intro id
        have course := recording.courses id
        rw [changed id, entry_onModifyHead]
        split
        · rename_i isId
          subst isId
          rw [found] at course
          exact course.modify (modifier value)
        · exact course
      · intro id isRemoved
        rw [entry_onModifyHead] at isRemoved
        split at isRemoved
        · rename_i isId
          subst isId
          have course := recording.courses (T.id value)
          rw [found] at course
          exact absurd (course.modify value).unremoved isRemoved
        · exact recording.removed id isRemoved
  | removed value found changed isUpdate =>
      subst isUpdate
      constructor
      · intro id
        have course := recording.courses id
        rw [changed id, entry_onRemoveHead]
        split
        · rename_i isId
          subst isId
          rw [found] at course
          exact course.remove
        · exact course
      · intro id isRemoved
        rw [entry_onRemoveHead] at isRemoved
        split at isRemoved
        · rename_i isId
          subst isId
          exact List.mem_append_left removed (List.mem_singleton_self _)
        · exact List.mem_append_right _ (recording.removed id isRemoved)

/-! ## Two sessions and one -/

/-- `previous` and `state` are the undo states of two sessions, and `joint` is
the undo state of one session in their place. -/
structure Parallel (removed : List T.Id) (before middle : MultiIndex T)
    (previous state joint : UndoState T) (rows : MultiIndex T) : Prop where
  first : Recording removed before previous middle
  second : Recording removed middle state rows
  whole : Recording removed before joint rows
  revision : joint.revision = previous.revision
  merged : ∀ id : T.Id,
    joint.entry id = (previous.entry id).merge (state.entry id)

/-- The second session starts. -/
theorem Recording.parallel (recording : Recording removed before state rows)
    (revision : Int) :
    Parallel removed before rows state (UndoState.empty T revision) state
      rows where
  first := recording
  second := recording_empty removed revision rows
  whole := recording
  revision := rfl
  merged := fun id => by
    rw [entry_empty]
    rfl

/-- Recording a row operation in the newer undo state is merged as if the one
undo state had recorded it. -/
theorem Parallel.merged_step
    (parallel : Parallel removed before middle previous state joint rows)
    (causal : call.Causal removed rows) (acts : Acts rows rows' update call)
    (id : T.Id) :
    (update joint).entry id =
      (previous.entry id).merge ((update state).entry id) := by
  have merged := parallel.merged id
  have second := parallel.second.courses id
  cases acts with
  | refused value same noUpdate =>
      subst noUpdate
      exact merged
  | created value absent admits changed isUpdate =>
      subst isUpdate
      rw [entry_onCreateHead, entry_onCreateHead]
      split
      · rename_i isId
        subst isId
        rw [absent] at second
        rw [merged, second.merge_create]
        by_contra isRemoved
        exact causal admits (parallel.second.removed _ isRemoved)
      · exact merged
  | modified value modifier found changed isUpdate =>
      subst isUpdate
      rw [entry_onModifyHead, entry_onModifyHead]
      split
      · rename_i isId
        subst isId
        rw [found] at second
        rw [merged, (parallel.first.courses _).merge_modify second]
      · exact merged
  | removed value found changed isUpdate =>
      subst isUpdate
      rw [entry_onRemoveHead, entry_onRemoveHead]
      split
      · rename_i isId
        subst isId
        rw [found] at second
        rw [merged, (parallel.first.courses _).merge_remove second]
      · exact merged

theorem Parallel.step
    (parallel : Parallel removed before middle previous state joint rows)
    (causal : call.Causal removed rows) (acts : Acts rows rows' update call) :
    Parallel (call.removes ++ removed) before middle previous (update state)
      (update joint) rows' where
  first := parallel.first.mono (List.subset_append_right _ _)
  second := parallel.second.step causal acts
  whole := parallel.whole.step causal acts
  revision := (acts.revision joint).trans parallel.revision
  merged := parallel.merged_step causal acts

/-- Undo states with the same entries. -/
theorem UndoState.ext_entry {left right : UndoState T}
    (sameRevision : left.revision = right.revision)
    (entries : ∀ id : T.Id, left.entry id = right.entry id) : left = right := by
  obtain ⟨leftOld, leftRemoved, leftNew, leftRevision⟩ := left
  obtain ⟨rightOld, rightRemoved, rightNew, rightRevision⟩ := right
  have sameOld : leftOld = rightOld := by
    apply Std.ExtTreeMap.ext_getElem?
    intro id
    exact congrArg Entry.old (entries id)
  have sameRemoved : leftRemoved = rightRemoved := by
    apply Std.ExtTreeMap.ext_getElem?
    intro id
    exact congrArg Entry.removed (entries id)
  have sameNew : leftNew = rightNew := by
    apply Std.ExtTreeSet.ext_mem
    intro id
    have sameFlag := congrArg Entry.isNew (entries id)
    simpa only [UndoState.entry, decide_eq_decide] using sameFlag
  subst sameOld sameRemoved sameNew
  cases sameRevision
  rfl

/-- Merging gives the undo state of the one session. -/
theorem Parallel.mergeStates
    (parallel : Parallel removed before middle previous state joint rows)
    (ndebug : Bool) :
    mergeStates ndebug previous state = .ok joint := by
  obtain ⟨merged, isMerged, sameRevision, entries⟩ :=
    mergeStates_entries ndebug
      (by
        intro id value recorded
        have isRow := (parallel.second.courses id).of_old recorded
        have first := parallel.first.courses id
        rw [isRow] at first
        exact ⟨middle.keyed isRow, fun _ => first.unremoved⟩)
      (by
        intro id value recorded
        obtain ⟨isRow, noOld⟩ :=
          (parallel.second.courses id).of_removed recorded
        have first := parallel.first.courses id
        rw [isRow] at first
        exact ⟨middle.keyed isRow, noOld, fun _ => first.unremoved⟩)
  rw [isMerged]
  congr 1
  refine UndoState.ext_entry (sameRevision.trans parallel.revision.symm) ?_
  intro id
  rw [entries id, parallel.merged id]

end Recording

/-! ## Runs -/

section Runs

variable {ndebug : Bool} {removed : List T.Id}
  {before middle rows : MultiIndex T} {previous state joint : UndoState T}
  {older : List (UndoState T)} {revision : Int}

/-- One step on an index with an undo state. -/
theorem RowCall.step_cons {call : RowCall T} {next : GenericIndex T}
    (stepped : call.call.step ndebug ⟨state :: older, revision, rows⟩ =
      some next) :
    ∃ rows' update, call.outcome rows = some (rows', update) ∧
      next = ⟨update state :: older, revision, rows'⟩ := by
  rw [RowCall.step_eq] at stepped
  obtain ⟨⟨rows', update⟩, isOutcome, isNext⟩ :=
    Option.map_eq_some_iff.mp stepped
  exact ⟨rows', update, isOutcome, isNext.symm⟩

theorem RowCall.step_of_outcome {call : RowCall T} {rows' : MultiIndex T}
    {update : UndoState T → UndoState T}
    (isOutcome : call.outcome rows = some (rows', update)) :
    call.call.step ndebug ⟨state :: older, revision, rows⟩ =
      some ⟨update state :: older, revision, rows'⟩ := by
  rw [RowCall.step_eq, isOutcome]
  rfl

/-- The calls of the first session. -/
theorem recording_run :
    ∀ (calls rest : List (RowCall T)) {removed : List T.Id}
      {rows : MultiIndex T} {state : UndoState T} {final : GenericIndex T},
      Recording removed before state rows →
      CausalFrom ndebug removed ⟨state :: older, revision, rows⟩
        (calls ++ rest) →
      Runs.run (IndexCall.step ndebug) ⟨state :: older, revision, rows⟩
        (calls.map RowCall.call) = some final →
        ∃ removed' rows' state',
          final = ⟨state' :: older, revision, rows'⟩ ∧
          Recording removed' before state' rows' ∧
          CausalFrom ndebug removed' final rest
  | [], rest, removed, rows, state, final, recording, causal, finished => by
      cases finished
      exact ⟨removed, rows, state, rfl, recording, causal⟩
  | call :: calls, rest, removed, rows, state, final, recording, causal,
      finished => by
      rw [List.map_cons, Runs.run_cons] at finished
      obtain ⟨next, stepped, later⟩ := Option.bind_eq_some_iff.mp finished
      have causalRest := causal.2 next stepped
      obtain ⟨rows', update, isOutcome, rfl⟩ := RowCall.step_cons stepped
      exact recording_run calls rest
        (recording.step causal.1 (RowCall.acts causal.1 isOutcome)) causalRest
        later

/-- The calls of the second session, and the same calls in the one session. -/
theorem parallel_run :
    ∀ (calls : List (RowCall T)) {removed : List T.Id} {rows : MultiIndex T}
      {state joint : UndoState T} {final : GenericIndex T},
      Parallel removed before middle previous state joint rows →
      CausalFrom ndebug removed ⟨joint :: older, revision, rows⟩ calls →
      Runs.run (IndexCall.step ndebug)
        ⟨state :: previous :: older, revision + 1, rows⟩
        (calls.map RowCall.call) = some final →
        ∃ removed' rows' state' joint',
          final = ⟨state' :: previous :: older, revision + 1, rows'⟩ ∧
          Runs.run (IndexCall.step ndebug) ⟨joint :: older, revision, rows⟩
            (calls.map RowCall.call) =
              some ⟨joint' :: older, revision, rows'⟩ ∧
          Parallel removed' before middle previous state' joint' rows'
  | [], removed, rows, state, joint, final, parallel, _, finished => by
      cases finished
      exact ⟨removed, rows, state, joint, rfl, rfl, parallel⟩
  | call :: calls, removed, rows, state, joint, final, parallel, causal,
      finished => by
      rw [List.map_cons, Runs.run_cons] at finished
      obtain ⟨next, stepped, later⟩ := Option.bind_eq_some_iff.mp finished
      obtain ⟨rows', update, isOutcome, rfl⟩ := RowCall.step_cons stepped
      have jointStep : call.call.step ndebug ⟨joint :: older, revision, rows⟩ =
          some ⟨update joint :: older, revision, rows'⟩ :=
        RowCall.step_of_outcome isOutcome
      obtain ⟨removed', last, state', joint', isFinal, jointRun, reached⟩ :=
        parallel_run calls
          (parallel.step causal.1 (RowCall.acts causal.1 isOutcome))
          (causal.2 _ jointStep) later
      refine ⟨removed', last, state', joint', isFinal, ?_, reached⟩
      rw [List.map_cons, Runs.run_cons, jointStep]
      exact jointRun

end Runs

theorem startUndoSession_step {ndebug : Bool} {index next : GenericIndex T}
    (stepped : IndexCall.startUndoSession.step ndebug index = some next) :
    next = index.opened := by
  change survive (GenericIndex.startUndoSession index) = some next at stepped
  by_cases bounded : index.revision < int64Max
  · rw [startUndoSession_apply bounded] at stepped
    cases stepped
    rfl
  · rw [GenericIndex.startUndoSession, bind_apply_of_ok _ (get_apply index),
      if_neg bounded] at stepped
    cases stepped

/-- Two sessions are made on top of any index, with causal row operations in
both.  Then `squash` fails no assertion, leaves the rows alone, lowers the
revision by one, and leaves the index as one session with all these operations
would have left it.  The merged undo state holds the values from before the
first session. -/
theorem squash_eq_one_session (ndebug : Bool) (index split : GenericIndex T)
    (first second : List (RowCall T))
    (causal : CausalFrom ndebug [] index.opened (first ++ second))
    (reached : Runs.run (IndexCall.step ndebug) index
      (.startUndoSession :: first.map RowCall.call ++
        .startUndoSession :: second.map RowCall.call) = some split) :
    ∃ squashed merged, GenericIndex.squash ndebug split = .ok ⟨⟩ squashed ∧
      Runs.run (IndexCall.step ndebug) index
        (.startUndoSession :: (first ++ second).map RowCall.call) =
          some squashed ∧
      squashed.indices = split.indices ∧
      squashed.revision = split.revision - 1 ∧
      squashed.stack = merged :: index.stack ∧
      (∀ id ∈ merged.newIds, index.indices.rows[id]? = none) ∧
      (∀ (id : T.Id) (value : T.Value), merged.oldValues[id]? = some value →
        index.indices.rows[id]? = some value) ∧
      ∀ (id : T.Id) (value : T.Value), merged.removedValues[id]? = some value →
        index.indices.rows[id]? = some value := by
  rw [List.cons_append, Runs.run_cons] at reached
  obtain ⟨opened, started, afterStart⟩ := Option.bind_eq_some_iff.mp reached
  have isOpened := startUndoSession_step started
  subst isOpened
  rw [Runs.run_append] at afterStart
  obtain ⟨between, firstRun, afterFirst⟩ :=
    Option.bind_eq_some_iff.mp afterStart
  obtain ⟨removed, rows, previous, isBetween, recording, causalSecond⟩ :=
    recording_run first second
      (recording_empty [] (index.revision + 1) index.indices) causal firstRun
  subst isBetween
  rw [Runs.run_cons] at afterFirst
  obtain ⟨reopened, startedAgain, secondRun⟩ :=
    Option.bind_eq_some_iff.mp afterFirst
  have isReopened := startUndoSession_step startedAgain
  subst isReopened
  obtain ⟨removed', final, state, joint, isSplit, jointRun, parallel⟩ :=
    parallel_run second (recording.parallel _) causalSecond secondRun
  subst isSplit
  refine ⟨⟨joint :: index.stack, index.revision + 1, final⟩, joint, ?_, ?_, rfl,
    by simp, rfl, ?_, ?_, ?_⟩
  · rw [squash_apply_cons rfl (parallel.mergeStates ndebug)]
    simp
  · rw [Runs.run_cons, started, List.map_append]
    change Runs.run _ index.opened _ = _
    rw [Runs.run_append, firstRun]
    exact jointRun
  · intro id isNew
    exact (parallel.whole.courses id).of_new (decide_eq_true isNew)
  · intro id value recorded
    exact (parallel.whole.courses id).of_old recorded
  · intro id value recorded
    exact ((parallel.whole.courses id).of_removed recorded).1

/-- Two stored rows. -/
def mixedRowsCalls : List (IndexCall tableKeyMultiIndex) :=
  [.emplace ⟨1, 7, [10]⟩, .emplace ⟨2, 7, [20]⟩]

/-- One row is updated and one is created. -/
def mixedRowsFirst : List (RowCall tableKeyMultiIndex) :=
  [.modify 1 fun row => { row with value := [11] }, .emplace ⟨3, 7, [30]⟩]

/-- The updated and the created row are removed, the untouched one is updated,
and another one is created. -/
def mixedRowsSecond : List (RowCall tableKeyMultiIndex) :=
  [.remove 1, .modify 2 fun row => { row with value := [21] }, .remove 3,
    .emplace ⟨4, 7, [40]⟩]

theorem squash_eq_one_session_mixedRows :
    ∃ index split squashed merged,
      Runs.run (IndexCall.step false) (GenericIndex.empty tableKeyMultiIndex)
        mixedRowsCalls = some index ∧
      Runs.run (IndexCall.step false) index
        (.startUndoSession :: mixedRowsFirst.map RowCall.call ++
          .startUndoSession :: mixedRowsSecond.map RowCall.call) =
            some split ∧
      GenericIndex.squash false split = .ok ⟨⟩ squashed ∧
      Runs.run (IndexCall.step false) index
        (.startUndoSession ::
          (mixedRowsFirst ++ mixedRowsSecond).map RowCall.call) =
            some squashed ∧
      squashed.stack = merged :: index.stack := by
  have causal :
      (Runs.run (IndexCall.step false) (GenericIndex.empty tableKeyMultiIndex)
        mixedRowsCalls).any (fun index =>
          decide (CausalFrom false [] index.opened
            (mixedRowsFirst ++ mixedRowsSecond)) &&
          (Runs.run (IndexCall.step false) index
            (.startUndoSession :: mixedRowsFirst.map RowCall.call ++
              .startUndoSession :: mixedRowsSecond.map RowCall.call)).isSome) =
        true := by
    decide +kernel
  obtain ⟨index, isIndex, holds⟩ := (Option.any_eq_true _ _).mp causal
  rw [Bool.and_eq_true, decide_eq_true_iff] at holds
  obtain ⟨split, reached⟩ := Option.isSome_iff_exists.mp holds.2
  obtain ⟨squashed, merged, success, oneRun, _, _, isStack, _⟩ :=
    squash_eq_one_session false index split mixedRowsFirst mixedRowsSecond
      holds.1 reached
  exact ⟨index, split, squashed, merged, isIndex, reached, success, oneRun,
    isStack⟩

end StateDatabase
