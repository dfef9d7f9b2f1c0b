import Mathlib
import StateDatabase.Revisions
import StateDatabase.Database
import StateDatabase.SnapshotRefinement

/-!
# The revision ranges of the indices of a database

Each call changes the shape of an index in a way that depends on the shape
alone.  So indices that have the same shape keep having the same shape when a
call reaches all of them.  A session that was started before an index was
registered does not reach that index, and this is the only way in which the
shapes can come apart.
-/

namespace StateDatabase

open Programs GenericIndex

/-! ## Shapes under the programs of one index -/

section OneIndex

variable {T : IndexType} {index : GenericIndex T} {base : Int} {depth : Nat}

/-- Faults of `undo` end the process. -/
theorem undoRows_fault {head : UndoState T} {container : MultiIndex T}
    {fault : Fault} (failed : undoRows head container = .error fault) :
    fault.isException = false := by
  have eraseFault : ∀ (container : MultiIndex T) (id : T.Id) (fault : Fault),
      eraseNew container id = .error fault → fault.isException = false := by
    intro container id fault failed
    unfold eraseNew at failed
    split at failed
    · cases failed
      rfl
    · cases failed
  have oldFault : ∀ (container : MultiIndex T) (item : T.Id × T.Value)
      (fault : Fault), restoreOld container item = .error fault →
        fault.isException = false := by
    intro container item fault failed
    unfold restoreOld at failed
    split at failed
    · cases failed
      rfl
    · split at failed
      · cases failed
        rfl
      · cases failed
  have removedFault : ∀ (container : MultiIndex T) (item : T.Id × T.Value)
      (fault : Fault), restoreRemoved container item = .error fault →
        fault.isException = false := by
    intro container item fault failed
    unfold restoreRemoved at failed
    split at failed
    · cases failed
      rfl
    · cases failed
  unfold undoRows at failed
  cases first : head.newIds.toList.foldlM eraseNew container with
  | error fault' =>
      rw [first] at failed
      cases failed
      exact foldlM_error eraseFault first
  | ok withoutNew =>
      rw [first] at failed
      cases second : head.oldValues.toList.foldlM restoreOld withoutNew with
      | error fault' =>
          simp only [bind, Except.bind, second] at failed
          cases failed
          exact foldlM_error oldFault second
      | ok withOld =>
          simp only [bind, Except.bind, second] at failed
          exact foldlM_error removedFault failed

/-- Faults of `squash` end the process. -/
theorem mergeStates_fault {ndebug : Bool} {previous state : UndoState T}
    {fault : Fault} (failed : mergeStates ndebug previous state = .error fault) :
    fault.isException = false := by
  have assertFault : ∀ (condition : Bool) (message : String)
      (value : UndoState T) (fault : Fault),
      assertThat ndebug condition message value = .error fault →
        fault.isException = false := by
    intro condition message value fault failed
    unfold assertThat at failed
    split at failed
    · cases failed
    · cases failed
      rfl
  have oldFault : ∀ (previous : UndoState T) (item : T.Id × T.Value)
      (fault : Fault), squashOld ndebug previous item = .error fault →
        fault.isException = false := by
    intro previous item fault failed
    unfold squashOld at failed
    split at failed
    · cases failed
    · split at failed
      · cases failed
      · exact assertFault _ _ _ _ failed
  have removedFault : ∀ (previous : UndoState T) (item : T.Id × T.Value)
      (fault : Fault), squashRemoved ndebug previous item = .error fault →
        fault.isException = false := by
    intro previous item fault failed
    unfold squashRemoved at failed
    split at failed
    · cases failed
    · split at failed
      · cases failed
      · exact assertFault _ _ _ _ failed
  unfold mergeStates at failed
  cases first : state.oldValues.toList.foldlM (squashOld ndebug) previous with
  | error fault' =>
      rw [first] at failed
      cases failed
      exact foldlM_error oldFault first
  | ok withOld =>
      rw [first] at failed
      exact foldlM_error removedFault failed

/-- The revisions of the older undo states. -/
theorem Shape.older {head : UndoState T} {older : List (UndoState T)}
    (shape : Shape index base depth) (top : index.stack = head :: older) :
    ∃ rest, depth = rest + 1 ∧
      older.map UndoState.revision = descending base rest := by
  have stack := shape.stack
  rw [top, List.map_cons] at stack
  cases depth with
  | zero => cases stack
  | succ rest =>
      rw [descending] at stack
      exact ⟨rest, rfl, (List.cons.inj stack).2⟩

theorem Shape.ends_undo (shape : Shape index base depth) :
    Ends GenericIndex.undo index
      (fun _ final => Shape final base (depth - 1))
      (fun fault _ => fault.isException = false) := by
  cases top : index.stack with
  | nil =>
      have flat : depth = 0 := shape.stack_eq_nil_iff.mp top
      subst flat
      exact ends_of_ok (undo_apply_nil top) shape
  | cons head older =>
      obtain ⟨rest, isSucc, popped⟩ := shape.older top
      subst isSucc
      cases restored : undoRows head index.indices with
      | ok rows =>
          exact ends_of_ok (undo_apply_cons top restored) (shape.pop popped)
      | error fault =>
          have failed : GenericIndex.undo index = .error fault index := by
            unfold GenericIndex.undo
            rw [bind_apply_of_ok _ (get_apply index)]
            simp only [top, restored]
            rfl
          exact ends_of_error failed (undoRows_fault restored)

theorem mergeStates_revision {ndebug : Bool}
    {previous state merged : UndoState T}
    (success : mergeStates ndebug previous state = .ok merged) :
    merged.revision = previous.revision := by
  unfold mergeStates at success
  cases first : state.oldValues.toList.foldlM (squashOld ndebug) previous with
  | error fault =>
      rw [first] at success
      cases success
  | ok withOld =>
      rw [first] at success
      have removedKeeps : merged.revision =
          (state.newIds.toList.foldl squashNew withOld).revision := by
        refine foldlM_preserves
          (fun reached => reached.revision =
            (state.newIds.toList.foldl squashNew withOld).revision)
          ?_ rfl success
        intro item _ reached next same stepped
        rw [← same]
        unfold squashRemoved at stepped
        split at stepped
        · cases stepped
          rfl
        · split at stepped
          · cases stepped
            rfl
          · rw [assertThat_ok stepped]
      have oldKeeps : withOld.revision = previous.revision := by
        refine foldlM_preserves
          (fun reached => reached.revision = previous.revision)
          ?_ rfl first
        intro item _ reached next same stepped
        rw [← same]
        unfold squashOld at stepped
        split at stepped
        · cases stepped
          rfl
        · split at stepped
          · cases stepped
            rfl
          · rw [assertThat_ok stepped]
      rw [removedKeeps, (foldl_squashNew _ _).1, oldKeeps]

theorem Shape.ends_squash (ndebug : Bool) (shape : Shape index base depth) :
    Ends (GenericIndex.squash ndebug) index
      (fun _ final => Shape final base (depth - 1))
      (fun fault _ => fault.isException = false) := by
  match top : index.stack with
  | [] =>
      have flat : depth = 0 := shape.stack_eq_nil_iff.mp top
      subst flat
      exact ends_of_ok (squash_apply_nil top) shape
  | [head] =>
      obtain ⟨rest, isSucc, popped⟩ := shape.older top
      subst isSucc
      exact ends_of_ok (squash_apply_single top) (shape.pop popped)
  | state :: previous :: older =>
      obtain ⟨rest, isSucc, popped⟩ := shape.older top
      subst isSucc
      cases merge : mergeStates ndebug previous state with
      | ok merged =>
          refine ends_of_ok (squash_apply_cons top merge) (shape.pop ?_)
          rw [← popped, List.map_cons, List.map_cons,
            mergeStates_revision merge]
      | error fault =>
          have failed :
              GenericIndex.squash ndebug index = .error fault index := by
            unfold GenericIndex.squash
            rw [bind_apply_of_ok _ (get_apply index)]
            simp only [top, merge]
            rfl
          exact ends_of_error failed (mergeStates_fault merge)

theorem Shape.ends_start (shape : Shape index base depth) :
    Ends GenericIndex.startUndoSession index
      (fun _ final => Shape final base (depth + 1))
      (fun fault _ => fault.isException = false) := by
  by_cases bounded : index.revision < int64Max
  · exact ends_of_ok (startUndoSession_apply bounded) (shape.start bounded)
  · have failed :
        GenericIndex.startUndoSession index = .error .undefined index := by
      unfold GenericIndex.startUndoSession
      rw [bind_apply_of_ok _ (get_apply index), if_neg bounded]
      rfl
    exact ends_of_error failed rfl

theorem Shape.ends_commit (revision : Int) (shape : Shape index base depth) :
    Ends (GenericIndex.commit revision) index
      (fun _ final => Shape final
        (base + committedDepth base depth revision)
        (depth - committedDepth base depth revision))
      (fun fault _ => fault.isException = false) :=
  ends_of_ok (commit_apply revision index) (shape.commit revision)

theorem Shape.ends_undoTimes :
    ∀ (rounds : Nat) {index : GenericIndex T} {depth : Nat},
      Shape index base depth →
        Ends (GenericIndex.undoTimes rounds) index
          (fun _ final => Shape final base (depth - rounds))
          (fun fault _ => fault.isException = false)
  | 0, _, _, shape => ends_pure shape
  | rounds + 1, _, depth, shape => by
      refine ends_bind (shape.ends_undo.imp ?_ fun _ _ fault => fault)
      intro _ middle popped
      refine (Shape.ends_undoTimes rounds popped).imp ?_ fun _ _ fault => fault
      intro _ final finished
      rwa [Nat.sub_sub, Nat.add_comm 1 rounds] at finished

theorem Shape.ends_undoAll (shape : Shape index base depth) :
    Ends GenericIndex.undoAll index
      (fun _ final => Shape final base 0)
      (fun fault _ => fault.isException = false) := by
  have ends := Shape.ends_undoTimes index.stack.length shape
  rw [shape.length, Nat.sub_self] at ends
  unfold Ends
  rw [undoAll_apply, shape.length]
  exact ends

/-- `set_revision` throws and changes nothing, or sets the base. -/
theorem Shape.ends_setRevision (revision : UInt64)
    (shape : Shape index base depth) :
    Ends (GenericIndex.setRevision revision) index
      (fun _ final => depth = 0 ∧ (revision.toNat : Int) ≤ int64Max ∧
        Shape final (revision.toNat : Int) 0)
      (fun _ final => final = index ∧
        ¬ (depth = 0 ∧ (revision.toNat : Int) ≤ int64Max)) := by
  by_cases accepted : depth = 0 ∧ (revision.toNat : Int) ≤ int64Max
  · obtain ⟨flat, bounded⟩ := accepted
    have empty : index.stack = [] := shape.stack_eq_nil_iff.mpr flat
    exact ends_of_ok (setRevision_apply_nil empty bounded)
      ⟨flat, bounded, Shape.setRevision empty bounded⟩
  · have refused :
        index.stack ≠ [] ∨ int64Max < (revision.toNat : Int) := by
      by_cases flat : depth = 0
      · exact Or.inr (not_le.mp fun bounded => accepted ⟨flat, bounded⟩)
      · exact Or.inl fun empty => flat (shape.stack_eq_nil_iff.mp empty)
    obtain ⟨message, failed⟩ := setRevision_apply_error refused
    exact ends_of_error failed ⟨rfl, accepted⟩

theorem Shape.ends_emplace (value : T.Value) (shape : Shape index base depth) :
    Ends (GenericIndex.emplace value) index
      (fun _ final => Shape final base depth)
      (fun _ final => Shape final base depth) := by
  cases attempt : index.indices.emplace value with
  | none => exact ends_of_error (emplace_apply_none attempt) shape
  | some inserted =>
      refine ends_of_ok (emplace_apply_some attempt) ?_
      rw [recordHead_rows]
      have keepsRevision : ∀ state : UndoState T,
          (onCreateHead value state).revision = state.revision := fun _ => rfl
      exact shape.recordHead keepsRevision inserted

theorem Shape.ends_modify (id : T.Id) (modifier : T.Value → T.Value)
    (shape : Shape index base depth) :
    Ends (GenericIndex.modify id modifier) index
      (fun _ final => Shape final base depth)
      (fun fault _ => fault.isException = false) := by
  cases found : index.indices.find id with
  | none =>
      have failed :
          GenericIndex.modify id modifier index = .error .undefined index := by
        unfold GenericIndex.modify
        rw [bind_apply_of_ok _ (get_apply index)]
        simp only [found]
        rfl
      exact ends_of_error failed rfl
  | some value =>
      cases attempt : index.indices.modify id (modifier value) with
      | some modified =>
          exact ends_of_ok (modify_apply_some found attempt)
            (shape.recordHead (onModifyHead_revision value) modified)
      | none =>
          have failed : GenericIndex.modify id modifier index =
              .error .abort (GenericIndex.recordHead (onModifyHead value) index) := by
            unfold GenericIndex.modify
            rw [bind_apply_of_ok _ (get_apply index)]
            simp only [found]
            have recorded : onModify value index =
                .ok ⟨⟩ (GenericIndex.recordHead (onModifyHead value) index) := rfl
            rw [bind_apply_of_ok _ recorded, bind_apply_of_ok _ (get_apply _)]
            simp only [recordHead_indices, attempt]
            rfl
          exact ends_of_error failed rfl

theorem Shape.ends_remove (id : T.Id) (shape : Shape index base depth) :
    Ends (GenericIndex.remove id) index
      (fun _ final => Shape final base depth)
      (fun fault _ => fault.isException = false) := by
  cases found : index.indices.find id with
  | none =>
      have failed :
          GenericIndex.remove id index = .error .undefined index := by
        unfold GenericIndex.remove
        rw [bind_apply_of_ok _ (get_apply index)]
        simp only [found]
        rfl
      exact ends_of_error failed rfl
  | some value =>
      exact ends_of_ok (remove_apply found)
        (shape.recordHead (onRemoveHead_revision value) _)

/-- Every call leaves some shape. -/
theorem shape_step {ndebug : Bool} {call : IndexCall T}
    {next : GenericIndex T} (shape : Shape index base depth)
    (stepped : call.step ndebug index = some next) :
    ∃ base depth, Shape next base depth := by
  have impossible : ∀ (fault : Fault) (left : GenericIndex T),
      fault.isException = false → fault.isException = true →
        ∃ base depth, Shape left base depth := by
    intro fault left isNone isSome
    rw [isNone] at isSome
    cases isSome
  refine survive_of_ends
    (fun left => ∃ base depth, Shape left base depth) ?_ stepped
  cases call with
  | emplace value =>
      exact (shape.ends_emplace value).imp (fun _ _ left => ⟨_, _, left⟩)
        fun _ _ left _ => ⟨_, _, left⟩
  | modify id modifier =>
      exact (shape.ends_modify id modifier).imp (fun _ _ left => ⟨_, _, left⟩)
        impossible
  | remove id =>
      exact (shape.ends_remove id).imp (fun _ _ left => ⟨_, _, left⟩) impossible
  | startUndoSession =>
      exact shape.ends_start.imp (fun _ _ left => ⟨_, _, left⟩) impossible
  | undo =>
      exact shape.ends_undo.imp (fun _ _ left => ⟨_, _, left⟩) impossible
  | squash =>
      exact (shape.ends_squash ndebug).imp (fun _ _ left => ⟨_, _, left⟩)
        impossible
  | commit revision =>
      exact (shape.ends_commit revision).imp (fun _ _ left => ⟨_, _, left⟩)
        impossible
  | undoAll =>
      exact shape.ends_undoAll.imp (fun _ _ left => ⟨_, _, left⟩) impossible
  | setRevision revision =>
      refine (shape.ends_setRevision revision).imp
        (fun _ _ left => ⟨_, _, left.2.2⟩) ?_
      intro _ left unchanged _
      exact unchanged.1 ▸ ⟨base, depth, shape⟩

/-- Every index that calls leave behind has some shape. -/
theorem shape_run {ndebug : Bool} {calls : List (IndexCall T)}
    {final : GenericIndex T}
    (reached : Runs.run (IndexCall.step ndebug) (GenericIndex.empty T) calls =
      some final) :
    ∃ base depth, Shape final base depth :=
  Runs.run_preserves
    (fun index => ∃ base depth, Shape index base depth)
    (fun _ _ _ holds _ stepped =>
      let ⟨_, _, shape⟩ := holds
      shape_step shape stepped)
    ⟨0, 0, Shape.empty T⟩
    (Runs.allowedFrom_of_forall (fun _ _ => trivial) calls _) reached

end OneIndex

/-! ## Shapes of all indices -/

section AllIndices

variable {τ : Type} [DecidableEq τ] {F : IndexFamily τ}
  {database : Database F} {base base' : Int} {depth depth' : Nat}

namespace Database

/-- The stored index of this type has the shape. -/
def HasShape (database : Database F) (t : τ) (base : Int) (depth : Nat) :
    Prop :=
  ∃ index, database.segment t = some index ∧ Shape index base depth

omit [DecidableEq τ] in
theorem HasShape.range {t : τ} (shape : database.HasShape t base depth) :
    database.revisionRange t = some (base, base + depth) := by
  obtain ⟨index, found, isShape⟩ := shape
  rw [revisionRange, found, Option.map_some, isShape.range]

@[simp]
theorem setIndex_segment_self (t : τ) (index : GenericIndex (F.indexType t)) :
    (database.setIndex t index).segment t = some index := by
  simp [setIndex]

theorem setIndex_segment_ne {t other : τ} (different : other ≠ t)
    (index : GenericIndex (F.indexType t)) :
    (database.setIndex t index).segment other = database.segment other := by
  simp [setIndex, different]

theorem setIndex_self {t : τ} {index : GenericIndex (F.indexType t)}
    (found : database.segment t = some index) :
    database.setIndex t index = database := by
  unfold setIndex
  rw [← found, Function.update_eq_self]

theorem ends_onIndex {α : Type} {t : τ}
    {program : IndexM (F.indexType t) α} {index : GenericIndex (F.indexType t)}
    {post : α → Database F → Prop} {fail : Fault → Database F → Prop}
    (found : database.segment t = some index)
    (ends : Ends program index
      (fun value final => post value (database.setIndex t final))
      (fun fault final => fail fault (database.setIndex t final))) :
    Ends (onIndex t program) database post fail := by
  cases ran : program index with
  | ok value final =>
      have returned : onIndex t program database =
          .ok value (database.setIndex t final) := by
        simp only [onIndex, found, ran]
      exact ends_of_ok returned (by simpa only [Ends, ran] using ends)
  | error fault final =>
      have failed : onIndex t program database =
          .error fault (database.setIndex t final) := by
        simp only [onIndex, found, ran]
      exact ends_of_error failed (by simpa only [Ends, ran] using ends)

/-- What a loop over some indices leaves behind. -/
structure Reshaped (targets : List τ) (base' : Int) (depth' : Nat)
    (before after : Database F) : Prop where
  indexList : after.indexList = before.indexList
  readOnly : after.readOnly = before.readOnly
  reached : ∀ t ∈ targets, after.HasShape t base' depth'
  others : ∀ t ∉ targets, after.segment t = before.segment t

theorem Reshaped.cons {t : τ} {rest : List τ} {middle final : Database F}
    {index : GenericIndex (F.indexType t)}
    (notInRest : t ∉ rest) (shape : Shape index base' depth')
    (isMiddle : middle = database.setIndex t index)
    (later : Reshaped rest base' depth' middle final) :
    Reshaped (t :: rest) base' depth' database final := by
  subst isMiddle
  refine ⟨later.indexList, later.readOnly, ?_, ?_⟩
  · intro tested member
    rcases List.mem_cons.mp member with isHead | inRest
    · subst isHead
      refine ⟨index, ?_, shape⟩
      rw [later.others tested notInRest, setIndex_segment_self]
    · exact later.reached tested inRest
  · intro tested notMember
    simp only [List.mem_cons, not_or] at notMember
    obtain ⟨notHead, notRest⟩ := notMember
    rw [later.others tested notRest, setIndex_segment_ne notHead]

/-- A program that takes one shape to another takes all indices there. -/
theorem ends_forIndices
    {program : (t : τ) → IndexM (F.indexType t) PUnit}
    (reshapes : ∀ (t : τ) (index : GenericIndex (F.indexType t)),
      Shape index base depth →
        Ends (program t) index
          (fun _ final => Shape final base' depth')
          (fun fault _ => fault.isException = false)) :
    ∀ (targets : List τ) (database : Database F), targets.Nodup →
      (∀ t ∈ targets, database.HasShape t base depth) →
        Ends (forIndices program targets) database
          (fun _ final => Reshaped targets base' depth' database final)
          (fun fault _ => fault.isException = false)
  | [], database, _, _ =>
      ends_pure ⟨rfl, rfl, by simp, fun _ _ => rfl⟩
  | t :: rest, database, nodup, shapes => by
      obtain ⟨notInRest, restNodup⟩ := List.nodup_cons.mp nodup
      obtain ⟨index, found, shape⟩ := shapes t List.mem_cons_self
      refine ends_bind (ends_onIndex found ?_)
      refine (reshapes t index shape).imp ?_ fun _ _ fault => fault
      intro _ final finalShape
      have restShapes : ∀ tested ∈ rest,
          (database.setIndex t final).HasShape tested base depth := by
        intro tested member
        obtain ⟨other, otherFound, otherShape⟩ :=
          shapes tested (List.mem_cons_of_mem t member)
        have different : tested ≠ t := fun equal => notInRest (equal ▸ member)
        exact ⟨other, by rw [setIndex_segment_ne different, otherFound],
          otherShape⟩
      refine (ends_forIndices reshapes rest _ restNodup restShapes).imp ?_
        fun _ _ fault => fault
      intro _ last later
      exact later.cons notInRest finalShape rfl

/-- When every index throws at once, the first one does and nothing has
changed. -/
theorem ends_forIndices_refused
    {program : (t : τ) → IndexM (F.indexType t) PUnit}
    (refuses : ∀ (t : τ) (index : GenericIndex (F.indexType t)),
      Shape index base depth →
        Ends (program t) index (fun _ _ => False)
          (fun _ final => final = index))
    (targets : List τ)
    (shapes : ∀ t ∈ targets, database.HasShape t base depth) :
    Ends (forIndices program targets) database
      (fun _ final => final = database) (fun _ final => final = database) := by
  cases targets with
  | nil => exact ends_pure rfl
  | cons t rest =>
      obtain ⟨index, found, shape⟩ := shapes t List.mem_cons_self
      refine ends_bind (ends_onIndex found ?_)
      refine (refuses t index shape).imp (fun _ _ => False.elim) ?_
      intro _ final unchanged
      subst unchanged
      exact setIndex_self found

/-- With every sub-session armed, ending a session is a loop over its
indices. -/
theorem forSubSessions_eq
    {program : (t : τ) → IndexM (F.indexType t) PUnit} :
    ∀ {sessions : List (SubSession τ)},
      (∀ session ∈ sessions, session.apply = true) →
        forSubSessions program sessions =
          forIndices program (sessions.map SubSession.index)
  | [], _ => rfl
  | session :: rest, armed => by
      have restArmed : ∀ other ∈ rest, other.apply = true := fun other member =>
        armed other (List.mem_cons_of_mem session member)
      rw [forSubSessions, armed session List.mem_cons_self, if_pos rfl,
        forSubSessions_eq restArmed, List.map_cons, forIndices]

/-- A loop whose every step leaves its index as it is. -/
theorem forIndices_unchanged
    {program : (t : τ) → IndexM (F.indexType t) PUnit} :
    ∀ {targets : List τ},
      (∀ t ∈ targets, ∃ index, database.segment t = some index ∧
        program t index = .ok ⟨⟩ index) →
        forIndices program targets database = .ok ⟨⟩ database
  | [], _ => rfl
  | t :: rest, unchanged => by
      obtain ⟨index, found, same⟩ := unchanged t List.mem_cons_self
      have first : onIndex t (program t) database = .ok ⟨⟩ database := by
        simp only [onIndex, found, same, setIndex_self found]
      rw [forIndices, bind_apply_of_ok _ first]
      exact forIndices_unchanged fun other member =>
        unchanged other (List.mem_cons_of_mem t member)

end Database

end AllIndices

end StateDatabase
