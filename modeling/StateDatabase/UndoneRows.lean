import Mathlib
import StateDatabase.EosDbSteps

/-!
# Rows after an undo

`undo` erases the rows that the session created and writes old values over the
rows that the session changed.  A row that the session did not create is still
there.  The other calls on sessions change no row.
-/

namespace StateDatabase

open Programs GenericIndex

/-! ## Rows that an undo keeps -/

section OneIndex

variable {T : IndexType} (property : T.Value → Prop) {id : T.Id}

/-- A row with the property has this id. -/
def HasRow (id : T.Id) (container : MultiIndex T) : Prop :=
  ∃ row, container.rows[id]? = some row ∧ property row

variable {property} {container next : MultiIndex T}

theorem hasRow_eraseNew {other : T.Id} (hasRow : HasRow property id container)
    (different : other ≠ id)
    (erased : eraseNew container other = .ok next) :
    HasRow property id next := by
  unfold eraseNew at erased
  split at erased
  · cases erased
  · cases erased
    obtain ⟨row, found, holds⟩ := hasRow
    exact ⟨row, by rw [MultiIndex.erase_row, if_neg different, found], holds⟩

theorem hasRow_restoreOld {item : T.Id × T.Value}
    (hasRow : HasRow property id container)
    (oldHolds : T.id item.2 = id → property item.2)
    (restores : restoreOld container item = .ok next) :
    HasRow property id next := by
  unfold restoreOld at restores
  split at restores
  · cases restores
  · split at restores
    · cases restores
    · rename_i restored success
      cases restores
      obtain ⟨row, found, holds⟩ := hasRow
      have entries := (MultiIndex.emplace_some success).2
      by_cases same : T.id item.2 = id
      · exact ⟨item.2, by rw [entries, if_pos same], oldHolds same⟩
      · refine ⟨row, ?_, holds⟩
        rw [entries, if_neg same, MultiIndex.erase_row, if_neg same, found]

theorem hasRow_restoreRemoved {item : T.Id × T.Value}
    (hasRow : HasRow property id container)
    (restores : restoreRemoved container item = .ok next) :
    HasRow property id next := by
  unfold restoreRemoved at restores
  split at restores
  · cases restores
  · rename_i restored success
    cases restores
    obtain ⟨row, found, holds⟩ := hasRow
    obtain ⟨absent, entries⟩ := MultiIndex.emplace_some success
    have different : T.id item.2 ≠ id := by
      intro same
      rw [same, found] at absent
      cases absent
    exact ⟨row, by rw [entries, if_neg different, found], holds⟩

/-- A row that the session did not create is still there after an undo, as it
was or with an old value. -/
theorem hasRow_undoRows {head : UndoState T}
    (hasRow : HasRow property id container) (notNew : id ∉ head.newIds)
    (oldHolds : ∀ item ∈ head.oldValues.toList, T.id item.2 = id →
      property item.2)
    (undone : undoRows head container = .ok next) :
    HasRow property id next := by
  unfold undoRows at undone
  cases first : head.newIds.toList.foldlM eraseNew container with
  | error fault =>
      rw [first] at undone
      cases undone
  | ok withoutNew =>
      have afterNew : HasRow property id withoutNew := by
        apply foldlM_preserves (HasRow property id) _ hasRow first
        intro other member middle erased kept step
        apply hasRow_eraseNew kept _ step
        intro same
        exact notNew (same ▸ Std.ExtTreeSet.mem_toList.mp member)
      rw [first] at undone
      cases second : head.oldValues.toList.foldlM restoreOld withoutNew with
      | error fault =>
          simp only [bind, Except.bind, second] at undone
          cases undone
      | ok withOld =>
          have afterOld : HasRow property id withOld := by
            apply foldlM_preserves (HasRow property id) _ afterNew second
            intro item member middle restored kept step
            exact hasRow_restoreOld kept (oldHolds item member) step
          simp only [bind, Except.bind, second] at undone
          apply foldlM_preserves (HasRow property id) _ afterOld undone
          intro item _ middle restored kept step
          exact hasRow_restoreRemoved kept step

variable (index : GenericIndex T)

/-- The rows after the newest undo state was undone, if there is one. -/
def UndoneRows (rows : MultiIndex T) : Prop :=
  match index.stack.head? with
  | none => rows = index.indices
  | some head => undoRows head index.indices = .ok rows

theorem ends_undo_rows :
    Ends GenericIndex.undo index
      (fun _ final => UndoneRows index final.indices)
      (fun fault _ => fault.isException = false) := by
  simp only [UndoneRows]
  apply ends_bind
  apply ends_of_ok (get_apply index)
  cases top : index.stack with
  | nil => exact ends_pure rfl
  | cons head older =>
      simp only [List.head?_cons]
      split
      · rename_i fault failed
        exact ends_of_error rfl (undoRows_fault failed)
      · rename_i restored success
        exact ends_of_ok rfl success

theorem ends_squash_rows (ndebug : Bool) :
    Ends (GenericIndex.squash ndebug) index
      (fun _ final => final.indices = index.indices)
      (fun fault _ => fault.isException = false) := by
  apply ends_bind
  apply ends_of_ok (get_apply index)
  cases index.stack with
  | nil => exact ends_pure rfl
  | cons state below =>
      cases below with
      | nil => exact ends_of_ok rfl rfl
      | cons previous older =>
          simp only
          split
          · rename_i fault failed
            exact ends_of_error rfl (mergeStates_fault failed)
          · exact ends_of_ok rfl rfl

theorem ends_startUndoSession_rows :
    Ends GenericIndex.startUndoSession index
      (fun _ final => final.indices = index.indices)
      (fun fault _ => fault.isException = false) := by
  apply ends_bind
  apply ends_of_ok (get_apply index)
  split
  · exact ends_of_ok rfl rfl
  · exact ends_of_error rfl rfl

end OneIndex

/-! ## Calls on all indices -/

namespace Database

variable {τ : Type} [DecidableEq τ] {F : IndexFamily τ} {database : Database F}
  {t : τ}

/-- The same indices with the same rows. -/
structure SameRows (before after : Database F) : Prop where
  ready : after.Ready
  indexList : after.indexList = before.indexList
  rows : after.rows = before.rows

omit [DecidableEq τ] in
theorem SameRows.trans {middle after : Database F}
    (first : SameRows database middle) (second : SameRows middle after) :
    SameRows database after where
  ready := second.ready
  indexList := second.indexList.trans first.indexList
  rows := second.rows.trans first.rows

/-- The program changes no row, unless it ends the process. -/
def LeavesRows {α : Type} (program : DatabaseM F α) : Prop :=
  ∀ database : Database F, database.Ready →
    Ends program database (fun _ final => SameRows database final)
      (fun fault _ => fault.isException = false)

omit [DecidableEq τ] in
theorem leavesRows_pure {α : Type} (value : α) :
    LeavesRows (pure value : DatabaseM F α) :=
  fun _ ready => ends_pure ⟨ready, rfl, rfl⟩

omit [DecidableEq τ] in
theorem LeavesRows.bind {α β : Type} {program : DatabaseM F α}
    {continuation : α → DatabaseM F β} (first : LeavesRows program)
    (rest : ∀ value, LeavesRows (continuation value)) :
    LeavesRows (program >>= continuation) := by
  intro database ready
  apply ends_bind
  apply (first database ready).imp
  · intro value middle same
    apply (rest value middle same.ready).imp
    · exact fun _ _ later => same.trans later
    · exact fun _ _ endsProcess => endsProcess
  · exact fun _ _ endsProcess => endsProcess

theorem leavesRows_onIndex {α : Type} {program : IndexM (F.indexType t) α}
    (leaves : ∀ index, Ends program index
      (fun _ final => final.indices = index.indices)
      (fun fault _ => fault.isException = false)) :
    LeavesRows (onIndex t program) := by
  intro database ready
  apply ends_onIndex (ready.segment_eq t)
  apply (leaves (database.index t)).imp
  · intro _ final same
    refine ⟨ready.setIndex final, rfl, ?_⟩
    rw [rows_setIndex, same]
    exact Function.update_eq_self t _
  · exact fun _ _ endsProcess => endsProcess

theorem leavesRows_forIndices
    {program : (t : τ) → IndexM (F.indexType t) PUnit}
    (each : ∀ t, LeavesRows (onIndex t (program t))) :
    ∀ targets : List τ, LeavesRows (forIndices program targets)
  | [] => leavesRows_pure PUnit.unit
  | t :: rest => (each t).bind fun _ => leavesRows_forIndices each rest

theorem leavesRows_forAll
    {program : (t : τ) → IndexM (F.indexType t) PUnit}
    (each : ∀ t, LeavesRows (onIndex t (program t))) :
    LeavesRows (do forIndices program (← get).indexList) := by
  intro database ready
  apply ends_bind
  exact ends_of_ok (get_apply database)
    (leavesRows_forIndices each database.indexList database ready)

theorem leavesRows_squash (ndebug : Bool) :
    LeavesRows (squash ndebug : DatabaseM F PUnit) := by
  apply leavesRows_forAll
  intro t
  apply leavesRows_onIndex
  exact fun index => ends_squash_rows index ndebug

theorem leavesRows_commit (revision : Int) :
    LeavesRows (commit revision : DatabaseM F PUnit) := by
  apply leavesRows_forAll
  intro t
  apply leavesRows_onIndex
  intro index
  exact ends_of_ok rfl rfl

theorem leavesRows_startSubSessions : ∀ targets : List τ,
    LeavesRows (startSubSessions targets : DatabaseM F _)
  | [] => leavesRows_pure []
  | t :: rest => by
      have starts : LeavesRows (startSubSession t : DatabaseM F _) := by
        apply LeavesRows.bind
        · apply leavesRows_onIndex
          exact ends_startUndoSession_rows
        · intro _
          apply LeavesRows.bind
          · apply leavesRows_onIndex
            intro index
            exact ends_of_ok rfl rfl
          · exact fun _ => leavesRows_pure _
      exact starts.bind fun _ =>
        (leavesRows_startSubSessions rest).bind fun _ => leavesRows_pure _

theorem leavesRows_startUndoSession :
    LeavesRows (startUndoSession : DatabaseM F (DatabaseSession τ)) := by
  intro database ready
  apply ends_bind
  apply ends_of_ok (get_apply database)
  exact (leavesRows_startSubSessions database.indexList).bind
    (fun _ => leavesRows_pure _) database ready

/-- A loop over different indices does to each what the program does to one. -/
theorem ends_forIndices_each
    (program : (t : τ) → IndexM (F.indexType t) PUnit)
    {post : (t : τ) → GenericIndex (F.indexType t) →
      GenericIndex (F.indexType t) → Prop}
    (each : ∀ t index, Ends (program t) index
      (fun _ final => post t index final)
      (fun fault _ => fault.isException = false)) :
    ∀ (targets : List τ) (database : Database F), database.Ready →
      targets.Nodup →
        Ends (forIndices program targets) database
          (fun _ final => final.Ready ∧
            final.indexList = database.indexList ∧
            (∀ t ∈ targets, post t (database.index t) (final.index t)) ∧
            ∀ t ∉ targets, final.index t = database.index t)
          (fun fault _ => fault.isException = false)
  | [], database, ready, _ =>
      ends_pure ⟨ready, rfl, by simp, fun _ _ => rfl⟩
  | t :: rest, database, ready, nodup => by
      obtain ⟨notInRest, restNodup⟩ := List.nodup_cons.mp nodup
      apply ends_bind
      apply ends_onIndex (ready.segment_eq t)
      apply (each t (database.index t)).imp
      · intro _ changed holds
        have later := ends_forIndices_each program each rest
          (database.setIndex t changed) (ready.setIndex changed) restNodup
        apply later.imp
        · rintro _ final ⟨finalReady, sameList, reached, others⟩
          refine ⟨finalReady, sameList, ?_, ?_⟩
          · intro tested member
            rcases List.mem_cons.mp member with isFirst | inRest
            · subst isFirst
              rw [others tested notInRest, index_setIndex_self]
              exact holds
            · have different : tested ≠ t := fun same =>
                notInRest (same ▸ inRest)
              have atRest := reached tested inRest
              rw [index_setIndex_ne different] at atRest
              exact atRest
          · intro tested notMember
            rw [List.mem_cons, not_or] at notMember
            rw [others tested notMember.2, index_setIndex_ne notMember.1]
        · exact fun _ _ endsProcess => endsProcess
      · exact fun _ _ endsProcess => endsProcess

/-- `undo` restores the rows of every index that has an undo state. -/
theorem Ready.ends_undo (ready : database.Ready)
    (nodup : database.indexList.Nodup) :
    Ends undo database
      (fun _ final => final.Ready ∧ final.indexList = database.indexList ∧
        ∀ t, UndoneRows (database.index t) (final.rows t))
      (fun fault _ => fault.isException = false) := by
  apply ends_bind
  apply ends_of_ok (get_apply database)
  have loop := ends_forIndices_each (F := F)
    (fun _ => GenericIndex.undo)
    (fun _ index => ends_undo_rows index) database.indexList database ready
    nodup
  apply loop.imp
  · rintro _ final ⟨finalReady, sameList, reached, _⟩
    exact ⟨finalReady, sameList, fun t => reached t (ready.registered t)⟩
  · exact fun _ _ endsProcess => endsProcess

end Database

end StateDatabase
