import Mathlib
import StateDatabase.ReachableDatabases

/-!
# Indices that are not registered

A call of the database works on registered indices only, and a session on those
that were registered when it was started.  So the index of a type that is not
registered lies in the segment as it is, whatever a client calls, until the
client adds the type.
-/

namespace StateDatabase

open Programs GenericIndex

variable {τ : Type} [DecidableEq τ] {F : IndexFamily τ}

namespace Database

/-- Types stay registered, and those of `absent` that are not registered stay
so, with what the segment has of them. -/
structure LeavesAlone (absent : τ → Prop) (before after : Database F) :
    Prop where
  grows : before.indexList ⊆ after.indexList
  unregistered : ∀ t, absent t → t ∉ before.indexList → t ∉ after.indexList
  untouched : ∀ t, absent t → t ∉ before.indexList →
    after.segment t = before.segment t

variable {absent : τ → Prop} {database final : Database F} {t : τ}

instance : IsPreorder (Database F) (LeavesAlone absent) where
  refl := fun _ => ⟨List.Subset.refl _, fun _ _ kept => kept, fun _ _ _ => rfl⟩
  trans := by
    intro before middle after first second
    refine ⟨List.Subset.trans first.grows second.grows, ?_, ?_⟩
    · intro t isAbsent notBefore
      exact second.unregistered t isAbsent
        (first.unregistered t isAbsent notBefore)
    · intro t isAbsent notBefore
      exact (second.untouched t isAbsent
        (first.unregistered t isAbsent notBefore)).trans
        (first.untouched t isAbsent notBefore)

/-- Another index of the segment has changed. -/
theorem leavesAlone_setIndex (index : GenericIndex (F.indexType t))
    (elsewhere : absent t → t ∈ database.indexList) :
    LeavesAlone absent database (database.setIndex t index) where
  grows := List.Subset.refl _
  unregistered := fun _ _ notBefore => notBefore
  untouched := by
    intro other isAbsent notBefore
    apply setIndex_segment_ne
    rintro rfl
    exact notBefore (elsewhere isAbsent)

theorem ends_onIndex_alone {α : Type} {program : IndexM (F.indexType t) α}
    (elsewhere : absent t → t ∈ database.indexList) :
    Ends (onIndex t program) database
      (fun _ final => LeavesAlone absent database final)
      (fun _ final => LeavesAlone absent database final) := by
  cases found : database.segment t with
  | none =>
      have failed : onIndex t program database =
          .error .undefined database := by
        rw [onIndex, found]
      exact ends_of_error failed (Std.Refl.refl database)
  | some index =>
      apply ends_onIndex found
      cases ran : program index with
      | ok value final =>
          exact ends_of_ok ran (leavesAlone_setIndex final elsewhere)
      | error fault final =>
          exact ends_of_error ran (leavesAlone_setIndex final elsewhere)

theorem moves_onIndex {α : Type} {program : IndexM (F.indexType t) α}
    (present : ¬ absent t) :
    Moves (LeavesAlone absent) (onIndex t program) :=
  fun _ => ends_onIndex_alone fun isAbsent => absurd isAbsent present

theorem moves_onRegistered {α : Type} (program : IndexM (F.indexType t) α) :
    Moves (LeavesAlone absent) (onRegistered t program) := by
  intro database
  apply ends_bind
  apply ends_of_ok (get_apply database)
  split
  · rename_i isRegistered
    exact ends_onIndex_alone fun _ => isRegistered
  · exact ends_of_error (throw_apply _ _) (Std.Refl.refl database)

/-- A loop over indices that are registered. -/
theorem ends_forIndices_alone
    {program : (t : τ) → IndexM (F.indexType t) PUnit} {targets : List τ} :
    ∀ {database : Database F}, targets ⊆ database.indexList →
      Ends (forIndices program targets) database
        (fun _ final => LeavesAlone absent database final)
        (fun _ final => LeavesAlone absent database final) := by
  induction targets with
  | nil => exact fun _ => ends_pure (Std.Refl.refl _)
  | cons t rest inductionHypothesis =>
      intro database registered
      rw [List.cons_subset] at registered
      apply ends_bind
      apply (ends_onIndex_alone fun _ => registered.1).imp
      · intro _ middle first
        apply (inductionHypothesis
          (List.Subset.trans registered.2 first.grows)).imp
        · exact fun _ _ later => IsTrans.trans _ _ _ first later
        · exact fun _ _ later => IsTrans.trans _ _ _ first later
      · exact fun _ _ first => first

theorem moves_forAll (program : (t : τ) → IndexM (F.indexType t) PUnit) :
    Moves (LeavesAlone absent)
      (do forIndices program (← get).indexList : DatabaseM F PUnit) := by
  intro database
  apply ends_bind
  apply ends_of_ok (get_apply database)
  exact ends_forIndices_alone (List.Subset.refl _)

/-- A session whose indices are registered. -/
theorem moves_forSubSessions
    (program : (t : τ) → IndexM (F.indexType t) PUnit) :
    ∀ {sessions : List (SubSession τ)},
      (∀ session ∈ sessions, ¬ absent session.index) →
        Moves (LeavesAlone absent) (forSubSessions program sessions)
  | [], _ => moves_pure _
  | session :: rest, present => by
      have later := moves_forSubSessions program fun other member =>
        present other (List.mem_cons_of_mem session member)
      cases applies : session.apply with
      | true =>
          simp only [forSubSessions, applies, if_true]
          exact (moves_onIndex (present session List.mem_cons_self)).bind
            fun _ => later
      | false =>
          simp only [forSubSessions, applies, Bool.false_eq_true, if_false]
          exact later

theorem ends_startSubSession_alone (registered : t ∈ database.indexList) :
    Ends (startSubSession t) database
      (fun session final => session.index = t ∧
        LeavesAlone absent database final)
      (fun _ final => LeavesAlone absent database final) := by
  have onStored : ∀ {α : Type} {program : IndexM (F.indexType t) α}
      {middle : Database F}, LeavesAlone absent database middle →
        Ends (onIndex t program) middle
          (fun _ final => LeavesAlone absent database final)
          (fun _ final => LeavesAlone absent database final) := by
    intro α program middle first
    apply (ends_onIndex_alone fun _ => first.grows registered).imp
    · exact fun _ _ later => IsTrans.trans _ _ _ first later
    · exact fun _ _ later => IsTrans.trans _ _ _ first later
  apply ends_bind
  apply (onStored (Std.Refl.refl database)).imp
  · intro _ middle first
    apply ends_bind
    apply (onStored first).imp
    · exact fun _ _ later => ends_pure ⟨rfl, later⟩
    · exact fun _ _ later => later
  · exact fun _ _ first => first

/-- The sub-sessions are those of these indices. -/
theorem ends_startSubSessions_alone {targets : List τ} :
    ∀ {database : Database F}, targets ⊆ database.indexList →
      Ends (startSubSessions targets) database
        (fun sessions final => (∀ session ∈ sessions, session.index ∈ targets) ∧
          LeavesAlone absent database final)
        (fun _ final => LeavesAlone absent database final) := by
  induction targets with
  | nil => exact fun _ => ends_pure ⟨nofun, Std.Refl.refl _⟩
  | cons t rest inductionHypothesis =>
      intro database registered
      rw [List.cons_subset] at registered
      apply ends_bind
      apply (ends_startSubSession_alone registered.1).imp
      · rintro session middle ⟨isIndex, first⟩
        apply ends_bind
        apply (inductionHypothesis
          (List.Subset.trans registered.2 first.grows)).imp
        · rintro sessions final ⟨areIndices, later⟩
          refine ends_pure ⟨?_, IsTrans.trans _ _ _ first later⟩
          intro other member
          rcases List.mem_cons.mp member with rfl | isLater
          · rw [isIndex]
            exact List.mem_cons_self
          · exact List.mem_cons_of_mem t (areIndices other isLater)
        · exact fun _ _ later => IsTrans.trans _ _ _ first later
      · exact fun _ _ first => first

theorem moves_addIndex (present : ¬ absent t) :
    Moves (LeavesAlone absent) (addIndex t : DatabaseM F PUnit) := by
  have registers : Moves (LeavesAlone absent) (register t : DatabaseM F PUnit) :=
    fun database => ends_of_ok (register_apply t database)
      { grows := List.subset_append_left _ _
        unregistered := by
          intro other isAbsent notBefore member
          rcases List.mem_append.mp member with isBefore | isNew
          · exact notBefore isBefore
          · rw [List.mem_singleton.mp isNew] at isAbsent
            exact present isAbsent
        untouched := fun _ _ _ => rfl }
  have constructs : Moves (LeavesAlone absent)
      (findOrConstruct t : DatabaseM F Bool) := by
    intro database
    apply ends_bind
    apply ends_of_ok (get_apply database)
    split
    · exact ends_pure (Std.Refl.refl database)
    · split
      · exact ends_of_error (throw_apply _ _) (Std.Refl.refl database)
      · apply ends_bind
        apply ends_of_ok (set_apply _ _)
        exact ends_pure (leavesAlone_setIndex _
          fun isAbsent => absurd isAbsent present)
  have reconciles : ∀ front firstTimeAdding, Moves (LeavesAlone absent)
      (reconcile t front firstTimeAdding : DatabaseM F PUnit) := by
    intro front firstTimeAdding
    apply moves_get.bind
    intro database
    split
    · rename_i expected added _ _
      have adopts : Moves (LeavesAlone absent)
          (onIndex t (adoptRange expected) : DatabaseM F PUnit) :=
        moves_onIndex present
      have writes : ∀ fault, Moves (LeavesAlone absent)
          (if database.readOnly then
            (throw fault >>= fun _ : PUnit => onIndex t (adoptRange expected))
          else onIndex t (adoptRange expected) : DatabaseM F PUnit) := by
        intro fault
        split
        · exact (moves_throw fault).bind fun _ => adopts
        · exact adopts
      split
      · dsimp only
        split
        · exact (moves_throw _).bind fun _ => writes _
        · exact writes _
      · exact moves_pure _
    · exact moves_throw _
  intro database
  by_cases isRegistered : t ∈ database.indexList
  · apply ends_bind
    apply ends_of_ok (get_apply database)
    rw [if_pos isRegistered]
    exact ends_of_error (throw_apply _ _) (Std.Refl.refl database)
  · unfold Ends
    rw [addIndex_unregistered isRegistered rfl]
    refine (constructs.bind fun firstTimeAdding => ?_) database
    split
    · exact registers
    · exact (reconciles _ _).bind fun _ => registers

end Database

/-! ## Clients -/

namespace Client

open Database

variable {absent : τ → Prop} {client next : Client F}

/-- The sessions know registered indices only, and the types of `absent` are not
registered. -/
structure Apart (absent : τ → Prop) (client : Client F) : Prop where
  sessions : ∀ session ∈ client.sessions,
    ∀ subSession ∈ session.subSessions,
      subSession.index ∈ client.database.indexList
  unregistered : ∀ t, absent t → t ∉ client.database.indexList

omit [DecidableEq τ] in
/-- The database moves on, and no session gets another index. -/
theorem Apart.of_leavesAlone (apart : Apart absent client)
    (alone : LeavesAlone absent client.database next.database)
    (fewer : ∀ session ∈ next.sessions, session ∈ client.sessions ∨
      session.subSessions = []) : Apart absent next where
  sessions := by
    intro session member subSession isSub
    rcases fewer session member with isOld | noSubs
    · exact alone.grows (apart.sessions session isOld subSession isSub)
    · rw [noSubs] at isSub
      cases isSub
  unregistered := fun t isAbsent =>
    alone.unregistered t isAbsent (apart.unregistered t isAbsent)

/-- The program leaves such a client and the indices of `absent`. -/
def LeavesApart (absent : τ → Prop) (program : ClientM F PUnit)
    (client : Client F) : Prop :=
  Ends program client
    (fun _ final => Apart absent final ∧
      LeavesAlone absent client.database final.database)
    (fun _ final => Apart absent final ∧
      LeavesAlone absent client.database final.database)

omit [DecidableEq τ] in
theorem leavesApart_onDatabase {program : DatabaseM F PUnit}
    (apart : Apart absent client)
    (moves : Moves (LeavesAlone absent) program) :
    LeavesApart absent (onDatabase program) client := by
  apply ends_zoom
  apply (moves client.database).imp
  · exact fun _ _ alone =>
      ⟨apart.of_leavesAlone alone fun _ member => Or.inl member, alone⟩
  · exact fun _ _ alone =>
      ⟨apart.of_leavesAlone alone fun _ member => Or.inl member, alone⟩

omit [DecidableEq τ] in
theorem leavesApart_onSession {position : Nat}
    {program : DatabaseSession τ → DatabaseM F PUnit}
    (apart : Apart absent client)
    (moves : ∀ session ∈ client.sessions,
      Moves (LeavesAlone absent) (program session)) :
    LeavesApart absent (onSession position program) client := by
  apply ends_bind
  apply ends_of_ok (get_apply client)
  split
  · exact ends_of_error (throw_apply _ _) ⟨apart, Std.Refl.refl _⟩
  · rename_i session isAt
    apply ends_bind
    apply ends_zoom
    apply (moves session (List.mem_of_getElem? isAt) client.database).imp
    · intro _ database alone
      apply ends_bind
      apply ends_of_ok (get_apply _)
      apply ends_of_ok (set_apply _ _)
      refine ⟨apart.of_leavesAlone alone ?_, alone⟩
      intro other member
      rcases List.mem_or_eq_of_mem_set member with isOld | rfl
      · exact Or.inl isOld
      · exact Or.inr rfl
    · exact fun _ _ alone =>
        ⟨apart.of_leavesAlone alone fun _ member => Or.inl member, alone⟩

/-- A call that does not add these types leaves their indices alone. -/
theorem apart_step {ndebug : Bool} {call : DatabaseCall F}
    (apart : Apart absent client) (avoids : Avoids absent call)
    (stepped : call.step ndebug client = some next) :
    Apart absent next ∧ LeavesAlone absent client.database next.database := by
  have ofSession : ∀ program : (t : τ) → IndexM (F.indexType t) PUnit,
      ∀ session ∈ client.sessions, Moves (LeavesAlone absent)
        (forSubSessions program session.subSessions) := by
    intro program session member
    apply moves_forSubSessions
    intro subSession isSub isAbsent
    exact apart.unregistered _ isAbsent
      (apart.sessions session member subSession isSub)
  have leaves : LeavesApart absent (call.program ndebug) client := by
    cases call with
    | addIndex t => exact leavesApart_onDatabase apart (moves_addIndex avoids)
    | startUndoSession =>
        apply ends_bind
        apply ends_zoom
        apply ends_bind
        apply ends_of_ok (get_apply client.database)
        apply ends_bind
        apply (ends_startSubSessions_alone (List.Subset.refl _)).imp
        · rintro sessions database ⟨areIndices, alone⟩
          apply ends_pure
          apply ends_bind
          apply ends_of_ok (get_apply _)
          apply ends_of_ok (set_apply _ _)
          have kept : Apart absent { client with database := database } :=
            apart.of_leavesAlone alone fun _ member => Or.inl member
          refine ⟨⟨?_, kept.unregistered⟩, alone⟩
          intro session member
          rcases List.mem_cons.mp member with rfl | isOld
          · exact fun subSession isSub =>
              alone.grows (areIndices subSession isSub)
          · exact kept.sessions session isOld
        · exact fun _ _ alone =>
            ⟨apart.of_leavesAlone alone fun _ member => Or.inl member, alone⟩
    | sessionPush position =>
        exact leavesApart_onSession apart fun _ _ => moves_pure _
    | sessionSquash position =>
        exact leavesApart_onSession apart (ofSession _)
    | sessionUndo position => exact leavesApart_onSession apart (ofSession _)
    | sessionDestroy position =>
        apply ends_bind
        have undone : LeavesApart absent (onSession position
            Database.sessionUndo) client :=
          leavesApart_onSession apart (ofSession _)
        apply undone.imp
        · rintro _ middle ⟨isApart, alone⟩
          apply ends_bind
          apply ends_of_ok (get_apply middle)
          apply ends_of_ok (set_apply _ _)
          refine ⟨isApart.of_leavesAlone (Std.Refl.refl _) ?_, alone⟩
          exact fun _ member => Or.inl (List.mem_of_mem_eraseIdx member)
        · exact fun _ _ holds => holds
    | undo => exact leavesApart_onDatabase apart (moves_forAll _)
    | squash => exact leavesApart_onDatabase apart (moves_forAll _)
    | commit revision => exact leavesApart_onDatabase apart (moves_forAll _)
    | undoAll => exact leavesApart_onDatabase apart (moves_forAll _)
    | setRevision revision =>
        exact leavesApart_onDatabase apart (moves_forAll _)
    | create t value =>
        exact leavesApart_onDatabase apart (moves_onRegistered _)
    | modify t id modifier =>
        exact leavesApart_onDatabase apart (moves_onRegistered _)
    | remove t id => exact leavesApart_onDatabase apart (moves_onRegistered _)
  exact survive_of_ends
    (fun final => Apart absent final ∧
      LeavesAlone absent client.database final.database)
    (leaves.imp (fun _ _ holds => holds) fun _ _ holds _ => holds) stepped

theorem apart_run {ndebug : Bool} {calls : List (DatabaseCall F)}
    (apart : Apart absent client)
    (avoids : ∀ call ∈ calls, Avoids absent call)
    (reached : Runs.run (DatabaseCall.step ndebug) client calls =
      some next) :
    Apart absent next ∧ LeavesAlone absent client.database next.database := by
  induction calls generalizing client with
  | nil =>
      cases reached
      exact ⟨apart, Std.Refl.refl _⟩
  | cons call rest inductionHypothesis =>
      rw [Runs.run_cons] at reached
      obtain ⟨middle, stepped, later⟩ := Option.bind_eq_some_iff.mp reached
      obtain ⟨isApart, first⟩ :=
        apart_step apart (avoids call List.mem_cons_self) stepped
      obtain ⟨lastApart, rest⟩ := inductionHypothesis isApart
        (fun other member => avoids other (List.mem_cons_of_mem call member))
        later
      exact ⟨lastApart, IsTrans.trans _ _ _ first rest⟩

omit [DecidableEq τ] in
theorem avoids_none (call : DatabaseCall F) : Avoids (fun _ => False) call := by
  cases call with
  | addIndex t => exact not_false
  | _ => trivial

/-- In every reachable client the sessions know registered indices only. -/
theorem Reachable.apart {ndebug : Bool} (reachable : client.Reachable ndebug) :
    Apart (fun _ => False) client := by
  obtain ⟨segment, calls, _, reached⟩ := reachable
  have initially : Apart (fun _ => False) (opened segment : Client F) :=
    { sessions := nofun
      unregistered := fun _ => False.elim }
  exact (apart_run initially (fun call _ => avoids_none call) reached).1

end Client

end StateDatabase
