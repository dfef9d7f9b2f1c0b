import Mathlib
import StateDatabase.FailingIndex
import StateDatabase.ReachableDatabases

/-!
# Sessions that cannot be started

`database::start_undo_session(true)` opens a sub-session on every index, one
after the other.  When one of them throws, nothing in the function undoes the
others: the destructors of what was built so far do.

The order in which `new session_impl<…>( _base.start_undo_session( enabled ) )`
asks for memory and starts the session was left to the compiler before C++17;
`newFirst` says which one comes first.
-/

namespace StateDatabase

open Programs GenericIndex

variable {τ : Type} [DecidableEq τ] {F : IndexFamily τ}

/-- The places at which starting a session asks for memory. -/
inductive SessionSite (τ : Type) where
  /-- `_sub_sessions.reserve` -/
  | reserve
  /-- `_stack.emplace_back` of an index -/
  | stack (t : τ)
  /-- the `session_impl` of an index -/
  | sessionObject (t : τ)

namespace Limited

open Database

/-- An exception leaves a scope: the destructors run and it goes on. -/
def unwinding {α : Type} (program : DatabaseM F α)
    (destructors : DatabaseM F PUnit) : DatabaseM F α := fun database =>
  match program database with
  | .ok value final => .ok value final
  | .error fault middle =>
      if fault.isException then
        match destructors middle with
        | .ok _ final => .error fault final
        | .error second final => .error second final
      else .error fault middle

/-- The destructors of sub-sessions undo what still applies. -/
def destroy (sessions : List (SubSession τ)) : DatabaseM F PUnit :=
  forSubSessions (fun _ => GenericIndex.undo) sessions

variable (refuses : SessionSite τ → Bool) (newFirst : Bool)

/-- `generic_index::start_undo_session(true)` -/
def openSession (t : τ) : DatabaseM F (SubSession τ) := do
  allocate refuses (.stack t)
  onIndex t GenericIndex.startUndoSession
  let revision ← onIndex t (do return (← get).revision)
  return { index := t, apply := decide (revision ≠ -1), revision := revision }

/-- `index_impl::start_undo_session(true)`: the session is moved into its
`session_impl`, so that the temporary does not apply any more. -/
def startSubSession (t : τ) : DatabaseM F (SubSession τ) :=
  if newFirst then do
    allocate refuses (.sessionObject t)
    return SubSession.move (← openSession refuses t)
  else do
    let session ← openSession refuses t
    unwinding (allocate refuses (.sessionObject t)) (destroy [session])
    return session.move

/-- The loop; `built` are the elements of `_sub_sessions`. -/
def startSubSessions (built : List (SubSession τ)) :
    List τ → DatabaseM F (List (SubSession τ))
  | [] => pure built
  | t :: rest => do
      let session ← unwinding (startSubSession refuses newFirst t)
        (destroy built)
      startSubSessions (built ++ [session]) rest

/-- `database::start_undo_session(true)` -/
def startUndoSession : DatabaseM F (DatabaseSession τ) := do
  allocate refuses .reserve
  return DatabaseSession.ofSubSessions
    (← startSubSessions refuses newFirst [] (← get).indexList)

/-! ## Opening and destroying sub-sessions -/

section Unwinding

variable {α : Type} {program : DatabaseM F α} {destructors : DatabaseM F PUnit}
  {database middle final : Database F}

omit [DecidableEq τ] in
theorem unwinding_ok {value : α}
    (returned : program database = .ok value final) :
    unwinding program destructors database = .ok value final := by
  rw [unwinding, returned]

omit [DecidableEq τ] in
theorem unwinding_error (failed : program database = .error .badAlloc middle)
    (destroyed : destructors middle = .ok ⟨⟩ final) :
    unwinding program destructors database = .error .badAlloc final := by
  rw [unwinding, failed]
  simp only [Fault.isException, if_true, destroyed]

end Unwinding

/-- The database with one more empty undo state on these indices. -/
def deepened (targets : List τ) (database : Database F) : Database F :=
  { database with
    segment := fun t =>
      if t ∈ targets then (database.segment t).map GenericIndex.opened
      else database.segment t }

@[simp]
theorem deepened_nil (database : Database F) :
    deepened [] database = database := by
  simp [deepened]

theorem deepened_congr {left right : List τ} (database : Database F)
    (same : ∀ t, t ∈ left ↔ t ∈ right) :
    deepened left database = deepened right database := by
  simp only [deepened, same]

/-- An undo state without changes leaves no trace. -/
theorem undo_opened {T : IndexType} (index : GenericIndex T) :
    GenericIndex.undo index.opened = .ok ⟨⟩ index := by
  have restored : undoRows (UndoState.empty T (index.revision + 1))
      index.indices = .ok index.indices := by
    simp [undoRows, UndoState.empty]
    rfl
  have top : index.opened.stack =
      UndoState.empty T (index.revision + 1) :: index.stack := rfl
  refine (undo_apply_cons top restored).trans ?_
  simp [GenericIndex.opened]

section OneIndex

variable {database : Database F} {targets : List τ} {t : τ}
  {index : GenericIndex (F.indexType t)}

/-- Writing the opened index is deepening. -/
theorem setIndex_deepened (found : database.segment t = some index) :
    (deepened targets database).setIndex t index.opened =
      deepened (t :: targets) database := by
  simp only [setIndex, deepened]
  congr 1
  funext other
  by_cases same : other = t
  · subst same
    simp [found]
  · simp [same]

/-- Writing the old index takes it back. -/
theorem setIndex_restored (found : database.segment t = some index)
    (notIn : t ∉ targets) :
    (deepened (t :: targets) database).setIndex t index =
      deepened targets database := by
  simp only [setIndex, deepened]
  congr 1
  funext other
  by_cases same : other = t
  · subst same
    simp [found, notIn]
  · simp [same]

theorem onIndex_opened (found : database.segment t = some index)
    (notIn : t ∉ targets) (bounded : index.revision < int64Max) :
    onIndex t GenericIndex.startUndoSession (deepened targets database) =
      .ok ⟨⟩ (deepened (t :: targets) database) := by
  have same : (deepened targets database).segment t = some index := by
    simp [deepened, notIn, found]
  have started : GenericIndex.startUndoSession index =
      .ok ⟨⟩ index.opened := startUndoSession_apply bounded
  rw [onIndex, same]
  simp only [started]
  rw [setIndex_deepened found]

theorem onIndex_undone (found : database.segment t = some index)
    (notIn : t ∉ targets) :
    onIndex t GenericIndex.undo (deepened (t :: targets) database) =
      .ok ⟨⟩ (deepened targets database) := by
  have deeper : (deepened (t :: targets) database).segment t =
      some index.opened := by
    simp [deepened, found]
  rw [onIndex, deeper]
  simp only [undo_opened]
  rw [setIndex_restored found notIn]

variable {refuses} {newFirst}

theorem openSession_ok (granted : refuses (.stack t) = false)
    (found : database.segment t = some index) (notIn : t ∉ targets)
    (nonneg : 0 ≤ index.revision) (bounded : index.revision < int64Max) :
    openSession refuses t (deepened targets database) =
      .ok ⟨t, true, index.revision + 1⟩
        (deepened (t :: targets) database) := by
  have deeper : (deepened (t :: targets) database).segment t =
      some index.opened := by
    simp [deepened, found]
  have read : onIndex t (do return (← get).revision)
      (deepened (t :: targets) database) =
        .ok (index.revision + 1) (deepened (t :: targets) database) := by
    have returned : (do return (← get).revision : IndexM (F.indexType t) Int)
        index.opened = .ok (index.revision + 1) index.opened := rfl
    rw [onIndex, deeper]
    simp only [returned]
    rw [setIndex_self deeper]
  have applies : decide (index.revision + 1 ≠ -1) = true := by
    rw [decide_eq_true_iff]
    omega
  rw [openSession, bind_apply_of_ok _ (allocate_granted granted),
    bind_apply_of_ok _ (onIndex_opened found notIn bounded),
    bind_apply_of_ok _ read, applies]
  rfl

variable (refuses) (newFirst) in
/-- One sub-session is started, or memory runs out and the index is as
before. -/
theorem startSubSession_apply (found : database.segment t = some index)
    (notIn : t ∉ targets) (nonneg : 0 ≤ index.revision)
    (bounded : index.revision < int64Max) :
    startSubSession refuses newFirst t (deepened targets database) =
        .ok ⟨t, true, 0⟩ (deepened (t :: targets) database) ∨
      startSubSession refuses newFirst t (deepened targets database) =
        .error .badAlloc (deepened targets database) := by
  cases stack : refuses (.stack t) with
  | true =>
      -- the stack does not grow
      have failed : openSession refuses t (deepened targets database) =
          .error .badAlloc (deepened targets database) :=
        bind_apply_of_error _ (allocate_refused stack)
      right
      cases newFirst with
      | true =>
          rw [startSubSession, if_pos rfl]
          cases object : refuses (.sessionObject t) with
          | true => exact bind_apply_of_error _ (allocate_refused object)
          | false =>
              rw [bind_apply_of_ok _ (allocate_granted object)]
              exact bind_apply_of_error _ failed
      | false => exact bind_apply_of_error _ failed
  | false =>
      have started := openSession_ok stack found notIn nonneg bounded
      cases object : refuses (.sessionObject t) with
      | false =>
          left
          cases newFirst with
          | true =>
              rw [startSubSession, if_pos rfl,
                bind_apply_of_ok _ (allocate_granted object),
                bind_apply_of_ok _ started]
              rfl
          | false =>
              have kept : unwinding (allocate refuses (.sessionObject t))
                  (destroy [⟨t, true, index.revision + 1⟩])
                  (deepened (t :: targets) database) =
                    .ok ⟨⟩ (deepened (t :: targets) database) :=
                unwinding_ok (allocate_granted object)
              rw [startSubSession, if_neg Bool.false_ne_true,
                bind_apply_of_ok _ started, bind_apply_of_ok _ kept]
              rfl
      | true =>
          right
          cases newFirst with
          | true =>
              rw [startSubSession, if_pos rfl]
              exact bind_apply_of_error _ (allocate_refused object)
          | false =>
              -- the temporary session is destroyed
              have destroyed : destroy [⟨t, true, index.revision + 1⟩]
                  (deepened (t :: targets) database) =
                    .ok ⟨⟩ (deepened targets database) := by
                rw [destroy, forSubSessions, if_pos rfl,
                  bind_apply_of_ok _ (onIndex_undone found notIn)]
                rfl
              have thrown : unwinding (allocate refuses (.sessionObject t))
                  (destroy [⟨t, true, index.revision + 1⟩])
                  (deepened (t :: targets) database) =
                    .error .badAlloc (deepened targets database) :=
                unwinding_error (allocate_refused object) destroyed
              rw [startSubSession, if_neg Bool.false_ne_true,
                bind_apply_of_ok _ started]
              exact bind_apply_of_error _ thrown

end OneIndex

/-! ## All sub-sessions -/

section Loop

variable {refuses} {newFirst} {database : Database F}

/-- The index is stored, and its revision can be raised. -/
def CanOpen (database : Database F) (t : τ) : Prop :=
  ∃ index, database.segment t = some index ∧ 0 ≤ index.revision ∧
    index.revision < int64Max

/-- The destructors of the sub-sessions take every index back. -/
theorem destroy_ok :
    ∀ (built : List (SubSession τ)),
      (∀ session ∈ built, session.apply = true) →
      (built.map SubSession.index).Nodup →
      (∀ session ∈ built, CanOpen database session.index) →
        destroy built (deepened (built.map SubSession.index) database) =
          .ok ⟨⟩ database
  | [], _, _, _ => by
      rw [List.map_nil, deepened_nil]
      rfl
  | session :: rest, applies, nodup, canOpen => by
      rw [List.map_cons, List.nodup_cons] at nodup
      obtain ⟨index, found, _, _⟩ := canOpen session List.mem_cons_self
      have restDestroyed := destroy_ok rest
        (fun other member => applies other (List.mem_cons_of_mem _ member))
        nodup.2
        (fun other member => canOpen other (List.mem_cons_of_mem _ member))
      rw [destroy, forSubSessions,
        if_pos (applies session List.mem_cons_self), List.map_cons,
        bind_apply_of_ok _ (onIndex_undone found nodup.1)]
      exact restDestroyed

variable (refuses) (newFirst) in
/-- The loop starts all sub-sessions, or the database is as before. -/
theorem startSubSessions_apply :
    ∀ (rest : List τ) (built : List (SubSession τ)),
      (∀ session ∈ built, session.apply = true) →
      (built.map SubSession.index ++ rest).Nodup →
      (∀ t ∈ built.map SubSession.index ++ rest, CanOpen database t) →
        (∃ sessions, startSubSessions refuses newFirst built rest
            (deepened (built.map SubSession.index) database) =
              .ok sessions
                (deepened (built.map SubSession.index ++ rest) database) ∧
          sessions.map SubSession.index =
            built.map SubSession.index ++ rest ∧
          ∀ session ∈ sessions, session.apply = true) ∨
        startSubSessions refuses newFirst built rest
          (deepened (built.map SubSession.index) database) =
            .error .badAlloc database
  | [], built, applies, _, _ => by
      rw [List.append_nil]
      exact Or.inl ⟨built, rfl, rfl, applies⟩
  | t :: rest, built, applies, nodup, canOpen => by
      obtain ⟨builtNodup, _, disjoint⟩ := List.nodup_append.mp nodup
      have notBuilt : t ∉ built.map SubSession.index :=
        fun member => disjoint t member t List.mem_cons_self rfl
      obtain ⟨index, found, nonneg, bounded⟩ :=
        canOpen t (List.mem_append_right _ List.mem_cons_self)
      rcases startSubSession_apply refuses newFirst found notBuilt nonneg
        bounded with started | failed
      · obtain ⟨longer, isLonger⟩ :
            ∃ longer : List (SubSession τ), longer = built ++ [⟨t, true, 0⟩] :=
          ⟨_, rfl⟩
        have sameNames : longer.map SubSession.index =
            built.map SubSession.index ++ [t] := by
          rw [isLonger, List.map_append]
          rfl
        have sameState : deepened (t :: built.map SubSession.index) database =
            deepened (longer.map SubSession.index) database := by
          rw [sameNames]
          exact deepened_congr database (by simp [or_comm])
        have sameTargets : longer.map SubSession.index ++ rest =
            built.map SubSession.index ++ t :: rest := by
          rw [sameNames, List.append_assoc]
          rfl
        have allApply : ∀ session ∈ longer, session.apply = true := by
          intro session member
          rw [isLonger, List.mem_append, List.mem_singleton] at member
          rcases member with isOld | isNew
          · exact applies session isOld
          · rw [isNew]
        have later := startSubSessions_apply rest longer allApply
          (by rw [sameTargets]; exact nodup)
          (by rw [sameTargets]; exact canOpen)
        rw [sameTargets, ← sameState, isLonger] at later
        rw [startSubSessions, bind_apply_of_ok _ (unwinding_ok started)]
        exact later
      · have destroyed := destroy_ok built applies builtNodup
          fun session member => canOpen session.index
            (List.mem_append_left _ (List.mem_map_of_mem member))
        right
        exact bind_apply_of_error _ (unwinding_error failed destroyed)

end Loop

/-! ## With enough memory -/

section Generous

omit [DecidableEq τ] in
theorem unwinding_eq {α : Type} {program : DatabaseM F α}
    {destructors : DatabaseM F PUnit}
    (noException : ∀ database, Ends program database (fun _ _ => True)
      (fun fault _ => fault.isException = false)) :
    unwinding program destructors = program := by
  funext database
  cases ran : program database with
  | ok value final => exact unwinding_ok ran
  | error fault final =>
      have endsProcess := (noException database).of_error ran
      rw [unwinding, ran]
      simp only [endsProcess, Bool.false_eq_true, if_false]

theorem startSubSession_noException (t : τ) (database : Database F) :
    Ends (Database.startSubSession t) database (fun _ _ => True)
      (fun fault _ => fault.isException = false) := by
  have opens : Ends (onIndex t GenericIndex.startUndoSession) database
      (fun _ _ => True) (fun fault _ => fault.isException = false) := by
    cases found : database.segment t with
    | none =>
        have failed : onIndex t GenericIndex.startUndoSession database =
            .error .undefined database := by
          rw [onIndex, found]
        exact ends_of_error failed rfl
    | some index =>
        refine ends_onIndex found
          (ends_bind (ends_of_ok (get_apply index) ?_))
        split
        · exact ends_of_ok (set_apply _ _) trivial
        · exact ends_of_error (throw_apply _ _) rfl
  refine ends_bind (opens.imp (fun _ middle _ => ends_bind ?_)
    fun _ _ failed => failed)
  cases found : middle.segment t with
  | none =>
      have failed : onIndex t (do return (← get).revision) middle =
          .error .undefined middle := by
        rw [onIndex, found]
      exact ends_of_error failed rfl
  | some index =>
      exact ends_onIndex found (ends_of_ok rfl (ends_pure trivial))

theorem startSubSession_generous (newFirst : Bool) (t : τ) :
    (startSubSession (fun _ => false) newFirst t :
      DatabaseM F (SubSession τ)) = Database.startSubSession t := by
  have granted : ∀ site : SessionSite τ,
      (allocate (fun _ => false) site : DatabaseM F PUnit) = pure ⟨⟩ :=
    fun _ => rfl
  have nothing : ∀ destructors : DatabaseM F PUnit,
      unwinding (pure ⟨⟩) destructors = (pure ⟨⟩ : DatabaseM F PUnit) :=
    fun _ => rfl
  cases newFirst with
  | true =>
      simp [startSubSession, openSession, Database.startSubSession, granted]
  | false =>
      simp [startSubSession, openSession, Database.startSubSession, granted,
        nothing]

theorem startSubSessions_generous (newFirst : Bool) :
    ∀ (targets : List τ) (built : List (SubSession τ)),
      (startSubSessions (fun _ => false) newFirst built targets :
        DatabaseM F (List (SubSession τ))) =
          (built ++ ·) <$> Database.startSubSessions targets
  | [], built => by simp [startSubSessions, Database.startSubSessions]
  | t :: rest, built => by
      rw [startSubSessions, startSubSession_generous,
        unwinding_eq (startSubSession_noException t)]
      simp [Database.startSubSessions, startSubSessions_generous newFirst rest]

/-- With enough memory this is `start_undo_session` of the database. -/
theorem startUndoSession_generous (newFirst : Bool) :
    (startUndoSession (fun _ => false) newFirst :
      DatabaseM F (DatabaseSession τ)) = Database.startUndoSession := by
  funext database
  rw [startUndoSession, bind_apply_of_ok _ (allocate_granted rfl)]
  simp only [startSubSessions_generous, Database.startUndoSession]
  simp

end Generous

end Limited

/-! ## All or nothing -/

/-- In every database that a client can reach, with the revision of every
registered index below the largest one, `start_undo_session` returns a session
with an undo state more on every index, or it throws and nothing has changed;
wherever memory runs out. -/
theorem startUndoSession_allOrNothing {ndebug : Bool} {client : Client F}
    (reachable : client.Reachable ndebug)
    (bounded : ∀ t ∈ client.database.indexList,
      ∀ index ∈ client.database.segment t, index.revision < int64Max)
    (refuses : SessionSite τ → Bool) (newFirst : Bool) :
    (∃ session final,
      Limited.startUndoSession refuses newFirst client.database =
        .ok session final ∧
      session.subSessions.map SubSession.index = client.database.indexList ∧
      (∀ subSession ∈ session.subSessions, subSession.apply = true) ∧
      final.indexList = client.database.indexList ∧
      (∀ t ∈ client.database.indexList, ∃ index,
        client.database.segment t = some index ∧
        final.segment t = some
          { index with
            stack := UndoState.empty _ (index.revision + 1) :: index.stack
            revision := index.revision + 1 }) ∧
      ∀ t ∉ client.database.indexList,
        final.segment t = client.database.segment t) ∨
    Limited.startUndoSession refuses newFirst client.database =
      .error .badAlloc client.database := by
  have sturdy := reachable.sturdy
  have canOpen : ∀ t ∈ client.database.indexList,
      Limited.CanOpen client.database t := by
    intro t member
    obtain ⟨base, depth, index, found, shape⟩ := sturdy.hasShape member
    refine ⟨index, found, ?_, bounded t member index found⟩
    have nonneg := shape.nonneg
    rw [shape.revision]
    omega
  cases reserve : refuses .reserve with
  | true =>
      exact Or.inr (bind_apply_of_error _ (Limited.allocate_refused reserve))
  | false =>
      have loop := Limited.startSubSessions_apply refuses newFirst
        client.database.indexList [] nofun sturdy.nodup canOpen
      rw [List.map_nil, List.nil_append, Limited.deepened_nil] at loop
      rw [Limited.startUndoSession,
        bind_apply_of_ok _ (Limited.allocate_granted reserve),
        bind_apply_of_ok _ (get_apply _)]
      rcases loop with ⟨sessions, started, names, applies⟩ | failed
      · left
        refine ⟨_, _, bind_apply_of_ok _ started, names, applies, rfl, ?_, ?_⟩
        · intro t member
          obtain ⟨index, found, _⟩ := canOpen t member
          refine ⟨index, found, ?_⟩
          simp [Limited.deepened, member, found, GenericIndex.opened]
        · intro t notMember
          simp [Limited.deepened, notMember]
      · exact Or.inr (bind_apply_of_error _ failed)

/-- Two indices; there is no memory for the second session object. -/
theorem startUndoSession_allOrNothing_secondIndex :
    ∃ client : Client eosDbTables, client.Reachable false ∧
      client.database.indexList = [.tableId, .keyValue] ∧
      Limited.startUndoSession
        (fun | .sessionObject .keyValue => true | _ => false) false
        client.database = .error .badAlloc client.database := by
  obtain ⟨client, reachable, test⟩ := Client.reachable_of_any false
    [.addIndex .tableId, .addIndex .keyValue]
    (fun client : Client eosDbTables =>
      decide (client.database.indexList = [.tableId, .keyValue] ∧
        ∀ t ∈ client.database.indexList,
          ∀ index ∈ client.database.segment t, index.revision < int64Max) &&
      match Limited.startUndoSession
        (fun | .sessionObject .keyValue => true | _ => false) false
        client.database with
      | .ok _ _ => false
      | .error _ _ => true)
    (by decide +kernel)
  rw [Bool.and_eq_true, decide_eq_true_iff] at test
  obtain ⟨⟨isList, bounded⟩, fails⟩ := test
  refine ⟨client, reachable, isList, ?_⟩
  rcases startUndoSession_allOrNothing reachable bounded
    (fun | .sessionObject .keyValue => true | _ => false) false with
    ⟨session, final, started, _⟩ | failed
  · rw [started] at fails
    cases fails
  · exact failed

/-- At the largest revision the increment overflows: the call neither returns a
session nor throws. -/
theorem startUndoSession_largestRevision :
    ∃ client : Client eosDbTables, client.Reachable false ∧
      client.database.indexList = [.tableId] ∧
      ∃ final, Limited.startUndoSession (fun _ => false) true
        client.database = .error .undefined final := by
  obtain ⟨client, reachable, test⟩ := Client.reachable_of_any false
    [.addIndex .tableId, .setRevision (2 ^ 63 - 1)]
    (fun client : Client eosDbTables =>
      decide (client.database.indexList = [.tableId]) &&
      match Limited.startUndoSession (fun _ => false) true
        client.database with
      | .ok _ _ => false
      | .error fault _ => decide (fault = .undefined))
    (by decide +kernel)
  rw [Bool.and_eq_true, decide_eq_true_iff] at test
  obtain ⟨isList, fails⟩ := test
  refine ⟨client, reachable, isList, ?_⟩
  split at fails
  · cases fails
  · rename_i fault final failed
    exact ⟨final, failed.trans (by rw [of_decide_eq_true fails])⟩

end StateDatabase
