import Mathlib
import StateDatabase.DatabaseRuns

/-!
# Databases that a client can reach

A client opens a file, registers indices and makes any calls.  Whatever it does,
no index is registered twice, every registered index is stored, and the undo
states of every stored index have consecutive revisions.  The first registered
index stays the first, and a type that the client does not add stays absent.
-/

namespace StateDatabase

open Programs GenericIndex

/-! ## One index -/

section OneIndex

variable {T : IndexType} {index : GenericIndex T}

/-- The undo states have consecutive revisions. -/
def Shaped (index : GenericIndex T) : Prop :=
  ∃ base depth, Shape index base depth

/-- Every call on an index leaves consecutive revisions, unless it ends the
process. -/
theorem Shaped.ends_call (ndebug : Bool) (call : IndexCall T)
    (shaped : Shaped index) :
    Ends (call.program ndebug) index (fun _ final => Shaped final)
      (fun fault final => fault.isException = true → Shaped final) := by
  obtain ⟨base, depth, shape⟩ := shaped
  cases ran : call.program ndebug index with
  | ok value final =>
      have stepped : call.step ndebug index = some final := by
        rw [IndexCall.step, ran]
        rfl
      exact ends_of_ok ran (shape_step shape stepped)
  | error fault final =>
      refine ends_of_error ran fun isException => ?_
      have stepped : call.step ndebug index = some final := by
        rw [IndexCall.step, ran, survive, if_pos isException]
      exact shape_step shape stepped

end OneIndex

/-! ## The database -/

variable {τ : Type} [DecidableEq τ] {F : IndexFamily τ}

namespace Database

/-- What holds of every database that a client can reach; `front` is the first
index type if there is one, and the types in `absent` are not added. -/
structure Sturdy (front : Option τ) (absent : τ → Prop)
    (database : Database F) : Prop where
  writable : database.readOnly = false
  nodup : database.indexList.Nodup
  stored : ∀ t ∈ database.indexList, database.segment t ≠ none
  shaped : ∀ t index, database.segment t = some index → Shaped index
  missing : ∀ t, absent t → database.segment t = none
  first : ∀ t ∈ front, database.indexList.head? = some t

variable {front : Option τ} {absent : τ → Prop} {database : Database F} {t : τ}

omit [DecidableEq τ] in
theorem Sturdy.hasShape (sturdy : Sturdy front absent database)
    (member : t ∈ database.indexList) :
    ∃ base depth, database.HasShape t base depth := by
  obtain ⟨index, found⟩ :=
    Option.ne_none_iff_exists'.mp (sturdy.stored t member)
  obtain ⟨base, depth, shape⟩ := sturdy.shaped t index found
  exact ⟨base, depth, index, found, shape⟩

/-- An index of a type that may be stored was put into the segment. -/
theorem Sturdy.withIndex {final : GenericIndex (F.indexType t)}
    (sturdy : Sturdy front absent database) (notAbsent : ¬ absent t)
    (shaped : Shaped final) :
    Sturdy front absent (database.setIndex t final) where
  writable := sturdy.writable
  nodup := sturdy.nodup
  stored other member := by
    by_cases same : other = t
    · subst same
      rw [setIndex_segment_self]
      exact Option.some_ne_none _
    · rw [setIndex_segment_ne same]
      exact sturdy.stored other member
  shaped other tested isTested := by
    by_cases same : other = t
    · subst same
      rw [setIndex_segment_self] at isTested
      cases isTested
      exact shaped
    · rw [setIndex_segment_ne same] at isTested
      exact sturdy.shaped other tested isTested
  missing other isAbsent := by
    have different : other ≠ t := fun same => notAbsent (same ▸ isAbsent)
    rw [setIndex_segment_ne different]
    exact sturdy.missing other isAbsent
  first := sturdy.first

/-- One stored index has changed. -/
theorem Sturdy.setIndex {index final : GenericIndex (F.indexType t)}
    (sturdy : Sturdy front absent database)
    (found : database.segment t = some index) (shaped : Shaped final) :
    Sturdy front absent (database.setIndex t final) := by
  apply sturdy.withIndex _ shaped
  intro isAbsent
  have notStored := sturdy.missing t isAbsent
  rw [notStored] at found
  cases found

/-- The program leaves a sturdy database, unless it ends the process. -/
def KeepsSturdy (front : Option τ) (absent : τ → Prop) {α : Type}
    (program : DatabaseM F α) : Prop :=
  ∀ database, Sturdy front absent database →
    Ends program database (fun _ final => Sturdy front absent final)
      (fun fault final => fault.isException = true →
        Sturdy front absent final)

omit [DecidableEq τ] in
theorem keepsSturdy_pure {α : Type} (value : α) :
    KeepsSturdy front absent (pure value : DatabaseM F α) :=
  fun _ sturdy => ends_pure sturdy

omit [DecidableEq τ] in
theorem KeepsSturdy.bind {α β : Type} {program : DatabaseM F α}
    {continuation : α → DatabaseM F β}
    (first : KeepsSturdy front absent program)
    (rest : ∀ value, KeepsSturdy front absent (continuation value)) :
    KeepsSturdy front absent (program >>= continuation) :=
  fun database sturdy => ends_bind ((first database sturdy).imp
    (fun value middle holds => rest value middle holds) fun _ _ holds => holds)

/-- A program on one index that leaves consecutive revisions. -/
theorem keepsSturdy_onIndex {α : Type} {program : IndexM (F.indexType t) α}
    (ends : ∀ index, Shaped index →
      Ends program index (fun _ final => Shaped final)
        (fun fault final => fault.isException = true → Shaped final)) :
    KeepsSturdy front absent (onIndex t program) := by
  intro database sturdy
  cases found : database.segment t with
  | none =>
      have failed : onIndex t program database =
          .error .undefined database := by
        rw [onIndex, found]
      apply ends_of_error failed
      intro isException
      cases isException
  | some index =>
      refine ends_onIndex found
        ((ends index (sturdy.shaped t index found)).imp ?_ ?_)
      · exact fun _ _ shaped => sturdy.setIndex found shaped
      · exact fun _ _ shaped isException =>
          sturdy.setIndex found (shaped isException)

theorem keepsSturdy_call (ndebug : Bool) (call : IndexCall (F.indexType t)) :
    KeepsSturdy front absent (onIndex t (call.program ndebug)) :=
  keepsSturdy_onIndex fun _ shaped => shaped.ends_call ndebug call

theorem keepsSturdy_onRegistered (ndebug : Bool)
    (call : IndexCall (F.indexType t)) :
    KeepsSturdy front absent (onRegistered t (call.program ndebug)) := by
  intro database sturdy
  refine ends_bind (ends_of_ok (get_apply database) ?_)
  split
  · exact keepsSturdy_call ndebug call database sturdy
  · exact ends_of_error (throw_apply _ _) nofun

theorem keepsSturdy_forIndices
    {program : (t : τ) → IndexM (F.indexType t) PUnit}
    (each : ∀ t, KeepsSturdy front absent (onIndex t (program t))) :
    ∀ targets : List τ, KeepsSturdy front absent (forIndices program targets)
  | [] => keepsSturdy_pure _
  | t :: rest => (each t).bind fun _ => keepsSturdy_forIndices each rest

theorem keepsSturdy_forAll
    {program : (t : τ) → IndexM (F.indexType t) PUnit}
    (each : ∀ t, KeepsSturdy front absent (onIndex t (program t))) :
    KeepsSturdy front absent (do forIndices program (← get).indexList) :=
  fun database sturdy => ends_bind (ends_of_ok (get_apply database)
    (keepsSturdy_forIndices each _ database sturdy))

theorem keepsSturdy_forSubSessions
    {program : (t : τ) → IndexM (F.indexType t) PUnit}
    (each : ∀ t, KeepsSturdy front absent (onIndex t (program t))) :
    ∀ sessions : List (SubSession τ),
      KeepsSturdy front absent (forSubSessions program sessions)
  | [] => keepsSturdy_pure _
  | session :: rest => by
      have later := keepsSturdy_forSubSessions each rest
      cases applies : session.apply with
      | true =>
          simp only [forSubSessions, applies, if_true]
          exact (each session.index).bind fun _ => later
      | false =>
          simp only [forSubSessions, applies, Bool.false_eq_true, if_false]
          exact later

theorem keepsSturdy_startSubSessions : ∀ targets : List τ,
    KeepsSturdy front absent (startSubSessions targets : DatabaseM F _)
  | [] => keepsSturdy_pure _
  | t :: rest => by
      have starts : KeepsSturdy front absent
          (startSubSession t : DatabaseM F (SubSession τ)) := by
        refine KeepsSturdy.bind
          (keepsSturdy_call true IndexCall.startUndoSession) fun _ => ?_
        refine KeepsSturdy.bind (keepsSturdy_onIndex ?_) fun _ =>
          keepsSturdy_pure _
        exact fun index shaped => ends_of_ok rfl shaped
      exact starts.bind fun _ =>
        (keepsSturdy_startSubSessions rest).bind fun _ => keepsSturdy_pure _

theorem keepsSturdy_startUndoSession :
    KeepsSturdy front absent
      (startUndoSession : DatabaseM F (DatabaseSession τ)) :=
  fun database sturdy => ends_bind (ends_of_ok (get_apply database)
    (((keepsSturdy_startSubSessions database.indexList).bind fun _ =>
      keepsSturdy_pure _) database sturdy))

/-- A type that was not registered before is registered and has a shape. -/
theorem Sturdy.registered {base : Int} {depth : Nat} {final : Database F}
    (sturdy : Sturdy front absent database)
    (unregistered : t ∉ database.indexList) (notAbsent : ¬ absent t)
    (registered : Registered t base depth database final) :
    Sturdy front absent final where
  writable := registered.readOnly.trans sturdy.writable
  nodup := by
    rw [registered.indexList, List.nodup_append]
    refine ⟨sturdy.nodup, List.nodup_singleton t, ?_⟩
    intro left leftMember right rightMember equal
    rw [List.mem_singleton] at rightMember
    exact unregistered (rightMember ▸ equal ▸ leftMember)
  stored other member := by
    by_cases same : other = t
    · obtain ⟨index, found, _⟩ := registered.shape
      rw [same, found]
      exact Option.some_ne_none _
    · rw [registered.indexList, List.mem_append, List.mem_singleton] at member
      rw [registered.others other same]
      exact sturdy.stored other (member.resolve_right same)
  shaped other tested isTested := by
    by_cases same : other = t
    · subst same
      obtain ⟨index, found, shape⟩ := registered.shape
      rw [found] at isTested
      cases isTested
      exact ⟨base, depth, shape⟩
    · rw [registered.others other same] at isTested
      exact sturdy.shaped other tested isTested
  missing other isAbsent := by
    have different : other ≠ t := fun same => notAbsent (same ▸ isAbsent)
    rw [registered.others other different]
    exact sturdy.missing other isAbsent
  first other isFront := by
    rw [registered.indexList, List.head?_append, sturdy.first other isFront]
    rfl

/-- `add_index` refuses the type and changes nothing, or registers it. -/
theorem keepsSturdy_addIndex (notAbsent : ¬ absent t) :
    KeepsSturdy front absent (addIndex t : DatabaseM F PUnit) := by
  intro database sturdy
  by_cases isRegistered : t ∈ database.indexList
  · refine ends_bind (ends_of_ok (get_apply database) ?_)
    rw [if_pos isRegistered]
    exact ends_of_error (throw_apply _ _) fun _ => sturdy
  · have accepted : ∀ {base : Int} {depth : Nat} {final : Database F},
        addIndex t database = .ok ⟨⟩ final →
        Registered t base depth database final →
          Ends (addIndex t) database
            (fun _ final => Sturdy front absent final)
            (fun fault final => fault.isException = true →
              Sturdy front absent final) :=
      fun success registered => ends_of_ok success
        (sturdy.registered isRegistered notAbsent registered)
    cases isList : database.indexList with
    | nil =>
        obtain ⟨final, success, ofStored, ofNew⟩ :=
          addIndex_first (t := t) isList sturdy.writable
        cases found : database.segment t with
        | none => exact accepted success (ofNew found)
        | some index =>
            obtain ⟨base, depth, shape⟩ := sturdy.shaped t index found
            exact accepted success (ofStored base depth ⟨index, found, shape⟩)
    | cons leader rest =>
        obtain ⟨base, depth, frontShape⟩ := sturdy.hasShape
          (show leader ∈ database.indexList by
            rw [isList]
            exact List.mem_cons_self)
        cases found : database.segment t with
        | none =>
            obtain ⟨final, success, registered⟩ := addIndex_new isList
              sturdy.writable frontShape found isRegistered
            exact accepted success registered
        | some index =>
            obtain ⟨base', depth', isShape⟩ := sturdy.shaped t index found
            have shape : database.HasShape t base' depth' :=
              ⟨index, found, isShape⟩
            by_cases same : (base', base' + (depth' : Int)) =
                (base, base + (depth : Int))
            · rw [Prod.mk.injEq] at same
              have sameDepth : depth' = depth := by omega
              rw [same.1, sameDepth] at shape
              obtain ⟨final, success, registered⟩ :=
                addIndex_stored_same isList frontShape shape isRegistered
              exact accepted success registered
            · obtain ⟨message, refused⟩ := addIndex_stored_different isList
                frontShape shape same isRegistered
              exact ends_of_error refused fun _ => sturdy

end Database

/-! ## The client -/

namespace Client

open Database

variable {front : Option τ} {absent : τ → Prop} {client next : Client F}

/-- The call does not add one of these types. -/
def Avoids (absent : τ → Prop) : DatabaseCall F → Prop
  | .addIndex t => ¬ absent t
  | _ => True

/-- A program on the client leaves a sturdy database. -/
def LeavesSturdy (front : Option τ) (absent : τ → Prop)
    (program : ClientM F PUnit) (client : Client F) : Prop :=
  Ends program client (fun _ final => Sturdy front absent final.database)
    (fun fault final => fault.isException = true →
      Sturdy front absent final.database)

omit [DecidableEq τ] in
theorem leavesSturdy_onDatabase {program : DatabaseM F PUnit}
    (keeps : KeepsSturdy front absent program)
    (sturdy : Sturdy front absent client.database) :
    LeavesSturdy front absent (onDatabase program) client :=
  ends_zoom (keeps client.database sturdy)

omit [DecidableEq τ] in
theorem leavesSturdy_onSession {position : Nat}
    {program : DatabaseSession τ → DatabaseM F PUnit}
    (keeps : ∀ session, KeepsSturdy front absent (program session))
    (sturdy : Sturdy front absent client.database) :
    LeavesSturdy front absent (onSession position program) client := by
  refine ends_bind (ends_of_ok (get_apply client) ?_)
  split
  · exact ends_of_error (throw_apply _ _) nofun
  · rename_i session _
    refine ends_bind ((leavesSturdy_onDatabase (keeps session) sturdy).imp ?_
      fun _ _ holds => holds)
    intro _ middle middleSturdy
    exact ends_bind (ends_of_ok (get_apply middle)
      (ends_of_ok (set_apply _ _) middleSturdy))

/-- Every call keeps the database sturdy. -/
theorem sturdy_step {ndebug : Bool} {call : DatabaseCall F}
    (sturdy : Sturdy front absent client.database)
    (avoids : Avoids absent call)
    (stepped : call.step ndebug client = some next) :
    Sturdy front absent next.database := by
  have undoes : ∀ t, KeepsSturdy front absent
      (onIndex t GenericIndex.undo : DatabaseM F PUnit) :=
    fun t => keepsSturdy_call true IndexCall.undo
  have squashes : ∀ t, KeepsSturdy front absent
      (onIndex t (GenericIndex.squash ndebug) : DatabaseM F PUnit) :=
    fun t => keepsSturdy_call ndebug IndexCall.squash
  refine survive_of_ends
    (fun client => Sturdy front absent client.database) ?_ stepped
  cases call with
  | addIndex t =>
      exact leavesSturdy_onDatabase (keepsSturdy_addIndex avoids) sturdy
  | startUndoSession =>
      refine ends_bind (ends_zoom
        ((keepsSturdy_startUndoSession client.database sturdy).imp ?_
          fun _ _ holds => holds))
      intro session database isSturdy
      exact ends_bind (ends_of_ok (get_apply _)
        (ends_of_ok (set_apply _ _) isSturdy))
  | sessionPush position =>
      exact leavesSturdy_onSession (fun _ => keepsSturdy_pure _) sturdy
  | sessionSquash position =>
      exact leavesSturdy_onSession (fun session =>
        keepsSturdy_forSubSessions squashes session.subSessions) sturdy
  | sessionUndo position =>
      exact leavesSturdy_onSession (fun session =>
        keepsSturdy_forSubSessions undoes session.subSessions) sturdy
  | sessionDestroy position =>
      refine ends_bind (Ends.imp (leavesSturdy_onSession (fun session =>
        keepsSturdy_forSubSessions undoes session.subSessions) sturdy) ?_
          fun _ _ holds => holds)
      intro _ middle middleSturdy
      exact ends_bind (ends_of_ok (get_apply _)
        (ends_of_ok (set_apply _ _) middleSturdy))
  | undo => exact leavesSturdy_onDatabase (keepsSturdy_forAll undoes) sturdy
  | squash =>
      exact leavesSturdy_onDatabase (keepsSturdy_forAll squashes) sturdy
  | commit revision =>
      exact leavesSturdy_onDatabase (keepsSturdy_forAll fun t =>
        keepsSturdy_call true (IndexCall.commit revision)) sturdy
  | undoAll =>
      exact leavesSturdy_onDatabase (keepsSturdy_forAll fun t =>
        keepsSturdy_call true IndexCall.undoAll) sturdy
  | setRevision revision =>
      exact leavesSturdy_onDatabase (keepsSturdy_forAll fun t =>
        keepsSturdy_call true (IndexCall.setRevision revision)) sturdy
  | create t value =>
      exact leavesSturdy_onDatabase
        (keepsSturdy_onRegistered true (IndexCall.emplace value)) sturdy
  | modify t id modifier =>
      exact leavesSturdy_onDatabase
        (keepsSturdy_onRegistered true (IndexCall.modify id modifier)) sturdy
  | remove t id =>
      exact leavesSturdy_onDatabase
        (keepsSturdy_onRegistered true (IndexCall.remove id)) sturdy

theorem sturdy_run {ndebug : Bool} {calls : List (DatabaseCall F)}
    (sturdy : Sturdy front absent client.database)
    (avoids : ∀ call ∈ calls, Avoids absent call)
    (reached : Runs.run (DatabaseCall.step ndebug) client calls =
      some next) :
    Sturdy front absent next.database := by
  induction calls generalizing client with
  | nil =>
      cases reached
      exact sturdy
  | cons call rest inductionHypothesis =>
      rw [Runs.run_cons] at reached
      obtain ⟨middle, stepped, later⟩ := Option.bind_eq_some_iff.mp reached
      exact inductionHypothesis
        (sturdy_step sturdy (avoids call List.mem_cons_self) stepped)
        (fun other member => avoids other (List.mem_cons_of_mem call member))
        later

/-- A file that was opened for writing: its indices were left behind by calls,
and none is registered yet. -/
def opened (segment : (t : τ) → Option (GenericIndex (F.indexType t))) :
    Client F :=
  { database := { segment := segment, indexList := [], readOnly := false }
    sessions := [] }

/-- The client was reached from an opened file. -/
def Reachable (ndebug : Bool) (client : Client F) : Prop :=
  ∃ (segment : (t : τ) → Option (GenericIndex (F.indexType t)))
    (calls : List (DatabaseCall F)),
    (∀ t index, segment t = some index →
      ∃ earlier, Runs.run (IndexCall.step ndebug)
        (GenericIndex.empty (F.indexType t)) earlier = some index) ∧
    Runs.run (DatabaseCall.step ndebug) (opened segment) calls = some client

theorem Reachable.sturdy {ndebug : Bool} (reachable : client.Reachable ndebug) :
    Sturdy none (fun _ => False) client.database := by
  obtain ⟨segment, calls, left, reached⟩ := reachable
  have initially : Sturdy none (fun _ => False)
      (opened segment : Client F).database :=
    { writable := rfl
      nodup := List.nodup_nil
      stored := fun t member => absurd member List.not_mem_nil
      shaped := fun t index found => by
        obtain ⟨earlier, ran⟩ := left t index found
        exact shape_run ran
      missing := fun _ => False.elim
      first := fun t isFront => by cases isFront }
  refine sturdy_run initially (fun call _ => ?_) reached
  cases call with
  | addIndex t => exact not_false
  | _ => trivial

end Client

/-- What can be computed of the client after a run holds of a reachable
client. -/
theorem Client.reachable_of_any (ndebug : Bool) (calls : List (DatabaseCall F))
    (test : Client F → Bool)
    (passes : (Runs.run (DatabaseCall.step ndebug) (Client.empty F)
      calls).any test = true) :
    ∃ client : Client F, client.Reachable ndebug ∧ test client = true := by
  obtain ⟨client, ran, holds⟩ := (Option.any_eq_true _ _).mp passes
  refine ⟨client, ⟨fun _ => none, calls, ?_, ran⟩, holds⟩
  intro t index found
  cases found

/-! ## The revision that a session reports -/

namespace Database

variable {database : Database F} {t : τ}

/-- Undo states were pushed on these indices, and maybe on others. -/
structure Deeper (targets : List τ) (before after : Database F) : Prop where
  indexList : after.indexList = before.indexList
  deeper : ∀ t ∈ targets, (before.index t).revision < (after.index t).revision
  monotone : ∀ t, (before.index t).revision ≤ (after.index t).revision

/-- The sub-session was moved into its `session_impl`, which lost its
revision. -/
theorem ends_startSubSession (t : τ) (database : Database F) :
    Ends (startSubSession t) database
      (fun session final => session.revision = 0 ∧ Deeper [t] database final)
      (fun _ _ => True) := by
  cases found : database.segment t with
  | none =>
      have failed : onIndex t GenericIndex.startUndoSession database =
          .error .undefined database := by
        simp only [onIndex, found]
      exact ends_of_error (bind_apply_of_error _ failed) trivial
  | some index =>
      apply ends_bind
      apply ends_onIndex found
      by_cases bounded : index.revision < int64Max
      · apply ends_of_ok (startUndoSession_apply bounded)
        apply ends_bind
        apply ends_onIndex (setIndex_segment_self t _)
        apply ends_bind
        apply ends_of_ok (get_apply _)
        apply ends_pure
        apply ends_pure
        refine ⟨rfl, rfl, ?_, ?_⟩
        · intro tested member
          rw [List.mem_singleton.mp member, Database.index, found,
            Database.index, setIndex_segment_self, Option.getD_some,
            Option.getD_some]
          exact Int.lt_succ index.revision
        · intro tested
          by_cases same : tested = t
          · rw [same, Database.index, found, Database.index,
              setIndex_segment_self, Option.getD_some, Option.getD_some]
            exact Int.le_of_lt (Int.lt_succ index.revision)
          · rw [Database.index, Database.index, setIndex_segment_ne same,
              setIndex_segment_ne same]
      · have failed : GenericIndex.startUndoSession index =
            .error .undefined index := by
          unfold GenericIndex.startUndoSession
          rw [bind_apply_of_ok _ (get_apply index), if_neg bounded]
          rfl
        exact ends_of_error failed trivial

theorem ends_startSubSessions_deeper :
    ∀ (targets : List τ) (database : Database F),
      Ends (startSubSessions targets) database
        (fun sessions final =>
          sessions.map SubSession.revision = targets.map (fun _ => 0) ∧
            Deeper targets database final)
        (fun _ _ => True)
  | [], database =>
      ends_pure ⟨rfl, rfl, nofun, fun _ => Int.le_refl _⟩
  | t :: rest, database => by
      apply ends_bind
      apply (ends_startSubSession t database).imp _ (fun _ _ holds => holds)
      rintro session middle ⟨isZero, first⟩
      apply ends_bind
      apply (ends_startSubSessions_deeper rest middle).imp _
        (fun _ _ holds => holds)
      rintro sessions final ⟨areZero, later⟩
      apply ends_pure
      refine ⟨?_, later.indexList.trans first.indexList, ?_, ?_⟩
      · rw [List.map_cons, List.map_cons, isZero, areZero]
      · intro tested member
        rcases List.mem_cons.mp member with isFirst | isLater
        · have raised := first.deeper tested
            (List.mem_singleton.mpr isFirst)
          exact Int.lt_of_lt_of_le raised (later.monotone tested)
        · exact Int.lt_of_le_of_lt (first.monotone tested)
            (later.deeper tested isLater)
      · intro tested
        exact Int.le_trans (first.monotone tested) (later.monotone tested)

/-- A returned session reports 0, and the database has left revision 0. -/
theorem ends_startUndoSession_revision {front : τ} {rest : List τ}
    (registered : database.indexList = front :: rest)
    (nonneg : 0 ≤ (database.index front).revision) :
    Ends startUndoSession database
      (fun session final => session.revision = 0 ∧ 0 < final.revision)
      (fun _ _ => True) := by
  apply ends_bind
  apply ends_of_ok (get_apply database)
  apply ends_bind
  apply (ends_startSubSessions_deeper database.indexList database).imp _
    (fun _ _ holds => holds)
  rintro sessions final ⟨areZero, deeper⟩
  apply ends_pure
  constructor
  · rw [registered] at areZero
    cases sessions with
    | nil => cases areZero
    | cons session others => exact (List.cons.inj areZero).1
  · have raised := deeper.deeper front (by rw [registered]; exact List.mem_cons_self)
    rw [Database.revision, deeper.indexList, registered]
    exact Int.lt_of_le_of_lt nonneg raised

/-- `start_undo_session(true)` returns a session that reports, after this many
moves, the revision that the database has then. -/
def ReportsRevision (database : Database F) (moves : Nat) : Prop :=
  ∃ session final, startUndoSession database = .ok session final ∧
    (DatabaseSession.move^[moves] session).revision = final.revision

end Database

/-- No session of a database with an index knows its revision. -/
theorem session_never_reports_revision {ndebug : Bool} {client : Client F}
    (reachable : client.Reachable ndebug)
    (registered : client.database.indexList ≠ []) (moves : Nat) :
    ¬ client.database.ReportsRevision moves := by
  rintro ⟨session, final, started, reports⟩
  cases isList : client.database.indexList with
  | nil => exact registered isList
  | cons front rest =>
      have member : front ∈ client.database.indexList := by
        rw [isList]
        exact List.mem_cons_self
      obtain ⟨base, depth, index, found, shape⟩ :=
        reachable.sturdy.hasShape member
      have nonneg : 0 ≤ (client.database.index front).revision := by
        have baseNonneg := shape.nonneg
        rw [Database.index, found, Option.getD_some, shape.revision]
        omega
      obtain ⟨isZero, positive⟩ :=
        (Database.ends_startUndoSession_revision isList nonneg).of_ok started
      have unmoved : DatabaseSession.move^[moves] session = session :=
        Function.iterate_fixed rfl moves
      rw [unmoved, isZero] at reports
      omega

/-- One index at revision 5. -/
theorem session_never_reports_revision_five :
    ∃ client : Client eosDbTables, client.Reachable false ∧
      client.database.revision = 5 ∧
      ¬ client.database.ReportsRevision 3 := by
  obtain ⟨client, reachable, test⟩ := Client.reachable_of_any false
    [.addIndex .tableId, .setRevision 5]
    (fun client : Client eosDbTables =>
      decide (client.database.indexList ≠ [] ∧ client.database.revision = 5))
    (by decide +kernel)
  obtain ⟨registered, isFive⟩ := of_decide_eq_true test
  exact ⟨client, reachable, isFive,
    session_never_reports_revision reachable registered 3⟩

/-- The first session of a new database is session 1 and reports 0. -/
theorem first_session_reports_zero :
    ∃ client : Client eosDbTables, client.Reachable false ∧
      client.database.indexList = [.tableId] ∧
      ∃ session final,
        client.database.startUndoSession = .ok session final ∧
        session.revision = 0 ∧ final.revision = 1 ∧
        ¬ client.database.ReportsRevision 0 := by
  obtain ⟨client, reachable, test⟩ := Client.reachable_of_any false
    [.addIndex .tableId]
    (fun client : Client eosDbTables =>
      decide (client.database.indexList = [.tableId]) &&
      match Database.startUndoSession client.database with
      | .ok session final =>
          decide (session.revision = 0 ∧ final.revision = 1)
      | .error _ _ => false)
    (by decide +kernel)
  rw [Bool.and_eq_true, decide_eq_true_iff] at test
  obtain ⟨isList, reports⟩ := test
  refine ⟨client, reachable, isList, ?_⟩
  split at reports
  · rename_i session final started
    obtain ⟨isZero, isOne⟩ := of_decide_eq_true reports
    refine ⟨session, final, started, isZero, isOne, ?_⟩
    rintro ⟨other, otherFinal, otherStarted, same⟩
    rw [started] at otherStarted
    cases otherStarted
    rw [Function.iterate_zero, id, isZero, isOne] at same
    cases same
  · cases reports

end StateDatabase
