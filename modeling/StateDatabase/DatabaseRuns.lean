import Mathlib
import StateDatabase.Registration

/-!
# Runs of a database and its sessions

A client registers indices, starts and ends sessions, changes rows, and calls
`undo`, `squash`, `commit`, `undo_all` and `set_revision` of the database.  An
index that is registered while a session is open gets the undo state of that
session, but the session does not know it: ending the session leaves the state
on the stack of the new index.  This is the only call that lets the ranges of
the indices come apart.
-/

namespace StateDatabase

open Programs GenericIndex

variable {τ : Type} [DecidableEq τ] {F : IndexFamily τ}

/-- A database and the sessions that its client holds, the last started one
first. -/
structure Client (F : IndexFamily τ) where
  database : Database F
  sessions : List (DatabaseSession τ)

/-- The calls of a client; a session is named by its position. -/
inductive DatabaseCall (F : IndexFamily τ) where
  | addIndex (t : τ)
  | startUndoSession
  | sessionPush (position : Nat)
  | sessionSquash (position : Nat)
  | sessionUndo (position : Nat)
  | sessionDestroy (position : Nat)
  | undo
  | squash
  | commit (revision : Int)
  | undoAll
  | setRevision (revision : UInt64)
  | create (t : τ) (value : (F.indexType t).Value)
  | modify (t : τ) (id : (F.indexType t).Id)
      (modifier : (F.indexType t).Value → (F.indexType t).Value)
  | remove (t : τ) (id : (F.indexType t).Id)

namespace Client

abbrev ClientM (F : IndexFamily τ) := EStateM Fault (Client F)

/-- No index is registered and no session was started. -/
def empty (F : IndexFamily τ) : Client F :=
  { database := Database.empty F, sessions := [] }

def onDatabase {α : Type} (program : Database.DatabaseM F α) : ClientM F α :=
  zoom Client.database (fun client final => { client with database := final })
    program

/-- Run a program on a session, which has no sub-sessions afterwards. -/
def onSession (position : Nat)
    (program : DatabaseSession τ → Database.DatabaseM F PUnit) :
    ClientM F PUnit := do
  match (← get).sessions[position]? with
  | none => throw .undefined
  | some session =>
      onDatabase (program session)
      let client ← get
      set { client with sessions := client.sessions.set position session.clear }

/-- The session goes out of scope. -/
def dropSession (position : Nat) : ClientM F PUnit := do
  let client ← get
  set { client with sessions := client.sessions.eraseIdx position }

def startUndoSession : ClientM F PUnit := do
  let session ← onDatabase Database.startUndoSession
  let client ← get
  set { client with sessions := session :: client.sessions }

end Client

namespace DatabaseCall

open Client

def program (ndebug : Bool) : DatabaseCall F → ClientM F PUnit
  | .addIndex t => onDatabase (Database.addIndex t)
  | .startUndoSession => Client.startUndoSession
  | .sessionPush position => onSession position fun _ => pure ⟨⟩
  | .sessionSquash position => onSession position (Database.sessionSquash ndebug)
  | .sessionUndo position => onSession position Database.sessionUndo
  | .sessionDestroy position => do
      onSession position Database.sessionUndo
      dropSession position
  | .undo => onDatabase Database.undo
  | .squash => onDatabase (Database.squash ndebug)
  | .commit revision => onDatabase (Database.commit revision)
  | .undoAll => onDatabase Database.undoAll
  | .setRevision revision => onDatabase (Database.setRevision revision)
  | .create t value => onDatabase (Database.create t value)
  | .modify t id modifier => onDatabase (Database.modify t id modifier)
  | .remove t id => onDatabase (Database.remove t id)

/-- The caller goes on after an exception. -/
def step (ndebug : Bool) (client : Client F) (call : DatabaseCall F) :
    Option (Client F) :=
  survive (call.program ndebug client)

/-- The session at this position knows every registered index, or it has ended
already, or no index has an undo state. -/
def Covers (client : Client F) (position : Nat) : Prop :=
  ∀ session ∈ client.sessions[position]?,
    session.subSessions = [] ∨
    session.subSessions.map SubSession.index = client.database.indexList ∨
    ∀ t ∈ client.database.indexList, ∀ index ∈ client.database.segment t,
      index.stack.length = 0

/-- Only new index types are added, and a session is ended only when no index
was added since it was started. -/
def Covered (client : Client F) : DatabaseCall F → Prop
  | .addIndex t => client.database.segment t = none
  | .sessionSquash position => Covers client position
  | .sessionUndo position => Covers client position
  | .sessionDestroy position => Covers client position
  | _ => True

instance (client : Client F) (position : Nat) :
    Decidable (Covers client position) := by
  unfold Covers
  infer_instance

instance (client : Client F) (call : DatabaseCall F) :
    Decidable (call.Covered client) := by
  apply @DatabaseCall.casesOn _ _ (fun call => Decidable (call.Covered client))
      call <;>
    intros <;> unfold Covered <;> infer_instance

end DatabaseCall

/-! ## The database -/

section Uniform

variable {database : Database F} {base base' : Int} {depth depth' : Nat}

namespace Database

/-- All registered indices have one shape. -/
structure Uniform (database : Database F) : Prop where
  writable : database.readOnly = false
  nodup : database.indexList.Nodup
  shapes : ∃ base depth, ∀ t ∈ database.indexList,
    database.HasShape t base depth

/-- What the calls that register nothing leave behind. -/
structure Kept (before after : Database F) : Prop where
  uniform : after.Uniform
  indexList : after.indexList = before.indexList

omit [DecidableEq τ] in
theorem Uniform.kept (uniform : database.Uniform) : Kept database database :=
  ⟨uniform, rfl⟩

omit [DecidableEq τ] in
theorem Reshaped.kept {final : Database F} (uniform : database.Uniform)
    (reshaped : Reshaped database.indexList base' depth' database final) :
    Kept database final where
  uniform :=
    { writable := reshaped.readOnly.trans uniform.writable
      nodup := by
        rw [reshaped.indexList]
        exact uniform.nodup
      shapes := ⟨base', depth', fun t member =>
        reshaped.reached t (reshaped.indexList ▸ member)⟩ }
  indexList := reshaped.indexList

/-- A loop over all indices by a program that takes one shape to another. -/
theorem Uniform.ends_forIndices
    {program : (t : τ) → IndexM (F.indexType t) PUnit}
    (uniform : database.Uniform)
    (reshapes : ∀ base depth, ∃ base' depth',
      ∀ (t : τ) (index : GenericIndex (F.indexType t)),
        Shape index base depth →
          Ends (program t) index
            (fun _ final => Shape final base' depth')
            (fun fault _ => fault.isException = false)) :
    Ends (forIndices program database.indexList) database
      (fun _ final => Kept database final)
      (fun fault final => fault.isException = true → Kept database final) := by
  obtain ⟨base, depth, shapes⟩ := uniform.shapes
  obtain ⟨base', depth', oneIndex⟩ := reshapes base depth
  refine (Database.ends_forIndices oneIndex database.indexList database
    uniform.nodup shapes).imp ?_ ?_
  · intro _ final reshaped
    exact reshaped.kept uniform
  · intro fault final isNone isSome
    rw [isNone] at isSome
    cases isSome

/-- `set_revision` throws at the first index or succeeds at all. -/
theorem Uniform.ends_setRevision (revision : UInt64)
    (uniform : database.Uniform) :
    Ends (forIndices (fun _ => GenericIndex.setRevision revision)
        database.indexList) database
      (fun _ final => Kept database final)
      (fun fault final => fault.isException = true → Kept database final) := by
  obtain ⟨base, depth, shapes⟩ := uniform.shapes
  by_cases accepted : depth = 0 ∧ (revision.toNat : Int) ≤ int64Max
  · have reshapes : ∀ (t : τ) (index : GenericIndex (F.indexType t)),
        Shape index base depth →
          Ends (GenericIndex.setRevision revision) index
            (fun _ final => Shape final (revision.toNat : Int) 0)
            (fun fault _ => fault.isException = false) := by
      intro t index shape
      exact (shape.ends_setRevision revision).imp
        (fun _ _ result => result.2.2)
        fun _ _ refused => absurd accepted refused.2
    refine (Database.ends_forIndices reshapes database.indexList database
      uniform.nodup shapes).imp (fun _ _ reshaped => reshaped.kept uniform) ?_
    · intro fault final isNone isSome
      rw [isNone] at isSome
      cases isSome
  · refine (ends_forIndices_refused ?_ database.indexList shapes).imp ?_ ?_
    · intro t index shape
      exact (shape.ends_setRevision revision).imp
        (fun _ _ result => accepted ⟨result.1, result.2.1⟩)
        fun _ _ refused => refused.1
    · intro _ final unchanged
      exact unchanged ▸ uniform.kept
    · intro _ final unchanged _
      exact unchanged ▸ uniform.kept

/-- A program that keeps the shape of one index keeps all shapes. -/
theorem Uniform.ends_onRegistered {t : τ}
    {program : IndexM (F.indexType t) PUnit} (uniform : database.Uniform)
    (keeps : ∀ (index : GenericIndex (F.indexType t)) base depth,
      Shape index base depth →
        Ends program index (fun _ final => Shape final base depth)
          (fun fault final => fault.isException = true →
            Shape final base depth)) :
    Ends (onRegistered t program) database
      (fun _ final => Kept database final)
      (fun fault final => fault.isException = true → Kept database final) := by
  unfold onRegistered
  refine ends_bind (ends_of_ok (get_apply database) ?_)
  by_cases registered : t ∈ database.indexList
  · obtain ⟨base, depth, shapes⟩ := uniform.shapes
    obtain ⟨index, found, shape⟩ := shapes t registered
    have kept : ∀ final, Shape final base depth →
        Kept database (database.setIndex t final) := by
      intro final finalShape
      refine ⟨⟨uniform.writable, uniform.nodup, base, depth, ?_⟩, rfl⟩
      intro tested member
      by_cases equal : tested = t
      · subst equal
        exact ⟨final, setIndex_segment_self tested final, finalShape⟩
      · rw [HasShape, setIndex_segment_ne equal]
        exact shapes tested member
    rw [if_pos registered]
    exact ends_onIndex found ((keeps index base depth shape).imp
      (fun _ final => kept final)
      fun _ final holds isException => kept final (holds isException))
  · rw [if_neg registered]
    apply ends_of_error (throw_apply _ _)
    intro isException
    cases isException

/-- Starting the sub-sessions deepens every index by one, and every sub-session
applies. -/
theorem ends_startSubSessions :
    ∀ (targets : List τ) (database : Database F), targets.Nodup →
      (∀ t ∈ targets, database.HasShape t base depth) →
        Ends (startSubSessions targets) database
          (fun sessions final =>
            Reshaped targets base (depth + 1) database final ∧
            sessions.map SubSession.index = targets ∧
            ∀ session ∈ sessions, session.apply = true)
          (fun fault _ => fault.isException = false)
  | [], database, _, _ =>
      ends_pure ⟨⟨rfl, rfl, by simp, fun _ _ => rfl⟩, rfl, by simp⟩
  | t :: rest, database, nodup, shapes => by
      obtain ⟨notInRest, restNodup⟩ := List.nodup_cons.mp nodup
      obtain ⟨index, found, shape⟩ := shapes t List.mem_cons_self
      refine ends_bind (ends_bind (ends_onIndex found
        (shape.ends_start.imp ?_ fun _ _ fault => fault)))
      intro _ started startedShape
      have armed : started.revision ≠ -1 := by
        have revision := startedShape.revision
        have nonneg := startedShape.nonneg
        omega
      -- reading the revision back leaves the database as it is
      refine ends_bind (ends_onIndex (setIndex_segment_self t started)
        (ends_of_ok rfl ?_))
      rw [setIndex_self (setIndex_segment_self t started)]
      refine ends_pure (ends_bind ?_)
      have restShapes : ∀ tested ∈ rest,
          (database.setIndex t started).HasShape tested base depth := by
        intro tested member
        have different : tested ≠ t := fun equal => notInRest (equal ▸ member)
        rw [HasShape, setIndex_segment_ne different]
        exact shapes tested (List.mem_cons_of_mem t member)
      refine (ends_startSubSessions rest _ restNodup restShapes).imp ?_
        fun _ _ fault => fault
      rintro sessions last ⟨later, targets, applies⟩
      refine ends_pure ⟨later.cons notInRest startedShape rfl, ?_, ?_⟩
      · rw [List.map_cons, targets]
        rfl
      · intro session member
        rcases List.mem_cons.mp member with isHead | inRest
        · subst isHead
          exact decide_eq_true armed
        · exact applies session inRest

end Database

end Uniform

/-! ## The client -/

namespace Client

/-- The database is uniform, and the sub-sessions of every session apply to
registered indices. -/
structure Uniform (client : Client F) : Prop where
  database : client.database.Uniform
  sessions : ∀ session ∈ client.sessions,
    ∀ subSession ∈ session.subSessions,
      subSession.apply = true ∧
        subSession.index ∈ client.database.indexList

omit [DecidableEq τ] in
theorem uniform_empty (F : IndexFamily τ) : (Client.empty F).Uniform where
  database := ⟨rfl, List.nodup_nil, 0, 0, by simp [Client.empty, Database.empty]⟩
  sessions := by simp [Client.empty]

variable {client : Client F}

omit [DecidableEq τ] in
/-- The sessions stay as they are when the index list does. -/
theorem Uniform.ends_onDatabase {program : Database.DatabaseM F PUnit}
    (uniform : client.Uniform)
    (ends : Ends program client.database
      (fun _ final => Database.Kept client.database final)
      (fun fault final => fault.isException = true →
        Database.Kept client.database final)) :
    Ends (onDatabase program) client
      (fun _ final => final.Uniform ∧ final.sessions = client.sessions)
      (fun fault final => fault.isException = true → final.Uniform) := by
  have kept : ∀ final, Database.Kept client.database final →
      Uniform { client with database := final } := by
    intro final isKept
    refine ⟨isKept.uniform, ?_⟩
    simp only [isKept.indexList]
    exact uniform.sessions
  exact ends_zoom (ends.imp (fun _ final isKept => ⟨kept final isKept, rfl⟩)
    fun _ final isKept isException => kept final (isKept isException))

theorem Uniform.ends_addIndex {t : τ} (uniform : client.Uniform)
    (isNew : client.database.segment t = none) :
    Ends (onDatabase (Database.addIndex t)) client
      (fun _ final => final.Uniform)
      (fun fault final => fault.isException = true → final.Uniform) := by
  obtain ⟨base, depth, shapes⟩ := uniform.database.shapes
  have unregistered : t ∉ client.database.indexList := by
    intro registered
    obtain ⟨index, found, _⟩ := shapes t registered
    rw [isNew] at found
    cases found
  have added : ∃ base depth final,
      Database.addIndex t client.database = .ok ⟨⟩ final ∧
        Database.Registered t base depth client.database final ∧
        ∀ other ∈ client.database.indexList,
          client.database.HasShape other base depth := by
    cases isList : client.database.indexList with
    | nil =>
        obtain ⟨final, success, _, ofNew⟩ :=
          Database.addIndex_first (t := t) isList uniform.database.writable
        exact ⟨0, 0, final, success, ofNew isNew, by simp⟩
    | cons front rest =>
        obtain ⟨final, success, registered⟩ :=
          Database.addIndex_new isList uniform.database.writable
            (shapes front (by simp [isList])) isNew unregistered
        exact ⟨base, depth, final, success, registered, isList ▸ shapes⟩
  obtain ⟨base', depth', final, success, registered, sameShapes⟩ := added
  refine ends_zoom (ends_of_ok success ⟨⟨?_, ?_, base', depth', ?_⟩, ?_⟩)
  · exact registered.readOnly.trans uniform.database.writable
  · rw [registered.indexList, List.nodup_append]
    refine ⟨uniform.database.nodup, List.nodup_singleton t, ?_⟩
    intro left leftMember right rightMember equal
    rw [List.mem_singleton] at rightMember
    exact unregistered (rightMember ▸ equal ▸ leftMember)
  · intro tested member
    rw [registered.indexList, List.mem_append, List.mem_singleton] at member
    by_cases equal : tested = t
    · exact equal ▸ registered.shape
    · rw [Database.HasShape, registered.others tested equal]
      exact sameShapes tested (member.resolve_right equal)
  · intro session member subSession subMember
    obtain ⟨applies, known⟩ :=
      uniform.sessions session member subSession subMember
    refine ⟨applies, ?_⟩
    rw [registered.indexList]
    exact List.mem_append_left [t] known

theorem Uniform.ends_startUndoSession (uniform : client.Uniform) :
    Ends startUndoSession client (fun _ final => final.Uniform)
      (fun fault final => fault.isException = true → final.Uniform) := by
  obtain ⟨base, depth, shapes⟩ := uniform.database.shapes
  refine ends_bind (ends_zoom ?_)
  unfold Database.startUndoSession
  refine ends_bind (ends_of_ok (get_apply _) (ends_bind ?_))
  refine (Database.ends_startSubSessions _ _ uniform.database.nodup
    shapes).imp ?_ ?_
  · rintro sessions final ⟨reshaped, targets, applies⟩
    have kept := reshaped.kept uniform.database
    refine ends_pure ⟨kept.uniform, ?_⟩
    intro session member subSession subMember
    simp only [kept.indexList]
    rcases List.mem_cons.mp member with isNew | isOld
    · subst isNew
      refine ⟨applies subSession subMember, ?_⟩
      rw [← targets]
      exact List.mem_map_of_mem subMember
    · exact uniform.sessions session isOld subSession subMember
  · intro fault final isNone isSome
    rw [isNone] at isSome
    cases isSome

/-- Ending a session that covers the indices keeps the database uniform. -/
theorem Uniform.ends_forSubSessions {session : DatabaseSession τ}
    {program : (t : τ) → IndexM (F.indexType t) PUnit}
    {position : Nat} (uniform : client.Uniform)
    (isSession : client.sessions[position]? = some session)
    (covers : DatabaseCall.Covers client position)
    (reshapes : ∀ base depth, ∃ base' depth',
      ∀ (t : τ) (index : GenericIndex (F.indexType t)),
        Shape index base depth →
          Ends (program t) index
            (fun _ final => Shape final base' depth')
            (fun fault _ => fault.isException = false))
    (unchanged : ∀ (t : τ) (index : GenericIndex (F.indexType t)),
      index.stack = [] → program t index = .ok ⟨⟩ index) :
    Ends (Database.forSubSessions program session.subSessions)
      client.database
      (fun _ final => Database.Kept client.database final)
      (fun fault final => fault.isException = true →
        Database.Kept client.database final) := by
  have known := uniform.sessions session (List.mem_of_getElem? isSession)
  rw [Database.forSubSessions_eq fun subSession member =>
    (known subSession member).1]
  rcases covers session isSession with ended | covered | flat
  · rw [ended]
    exact ends_pure uniform.database.kept
  · rw [covered]
    exact uniform.database.ends_forIndices reshapes
  · refine ends_of_ok (Database.forIndices_unchanged ?_) uniform.database.kept
    intro t member
    obtain ⟨subSession, subMember, rfl⟩ := List.mem_map.mp member
    obtain ⟨base, depth, shapes⟩ := uniform.database.shapes
    have registered := (known subSession subMember).2
    obtain ⟨index, found, _⟩ := shapes subSession.index registered
    have noStates : index.stack = [] :=
      List.eq_nil_of_length_eq_zero
        (flat subSession.index registered index found)
    exact ⟨index, found, unchanged subSession.index index noStates⟩

omit [DecidableEq τ] in
theorem Uniform.ends_onSession {position : Nat}
    {program : DatabaseSession τ → Database.DatabaseM F PUnit}
    (uniform : client.Uniform)
    (ends : ∀ session, client.sessions[position]? = some session →
      Ends (program session) client.database
        (fun _ final => Database.Kept client.database final)
        (fun fault final => fault.isException = true →
          Database.Kept client.database final)) :
    Ends (onSession position program) client
      (fun _ final => final.Uniform)
      (fun fault final => fault.isException = true → final.Uniform) := by
  refine ends_bind (ends_of_ok (get_apply client) ?_)
  cases isSession : client.sessions[position]? with
  | none => exact ends_of_error (throw_apply _ _) nofun
  | some session =>
      refine ends_bind ((uniform.ends_onDatabase (ends session isSession)).imp
        ?_ fun _ _ holds => holds)
      rintro _ middle ⟨isUniform, sameSessions⟩
      refine ends_bind (ends_of_ok (get_apply middle)
        (ends_of_ok (set_apply _ middle) ⟨isUniform.database, ?_⟩))
      intro tested member subSession subMember
      rcases List.mem_or_eq_of_mem_set member with isOld | isCleared
      · exact isUniform.sessions tested isOld subSession subMember
      · subst isCleared
        cases subMember

end Client

/-! ## Runs -/

omit [DecidableEq τ] in
theorem undo_reshapes (base : Int) (depth : Nat) :
    ∃ base' depth', ∀ (t : τ) (index : GenericIndex (F.indexType t)),
      Shape index base depth →
        Ends GenericIndex.undo index
          (fun _ final => Shape final base' depth')
          (fun fault _ => fault.isException = false) :=
  ⟨base, depth - 1, fun _ _ shape => shape.ends_undo⟩

omit [DecidableEq τ] in
theorem squash_reshapes (ndebug : Bool) (base : Int) (depth : Nat) :
    ∃ base' depth', ∀ (t : τ) (index : GenericIndex (F.indexType t)),
      Shape index base depth →
        Ends (GenericIndex.squash ndebug) index
          (fun _ final => Shape final base' depth')
          (fun fault _ => fault.isException = false) :=
  ⟨base, depth - 1, fun _ _ shape => shape.ends_squash ndebug⟩

/-- One covered call. -/
theorem uniform_step {ndebug : Bool} {client next : Client F}
    {call : DatabaseCall F} (uniform : client.Uniform)
    (covered : call.Covered client)
    (stepped : call.step ndebug client = some next) :
    next.Uniform := by
  refine survive_of_ends Client.Uniform ?_ stepped
  -- most calls are loops over the index list, which the sessions outlive
  have ofDatabase : ∀ {program : Database.DatabaseM F PUnit},
      Ends program client.database
        (fun _ final => Database.Kept client.database final)
        (fun fault final => fault.isException = true →
          Database.Kept client.database final) →
        Ends (Client.onDatabase program) client
          (fun _ final => final.Uniform)
          (fun fault final => fault.isException = true → final.Uniform) :=
    fun ends => (uniform.ends_onDatabase ends).imp (fun _ _ holds => holds.1)
      fun _ _ holds => holds
  have noException : ∀ {T : IndexType} {base : Int} {depth : Nat}
      (fault : Fault) (final : GenericIndex T), fault.isException = false →
        fault.isException = true → Shape final base depth := by
    intro T base depth fault final isNone isSome
    rw [isNone] at isSome
    cases isSome
  cases call with
  | addIndex t => exact uniform.ends_addIndex covered
  | startUndoSession => exact uniform.ends_startUndoSession
  | sessionPush position =>
      exact uniform.ends_onSession fun _ _ => ends_pure uniform.database.kept
  | sessionSquash position =>
      exact uniform.ends_onSession fun _ isSession =>
        uniform.ends_forSubSessions isSession covered (squash_reshapes ndebug)
          fun _ _ => squash_apply_nil
  | sessionUndo position =>
      exact uniform.ends_onSession fun _ isSession =>
        uniform.ends_forSubSessions isSession covered undo_reshapes
          fun _ _ => undo_apply_nil
  | sessionDestroy position =>
      refine ends_bind ((uniform.ends_onSession fun _ isSession =>
        uniform.ends_forSubSessions isSession covered undo_reshapes
          fun _ _ => undo_apply_nil).imp ?_ fun _ _ holds => holds)
      intro _ middle isUniform
      refine ends_of_ok rfl ⟨isUniform.database, ?_⟩
      intro session member
      exact isUniform.sessions session (List.mem_of_mem_eraseIdx member)
  | undo => exact ofDatabase (uniform.database.ends_forIndices undo_reshapes)
  | squash =>
      exact ofDatabase
        (uniform.database.ends_forIndices (squash_reshapes ndebug))
  | commit revision =>
      exact ofDatabase (uniform.database.ends_forIndices fun _ _ =>
        ⟨_, _, fun _ _ shape => shape.ends_commit revision⟩)
  | undoAll =>
      exact ofDatabase (uniform.database.ends_forIndices fun _ _ =>
        ⟨_, _, fun _ _ shape => shape.ends_undoAll⟩)
  | setRevision revision =>
      exact ofDatabase (uniform.database.ends_setRevision revision)
  | create t value =>
      exact ofDatabase (uniform.database.ends_onRegistered fun _ _ _ shape =>
        (shape.ends_emplace value).imp (fun _ _ holds => holds)
          fun _ _ holds _ => holds)
  | modify t id modifier =>
      exact ofDatabase (uniform.database.ends_onRegistered fun _ _ _ shape =>
        (shape.ends_modify id modifier).imp (fun _ _ holds => holds)
          noException)
  | remove t id =>
      exact ofDatabase (uniform.database.ends_onRegistered fun _ _ _ shape =>
        (shape.ends_remove id).imp (fun _ _ holds => holds) noException)

/-- In every run from an empty database in which only new index types are
added and every session that is ended covers the registered indices, all
registered indices have the same revision range. -/
theorem revisionRange_agrees {ndebug : Bool} {calls : List (DatabaseCall F)}
    {client : Client F}
    (covered : Runs.AllowedFrom (DatabaseCall.step ndebug)
      (fun client call => call.Covered client) (Client.empty F) calls)
    (reached : Runs.run (DatabaseCall.step ndebug) (Client.empty F) calls =
      some client) :
    ∀ left ∈ client.database.indexList, ∀ right ∈ client.database.indexList,
      client.database.revisionRange left =
        client.database.revisionRange right := by
  have uniform : client.Uniform :=
    Runs.run_preserves Client.Uniform
      (fun _ _ _ holds allowed stepped => uniform_step holds allowed stepped)
      (Client.uniform_empty F) covered reached
  obtain ⟨base, depth, shapes⟩ := uniform.database.shapes
  intro left leftMember right rightMember
  rw [(shapes left leftMember).range, (shapes right rightMember).range]

/-- An index is added inside a session and the session is pushed; a later
session is undone. -/
def pushedSessionCalls : List (DatabaseCall eosDbTables) :=
  [.addIndex .tableId, .startUndoSession, .addIndex .keyValue, .sessionPush 0,
    .startUndoSession, .create .keyValue ⟨1, 1, 1, ⟨7⟩, []⟩, .sessionUndo 0]

theorem revisionRange_agrees_pushedSession :
    ∃ client,
      Runs.run (DatabaseCall.step false) (Client.empty eosDbTables)
        pushedSessionCalls = some client ∧
      client.database.indexList = [.tableId, .keyValue] ∧
      client.database.revisionRange .tableId = some (0, 1) ∧
      ∀ left ∈ client.database.indexList,
        ∀ right ∈ client.database.indexList,
          client.database.revisionRange left =
            client.database.revisionRange right := by
  have covered : Runs.AllowedFrom (DatabaseCall.step false)
      (fun client call => call.Covered client) (Client.empty eosDbTables)
      pushedSessionCalls := by
    decide +kernel
  have reached : ((Runs.run (DatabaseCall.step false)
      (Client.empty eosDbTables) pushedSessionCalls).map fun client =>
        (client.database.indexList,
          client.database.revisionRange .tableId)) =
      some ([.tableId, .keyValue], some (0, 1)) := by
    decide +kernel
  obtain ⟨client, finished, agrees⟩ := Option.map_eq_some_iff.mp reached
  rw [Prod.mk.injEq] at agrees
  exact ⟨client, finished, agrees.1, agrees.2,
    revisionRange_agrees covered finished⟩

/-- A session that was started before an index was added leaves its undo state
on that index. -/
theorem revisionRange_differs :
    (Runs.run (DatabaseCall.step false) (Client.empty eosDbTables)
      [.addIndex .tableId, .startUndoSession, .addIndex .keyValue,
        .sessionUndo 0]).map (fun client =>
      (client.database.indexList, client.database.revisionRange .tableId,
        client.database.revisionRange .keyValue)) =
    some ([.tableId, .keyValue], some (0, 0), some (0, 1)) := by
  decide +kernel

end StateDatabase
