import Mathlib
import StateDatabase.DatabaseSnapshots

/-!
# Sessions in scopes

A session is a local object.  At the end of its scope its destructor undoes it,
also when an exception leaves the scope, unless `squash` or `undo` came first.
Scripts are programs with such scopes, inside each other and with exceptions
that are thrown and caught.  A scope is a transaction: its changes stay when it
squashes its session, and there is no trace of them otherwise.
-/

namespace StateDatabase

open Programs GenericIndex Snapshots

variable {τ : Type} [DecidableEq τ] {F : IndexFamily τ}

/-! ## Scripts -/

/-- The calls on rows. -/
inductive RowWrite (F : IndexFamily τ) where
  | create (t : τ) (value : (F.indexType t).Value)
  | modify (t : τ) (id : (F.indexType t).Id)
      (modifier : (F.indexType t).Value → (F.indexType t).Value)
  | remove (t : τ) (id : (F.indexType t).Id)

def RowWrite.onDatabase : RowWrite F → DatabaseCall F
  | .create t value => .create t value
  | .modify t id modifier => .modify t id modifier
  | .remove t id => .remove t id

/-- What a scope does to its session before it ends. -/
inductive Ending where
  | squash
  | undo
  | leave
deriving DecidableEq

inductive Script (F : IndexFamily τ) where
  | row (call : RowWrite F)
  | throw (message : String)
  | seq (first second : Script F)
  /-- `try { … } catch (...) {}` -/
  | attempt (body : Script F)
  /-- `{ auto session = db.start_undo_session(enabled); … }` -/
  | scope (enabled : Bool) (body : Script F) (ending : Ending)

/-! ## What the program does -/

namespace Client

/-- Exceptions end here. -/
def attempt (body : ClientM F PUnit) : ClientM F PUnit := fun client =>
  match body client with
  | .ok _ final => .ok ⟨⟩ final
  | .error fault final =>
      if fault.isException then .ok ⟨⟩ final else .error fault final

/-- A destructor must not throw. -/
def destructor (body : ClientM F PUnit) : ClientM F PUnit := fun client =>
  match body client with
  | .ok _ final => .ok ⟨⟩ final
  | .error fault final =>
      .error (if fault.isException then .abort else fault) final

/-- A destructor runs at the end of the scope, and before an exception goes
on. -/
def guarded (body cleanup : ClientM F PUnit) : ClientM F PUnit := fun client =>
  match body client with
  | .ok _ final => destructor cleanup final
  | .error fault final =>
      if fault.isException then
        match destructor cleanup final with
        | .ok _ last => .error fault last
        | .error other last => .error other last
      else .error fault final

/-- `start_undo_session(enabled)`: a session that is not enabled has no
sub-sessions. -/
def startSession (enabled : Bool) : ClientM F PUnit := do
  if enabled then
    startUndoSession
  else
    let client ← get
    set { client with
      sessions := { subSessions := [], revision := -1 } :: client.sessions }

/-- The newest session goes out of scope. -/
def destroyNewest : ClientM F PUnit := do
  onSession 0 Database.sessionUndo
  dropSession 0

end Client

def Ending.program (ndebug : Bool) : Ending → Client.ClientM F PUnit
  | .squash => Client.onSession 0 (Database.sessionSquash ndebug)
  | .undo => Client.onSession 0 Database.sessionUndo
  | .leave => pure ⟨⟩

namespace Script

def program (ndebug : Bool) : Script F → Client.ClientM F PUnit
  | .row call => call.onDatabase.program ndebug
  | .throw message => MonadExcept.throw (.runtimeError message)
  | .seq first second => do
      first.program ndebug
      second.program ndebug
  | .attempt body => Client.attempt (body.program ndebug)
  | .scope enabled body ending => do
      Client.startSession enabled
      Client.guarded (do body.program ndebug; ending.program ndebug)
        Client.destroyNewest

end Script

/-! ## What it means -/

/-- The rows afterwards, and whether an exception was thrown. -/
abbrev ScriptOutcome (F : IndexFamily τ) := Bool × DatabaseRows F

def RowWrite.meaning (rows : DatabaseRows F) : RowWrite F → ScriptOutcome F
  | .create t value =>
      match (rows t).emplace value with
      | none => (true, rows)
      | some inserted => (false, Function.update rows t inserted)
  | .modify t id modifier =>
      match (rows t).find id with
      | none => (false, rows)
      | some value =>
          match (rows t).modify id (modifier value) with
          | none => (false, rows)
          | some modified => (false, Function.update rows t modified)
  | .remove t id => (false, Function.update rows t ((rows t).erase id))

/-- The rows that an enabled scope leaves when its body returns. -/
def Ending.kept (before after : DatabaseRows F) : Ending → DatabaseRows F
  | .squash => after
  | .undo => before
  | .leave => before

namespace Script

/-- A transaction language: no sessions and no undo states. -/
def meaning : Script F → DatabaseRows F → ScriptOutcome F
  | .row call, rows => call.meaning rows
  | .throw _, rows => (true, rows)
  | .seq first second, rows =>
      let middle := first.meaning rows
      if middle.1 then middle else second.meaning middle.2
  | .attempt body, rows => (false, (body.meaning rows).2)
  | .scope false body _, rows => body.meaning rows
  | .scope true body ending, rows =>
      let final := body.meaning rows
      if final.1 then (true, rows) else (false, ending.kept rows final.2)

/-! ## What a script may do -/

/-- The condition holds where the program returns. -/
def Then (program : Client.ClientM F PUnit) (client : Client F)
    (condition : Client F → Prop) : Prop :=
  match program client with
  | .ok _ final => condition final
  | .error _ _ => True

/-- Rows are changed as on one index, revisions do not overflow, and an enabled
scope squashes its session only where every index can be squashed. -/
def Allowed (ndebug : Bool)
    (keeps : (t : τ) → (F.indexType t).Value → (F.indexType t).Value → Prop)
    (squashable : (t : τ) → GenericIndex (F.indexType t) → Prop) :
    Script F → Client F → Prop
  | .row call, client => call.onDatabase.Permitted keeps squashable client
  | .throw _, _ => True
  | .seq first second, client =>
      first.Allowed ndebug keeps squashable client ∧
        Then (first.program ndebug) client
          (second.Allowed ndebug keeps squashable)
  | .attempt body, client => body.Allowed ndebug keeps squashable client
  | .scope enabled body ending, client =>
      (enabled = true → ∀ t ∈ client.database.indexList,
        (client.database.index t).revision < int64Max) ∧
      Then (Client.startSession enabled) client fun started =>
        body.Allowed ndebug keeps squashable started ∧
        (enabled = true → ending = .squash →
          Then (body.program ndebug) started fun final =>
            ∀ t ∈ final.database.indexList,
              squashable t (final.database.index t))

end Script

/-! ## Rows -/

namespace Client

variable {client : Client F} {copying : CopyingClient F}

omit [DecidableEq τ] in
theorem onDatabase_ok {α : Type} {program : Database.DatabaseM F α} {value : α}
    {final : Client F} (returned : onDatabase program client = .ok value final) :
    ∃ database, program client.database = .ok value database ∧
      final = { client with database := database } := by
  cases ran : program client.database with
  | ok result database =>
      simp only [onDatabase, zoom, ran, EStateM.Result.ok.injEq] at returned
      exact ⟨database, by rw [returned.1], returned.2.symm⟩
  | error fault database =>
      simp only [onDatabase, zoom, ran] at returned
      cases returned

omit [DecidableEq τ] in
/-- Only the sub-sessions of the session that is ended go away. -/
theorem onSession_sessions {position : Nat} {session : DatabaseSession τ}
    {program : DatabaseSession τ → Database.DatabaseM F PUnit} {final : Client F}
    (isSession : client.sessions[position]? = some session)
    (returned : onSession position program client = .ok ⟨⟩ final) :
    final.sessions = client.sessions.set position session.clear := by
  unfold onSession at returned
  rw [bind_apply_of_ok _ (get_apply client)] at returned
  simp only [isSession] at returned
  rcases bind_apply_ok returned with ⟨_, middle, ran, later⟩
  rcases onDatabase_ok ran with ⟨database, _, rfl⟩
  cases later
  rfl

/-- A call that does not end the process leaves what the store with copies
has. -/
theorem Mirrors.ends_call (ndebug : Bool) (call : DatabaseCall F)
    (mirrors : client.Mirrors copying) (proper : Proper client call) :
    Ends (call.program ndebug) client
      (fun _ final => final.Mirrors (call.reference copying))
      (fun fault final => fault.isException = true ∧
        final.Mirrors (call.reference copying)) := by
  have follows := mirrors_step ndebug client copying call mirrors proper
  rcases follows with ⟨next, stepped, related⟩
  unfold DatabaseCall.step at stepped
  cases ran : call.program ndebug client with
  | ok value final =>
      rw [ran] at stepped
      cases stepped
      exact ends_of_ok ran related
  | error fault final =>
      rw [ran] at stepped
      by_cases isException : fault.isException = true
      · simp only [survive, if_pos isException, Option.some.injEq] at stepped
        exact ends_of_error ran ⟨isException, stepped ▸ related⟩
      · simp only [survive, if_neg isException] at stepped
        cases stepped

/-- The program leaves the rows of the outcome, and no other trace. -/
structure Leaves (client : Client F) (copying : CopyingClient F)
    (rows : DatabaseRows F) (final : Client F) : Prop where
  mirrors : final.Mirrors
    { copying with history := copying.history.change rows }
  sessions : final.sessions = client.sessions

/-- The program throws exactly when the outcome says so. -/
def Yields (program : ClientM F PUnit) (client : Client F)
    (copying : CopyingClient F) (outcome : ScriptOutcome F) : Prop :=
  Ends program client
    (fun _ final => outcome.1 = false ∧
      client.Leaves copying outcome.2 final)
    (fun fault final => fault.isException = true ∧ outcome.1 = true ∧
      client.Leaves copying outcome.2 final)

/-- How a program on one registered index ends. -/
theorem onRegistered_ends {t : τ} {program : IndexM (F.indexType t) PUnit}
    {index : GenericIndex (F.indexType t)} {thrown : Bool}
    (member : t ∈ client.database.indexList)
    (found : client.database.segment t = some index)
    (ends : Ends program index (fun _ _ => thrown = false)
      (fun _ _ => thrown = true)) :
    Ends (onDatabase (Database.onRegistered t program)) client
      (fun _ final => thrown = false ∧ final.sessions = client.sessions)
      (fun _ final => thrown = true ∧ final.sessions = client.sessions) := by
  refine ends_zoom ?_
  unfold Database.onRegistered
  refine ends_bind (ends_of_ok (get_apply _) ?_)
  rw [if_pos member]
  exact Database.ends_onIndex found (ends.imp (fun _ _ holds => ⟨holds, rfl⟩)
    fun _ _ holds => ⟨holds, rfl⟩)

/-- A call on rows yields what it leaves on its index. -/
theorem Mirrors.yields_of_index {ndebug : Bool} {call : DatabaseCall F} {t : τ}
    {program : IndexM (F.indexType t) PUnit}
    {index : GenericIndex (F.indexType t)} {thrown : Bool}
    {rows : DatabaseRows F} (mirrors : client.Mirrors copying)
    (proper : Proper client call)
    (isProgram : call.program ndebug =
      onDatabase (Database.onRegistered t program))
    (isReference : call.reference copying =
      { copying with history := copying.history.change rows })
    (member : t ∈ client.database.indexList)
    (found : client.database.segment t = some index)
    (ends : Ends program index (fun _ _ => thrown = false)
      (fun _ _ => thrown = true)) :
    Yields (call.program ndebug) client copying (thrown, rows) := by
  have left := mirrors.ends_call ndebug _ proper
  rw [isReference] at left
  have onIndex := onRegistered_ends member found ends
  rw [← isProgram] at onIndex
  refine (left.and onIndex).imp ?_ ?_
  · intro _ final holds
    exact ⟨holds.2.1, holds.1, holds.2.2⟩
  · intro fault final holds
    exact ⟨holds.1.1, holds.2.1, holds.1.2, holds.2.2⟩

/-- What a permitted call on rows does is what it means. -/
theorem Mirrors.row_yields {ndebug : Bool} (call : RowWrite F)
    (mirrors : client.Mirrors copying)
    (permitted : call.onDatabase.Permitted
      (fun t => (F.indexType t).Interchangeable) (fun _ => SquashSafe) client) :
    Yields (call.onDatabase.program ndebug) client copying
      (call.meaning copying.history.current) := by
  cases call with
  | create t value =>
      have member : t ∈ client.database.indexList := permitted
      rcases mirrors.database.registered t member with ⟨index, found, represents⟩
      have rows : index.indices = copying.history.current t := represents.rows
      simp only [RowWrite.meaning]
      cases attempt : (copying.history.current t).emplace value with
      | none =>
          have refused := emplace_apply_none (rows ▸ attempt)
          exact mirrors.yields_of_index ⟨trivial, permitted⟩ rfl
            (by simp only [RowWrite.onDatabase, DatabaseCall.reference, attempt]; rfl)
            member found (ends_of_error refused rfl)
      | some inserted =>
          have stored := emplace_apply_some (rows ▸ attempt)
          exact mirrors.yields_of_index ⟨trivial, permitted⟩ rfl
            (by simp only [RowWrite.onDatabase, DatabaseCall.reference, attempt]; rfl)
            member found (ends_of_ok stored rfl)
  | modify t id modifier =>
      rcases permitted with ⟨member, value, isRow, keeps⟩
      rcases mirrors.database.registered t member with ⟨index, found, represents⟩
      have rows : index.indices = copying.history.current t := represents.rows
      rw [Database.index, found, Option.getD_some] at isRow
      rcases modify_of_interchangeable isRow keeps with ⟨modified, success, _⟩
      have ran := modify_apply_some isRow success
      rw [rows] at isRow success
      simp only [RowWrite.meaning, isRow, success]
      refine mirrors.yields_of_index ⟨trivial, ?_⟩ rfl
        (by simp only [RowWrite.onDatabase, DatabaseCall.reference, isRow, success]; rfl)
        member found (ends_of_ok ran rfl)
      refine ⟨member, value, ?_, keeps⟩
      rw [Database.index, found, Option.getD_some, rows, isRow]
  | remove t id =>
      rcases permitted with ⟨member, isRow⟩
      rcases mirrors.database.registered t member with ⟨index, found, represents⟩
      have isStored := isRow
      rw [Database.index, found, Option.getD_some] at isStored
      rcases Option.ne_none_iff_exists'.mp isStored with ⟨value, isValue⟩
      exact mirrors.yields_of_index ⟨trivial, member, isRow⟩ rfl rfl member found
        (ends_of_ok (remove_apply isValue) rfl)

/-! ## Scopes -/

section Scopes

variable {session : DatabaseSession τ} {older : List (DatabaseSession τ)}

/-- A session that is started knows all indices. -/
theorem Mirrors.startsScope (mirrors : client.Mirrors copying)
    (someTable : copying.tables ≠ [])
    (bounded : ∀ t ∈ client.database.indexList,
      (client.database.index t).revision < int64Max) :
    ∃ started session, Client.startSession true client = .ok ⟨⟩ started ∧
      started.Mirrors { copying with
        history := copying.history.start
        sessions := true :: copying.sessions } ∧
      started.sessions = session :: client.sessions ∧
      session.subSessions.map SubSession.index = copying.tables := by
  have nodup := mirrors.uniform.database.nodup
  have someIndex : client.database.indexList ≠ [] := by rwa [mirrors.tables]
  rcases mirrors.database.started nodup someIndex bounded with ⟨database, ran, _⟩
  rcases Database.startSubSessions_of_forIndices ran with ⟨sessions, started⟩
  rcases mirrors.uniform.database.shapes with ⟨base, depth, shapes⟩
  have targets := ((Database.ends_startSubSessions _ _ nodup shapes).of_ok
    started).2.1
  have returned : Client.startUndoSession client = .ok ⟨⟩
      { database := database
        sessions := .ofSubSessions sessions :: client.sessions } := by
    have onDatabase : Client.onDatabase Database.startUndoSession client =
        .ok (.ofSubSessions sessions) { client with database := database } := by
      simp only [Client.onDatabase, zoom]
      rw [Database.startUndoSession, bind_apply_of_ok _ (get_apply _),
        bind_apply_of_ok _ started]
      rfl
    rw [Client.startUndoSession, bind_apply_of_ok _ onDatabase]
    rfl
  have left := (mirrors.ends_call false .startUndoSession
    ⟨trivial, bounded⟩).of_ok returned
  simp only [DatabaseCall.reference, if_neg someTable] at left
  exact ⟨_, _, returned, left, rfl, targets.trans mirrors.tables⟩

omit [DecidableEq τ] in
theorem Mirrors.covers (mirrors : client.Mirrors copying)
    (isNewest : client.sessions = session :: older)
    (knows : session.subSessions = [] ∨
      session.subSessions.map SubSession.index = copying.tables) :
    DatabaseCall.Covers client 0 := by
  intro found isFound
  simp only [isNewest, List.getElem?_cons_zero, Option.mem_some_iff] at isFound
  subst isFound
  rcases knows with ended | all
  · exact Or.inl ended
  · exact Or.inr (Or.inl (by rw [all, mirrors.tables]))

/-- The newest session goes out of scope. -/
theorem Mirrors.destroysNewest (mirrors : client.Mirrors copying)
    (isNewest : client.sessions = session :: older)
    (knows : session.subSessions = [] ∨
      session.subSessions.map SubSession.index = copying.tables) :
    ∃ final, destroyNewest client = .ok ⟨⟩ final ∧
      final.Mirrors ((DatabaseCall.sessionDestroy 0).reference copying) ∧
      final.sessions = older := by
  have covers := mirrors.covers isNewest knows
  have isSession : client.sessions[0]? = some session := by simp [isNewest]
  rcases mirrors.undoSession isSession covers with ⟨next, ended, _⟩
  have sessions := onSession_sessions isSession ended
  have returned : destroyNewest client =
      .ok ⟨⟩ { next with sessions := next.sessions.eraseIdx 0 } := by
    rw [destroyNewest, bind_apply_of_ok _ ended]
    rfl
  have inside : 0 < client.sessions.length := by simp [isNewest]
  have left := (mirrors.ends_call false (.sessionDestroy 0)
    ⟨covers, inside⟩).of_ok returned
  exact ⟨_, returned, left, by simp [sessions, isNewest]⟩

/-- The store with copies inside a scope whose body has left these rows. -/
def inScope (copying : CopyingClient F) (rows : DatabaseRows F) :
    CopyingClient F :=
  { copying with
    history := copying.history.start.change rows
    sessions := true :: copying.sessions }

/-- Without `squash` the destructor puts everything back. -/
theorem Mirrors.leavesScope {final : Client F} {rows : DatabaseRows F}
    (mirrors : final.Mirrors (inScope copying rows))
    (isNewest : final.sessions = session :: client.sessions)
    (knows : session.subSessions.map SubSession.index = copying.tables) :
    ∃ last, destroyNewest final = .ok ⟨⟩ last ∧
      client.Leaves copying copying.history.current last := by
  rcases mirrors.destroysNewest isNewest (Or.inr knows) with
    ⟨last, destroyed, left, sessions⟩
  simp only [DatabaseCall.reference, CopyingClient.endSession, inScope,
    List.getElem?_cons_zero, if_true, History.undo_change_start] at left
  exact ⟨last, destroyed, left, sessions⟩

variable (copying) in
/-- A session that has ended, or was never enabled, has nothing to undo. -/
theorem Mirrors.leavesEnded {final : Client F} {rows : DatabaseRows F}
    (mirrors : final.Mirrors
      { copying with
        history := copying.history.change rows
        sessions := false :: copying.sessions })
    (isNewest : final.sessions = session :: client.sessions)
    (noSessions : session.subSessions = []) :
    ∃ last, destroyNewest final = .ok ⟨⟩ last ∧
      client.Leaves copying rows last := by
  rcases mirrors.destroysNewest isNewest (Or.inl noSessions) with
    ⟨last, destroyed, left, sessions⟩
  simp [DatabaseCall.reference, CopyingClient.endSession] at left
  exact ⟨last, destroyed, left, sessions⟩

/-- The ending and the destructor after a body that returns. -/
theorem Mirrors.endsScope {ndebug : Bool} {final : Client F}
    {rows : DatabaseRows F} (ending : Ending)
    (mirrors : final.Mirrors (inScope copying rows))
    (isNewest : final.sessions = session :: client.sessions)
    (knows : session.subSessions.map SubSession.index = copying.tables)
    (squashable : ending = .squash → ∀ t ∈ final.database.indexList,
      SquashSafe (final.database.index t)) :
    ∃ ended last, ending.program ndebug final = .ok ⟨⟩ ended ∧
      destroyNewest ended = .ok ⟨⟩ last ∧
      client.Leaves copying
        (ending.kept copying.history.current rows) last := by
  have covers := mirrors.covers isNewest (Or.inr knows)
  have isSession : final.sessions[0]? = some session := by simp [isNewest]
  have inside : 0 < final.sessions.length := by simp [isNewest]
  cases ending with
  | squash =>
      have safe := squashable rfl
      rcases mirrors.squashSession isSession covers safe with
        ⟨ended, ran, _⟩
      have left := (mirrors.ends_call ndebug (.sessionSquash 0)
        ⟨covers, inside, safe⟩).of_ok ran
      have sessions := onSession_sessions isSession ran
      simp only [DatabaseCall.reference, CopyingClient.endSession, inScope,
        List.getElem?_cons_zero, if_true, History.squash_change_start] at left
      rw [isNewest] at sessions
      rcases left.leavesEnded copying sessions rfl with ⟨last, destroyed, leaves⟩
      exact ⟨ended, last, ran, destroyed, leaves⟩
  | undo =>
      rcases mirrors.undoSession isSession covers with ⟨ended, ran, _⟩
      have left := (mirrors.ends_call ndebug (.sessionUndo 0)
        ⟨covers, inside⟩).of_ok ran
      have sessions := onSession_sessions isSession ran
      simp only [DatabaseCall.reference, CopyingClient.endSession, inScope,
        List.getElem?_cons_zero, if_true, History.undo_change_start] at left
      rw [isNewest] at sessions
      rcases left.leavesEnded copying sessions rfl
        with ⟨last, destroyed, leaves⟩
      exact ⟨ended, last, ran, destroyed, leaves⟩
  | leave =>
      rcases mirrors.leavesScope isNewest knows with ⟨last, destroyed, leaves⟩
      exact ⟨final, last, rfl, destroyed, leaves⟩

/-- A session that is not enabled is not seen by the database. -/
theorem Mirrors.startsDisabled (mirrors : client.Mirrors copying) :
    ∃ started session, Client.startSession false client = .ok ⟨⟩ started ∧
      started.Mirrors { copying with sessions := false :: copying.sessions } ∧
      started.sessions = session :: client.sessions ∧
      session.subSessions = [] := by
  have uniform : ∀ session ∈
      ({ subSessions := [], revision := -1 } : DatabaseSession τ) ::
        client.sessions, ∀ subSession ∈ session.subSessions,
          subSession.apply = true ∧
            subSession.index ∈ client.database.indexList := by
    intro session member
    rcases List.mem_cons.mp member with isNew | isOld
    · simp [isNew]
    · exact mirrors.uniform.sessions session isOld
  exact ⟨_, _, rfl, ⟨⟨mirrors.uniform.database, uniform⟩, mirrors.tables,
    mirrors.database, by simp [isOpen, mirrors.sessions]⟩, rfl, rfl⟩

/-- Ending a session without sub-sessions does nothing. -/
theorem ending_disabled (ndebug : Bool) (ending : Ending)
    (isNewest : client.sessions = session :: older)
    (noSessions : session.subSessions = []) :
    ending.program ndebug client = .ok ⟨⟩ client := by
  have isSession : client.sessions[0]? = some session := by simp [isNewest]
  have cleared : session.clear = session := by
    rw [DatabaseSession.clear, ← noSessions]
  have ends : ∀ {program : DatabaseSession τ → Database.DatabaseM F PUnit},
      program session = pure ⟨⟩ →
        onSession 0 program client = .ok ⟨⟩ client := by
    intro program isNothing
    unfold onSession
    rw [bind_apply_of_ok _ (get_apply client)]
    simp only [isSession, isNothing]
    -- the empty program leaves the database as it is
    have same : client.sessions.set 0 session.clear = client.sessions := by
      simp [isNewest, cleared]
    change EStateM.Result.ok PUnit.unit
      { client with sessions := client.sessions.set 0 session.clear } = _
    rw [same]
  cases ending with
  | squash => exact ends (by rw [Database.sessionSquash, noSessions]; rfl)
  | undo => exact ends (by rw [Database.sessionUndo, noSessions]; rfl)
  | leave => rfl

end Scopes

omit [DecidableEq τ] in
/-- How a guarded body ends when its destructor returns. -/
theorem ends_guarded {body cleanup : ClientM F PUnit}
    {post : Client F → Prop} {fail : Fault → Client F → Prop}
    (ends : Ends body client
      (fun _ middle => ∃ last, cleanup middle = .ok ⟨⟩ last ∧ post last)
      (fun fault middle => fault.isException = true ∧
        ∃ last, cleanup middle = .ok ⟨⟩ last ∧ fail fault last)) :
    Ends (guarded body cleanup) client (fun _ last => post last) fail := by
  cases ran : body client with
  | ok value middle =>
      rcases ends.of_ok ran with ⟨last, destroyed, holds⟩
      have returned : guarded body cleanup client = .ok ⟨⟩ last := by
        simp only [guarded, destructor, ran, destroyed]
      exact ends_of_ok returned holds
  | error fault middle =>
      rcases ends.of_error ran with ⟨isException, last, destroyed, holds⟩
      exact ends_of_error
        (by simp only [guarded, destructor, ran, if_pos isException, destroyed])
        holds

omit [DecidableEq τ] in
theorem ends_attempt {body : ClientM F PUnit} {post : Client F → Prop}
    {fail : Fault → Client F → Prop}
    (ends : Ends body client (fun _ final => post final)
      (fun fault final => fault.isException = true ∧ post final)) :
    Ends (attempt body) client (fun _ final => post final) fail := by
  cases ran : body client with
  | ok value final =>
      have returned : attempt body client = .ok ⟨⟩ final := by
        simp only [attempt, ran]
      exact ends_of_ok returned (ends.of_ok ran)
  | error fault final =>
      rcases ends.of_error ran with ⟨isException, holds⟩
      have returned : attempt body client = .ok ⟨⟩ final := by
        simp only [attempt, ran, if_pos isException]
      exact ends_of_ok returned holds

end Client

/-! ## Scripts -/

namespace Script

open Client

omit [DecidableEq τ] in
theorem Then.of_ok {program : ClientM F PUnit} {client final : Client F}
    {condition : Client F → Prop} (holds : Then program client condition)
    (returned : program client = .ok ⟨⟩ final) : condition final := by
  simpa only [Then, returned] using holds

/-- A script does what it means, from every state that the calls of a client
can reach. -/
theorem yields {ndebug : Bool} (script : Script F) :
    ∀ {client : Client F} {copying : CopyingClient F},
      client.Mirrors copying → copying.tables ≠ [] →
      script.Allowed ndebug (fun t => (F.indexType t).Interchangeable)
        (fun _ => SquashSafe) client →
      Yields (script.program ndebug) client copying
        (script.meaning copying.history.current) := by
  induction script with
  | row call =>
      intro client copying mirrors _ allowed
      exact mirrors.row_yields call allowed
  | throw message =>
      intro client copying mirrors _ _
      exact ends_of_error rfl ⟨rfl, rfl, mirrors, rfl⟩
  | seq first second firstHypothesis secondHypothesis =>
      intro client copying mirrors someTable allowed
      have isFirst := firstHypothesis mirrors someTable allowed.1
      cases ran : first.program ndebug client with
      | ok value middle =>
          rcases isFirst.of_ok ran with ⟨returns, left, sessions⟩
          have isSecond := secondHypothesis left someTable
            (allowed.2.of_ok ran)
          unfold Yields Ends
          simp only [program, meaning, returns]
          rw [bind_apply_of_ok _ ran]
          refine isSecond.imp ?_ ?_
          · intro _ final holds
            exact ⟨holds.1, holds.2.1, holds.2.2.trans sessions⟩
          · intro fault final holds
            exact ⟨holds.1, holds.2.1, holds.2.2.1, holds.2.2.2.trans sessions⟩
      | error fault middle =>
          have isThrown := isFirst.of_error ran
          refine ends_of_error (bind_apply_of_error _ ran) ?_
          simpa only [meaning, isThrown.2.1, if_true] using isThrown
  | attempt body inductionHypothesis =>
      intro client copying mirrors someTable allowed
      have isBody := inductionHypothesis mirrors someTable allowed
      refine ends_attempt (isBody.imp ?_ ?_)
      · intro _ final holds
        exact ⟨rfl, holds.2⟩
      · intro fault final holds
        exact ⟨holds.1, rfl, holds.2.2⟩
  | scope enabled body ending inductionHypothesis =>
      intro client copying mirrors someTable allowed
      rcases allowed with ⟨bounded, inside⟩
      cases enabled with
      | false =>
          rcases mirrors.startsDisabled with
            ⟨started, session, ran, left, sessions, noSessions⟩
          have isBody := inductionHypothesis left someTable (inside.of_ok ran).1
          unfold Yields Ends
          simp only [program]
          rw [bind_apply_of_ok _ ran]
          refine ends_guarded ?_
          cases finished : body.program ndebug started with
          | ok value final =>
              rcases isBody.of_ok finished with
                ⟨returns, bodyLeft, bodySessions⟩
              have isNewest := bodySessions.trans sessions
              rcases bodyLeft.leavesEnded copying isNewest
                noSessions with ⟨last, destroyed, leaves⟩
              have nothing := ending_disabled ndebug ending isNewest
                noSessions
              exact ends_of_ok ((bind_apply_of_ok _ finished).trans nothing)
                ⟨last, destroyed, returns, leaves⟩
          | error fault final =>
              rcases isBody.of_error finished with
                ⟨isException, throws, bodyLeft, bodySessions⟩
              have isNewest := bodySessions.trans sessions
              rcases bodyLeft.leavesEnded copying isNewest
                noSessions with ⟨last, destroyed, leaves⟩
              exact ends_of_error (bind_apply_of_error _ finished)
                ⟨isException, last, destroyed, isException, throws, leaves⟩
      | true =>
          rcases mirrors.startsScope someTable (bounded rfl) with
            ⟨started, session, ran, left, sessions, knows⟩
          rcases inside.of_ok ran with ⟨bodyAllowed, squashable⟩
          have isBody := inductionHypothesis left someTable bodyAllowed
          unfold Yields Ends
          simp only [program]
          rw [bind_apply_of_ok _ ran]
          refine ends_guarded ?_
          cases finished : body.program ndebug started with
          | ok value final =>
              rcases isBody.of_ok finished with
                ⟨returns, bodyLeft, bodySessions⟩
              have isNewest := bodySessions.trans sessions
              have safe : ending = .squash → ∀ t ∈ final.database.indexList,
                  SquashSafe (final.database.index t) :=
                fun isSquash => (squashable rfl isSquash).of_ok finished
              rcases bodyLeft.endsScope ending isNewest knows
                safe with ⟨ended, last, endingRan, destroyed, leaves⟩
              refine ends_of_ok ((bind_apply_of_ok _ finished).trans endingRan)
                ⟨last, destroyed, ?_⟩
              simp only [meaning, History.start] at returns ⊢
              rw [returns]
              exact ⟨rfl, leaves⟩
          | error fault final =>
              rcases isBody.of_error finished with
                ⟨isException, throws, bodyLeft, bodySessions⟩
              have isNewest := bodySessions.trans sessions
              rcases bodyLeft.leavesScope isNewest knows with
                ⟨last, destroyed, leaves⟩
              refine ends_of_error (bind_apply_of_error _ finished)
                ⟨isException, last, destroyed, isException, ?_⟩
              simp only [meaning, History.start] at throws ⊢
              rw [throws]
              exact ⟨rfl, leaves⟩

end Script

/-- Only the rows are different: no session and no undo state was added or
lost, and the next `undo` brings back what it would have brought back. -/
structure Client.Untraced (before : Client F) (rows : DatabaseRows F)
    (after : Client F) : Prop where
  indexList : after.database.indexList = before.database.indexList
  rows : after.database.rows = rows
  sessions : after.sessions = before.sessions
  revisions : ∀ t ∈ before.database.indexList,
    (after.database.index t).revision = (before.database.index t).revision ∧
      (after.database.index t).stack.map UndoState.revision =
        (before.database.index t).stack.map UndoState.revision
  undo : ∀ t ∈ before.database.indexList,
    (before.database.index t).stack ≠ [] →
      ∃ undone undoneBefore, Database.undo after.database = .ok ⟨⟩ undone ∧
        Database.undo before.database = .ok ⟨⟩ undoneBefore ∧
        undone.rows = undoneBefore.rows

theorem Client.Leaves.untraced {before after : Client F}
    {copying : CopyingClient F} {rows : DatabaseRows F}
    (leaves : before.Leaves copying rows after)
    (mirrors : before.Mirrors copying) : before.Untraced rows after := by
  have left := leaves.mirrors
  have sameTables := left.tables.trans mirrors.tables.symm
  refine ⟨sameTables, left.database.rows_eq, leaves.sessions, ?_, ?_⟩
  · intro t member
    have revisionsAfter := left.database.revisions (sameTables ▸ member)
    have revisionsBefore := mirrors.database.revisions member
    rw [revisionsAfter.1, revisionsAfter.2, revisionsBefore.1, revisionsBefore.2]
    exact ⟨rfl, rfl⟩
  · intro t member hasStates
    rcases left.database.undone left.uniform.database.nodup with
      ⟨undone, undoes, _, isUndone⟩
    rcases mirrors.database.undone mirrors.uniform.database.nodup with
      ⟨undoneBefore, undoesBefore, _, isUndoneBefore⟩
    refine ⟨undone, undoneBefore, ?_, ?_, ?_⟩
    · rw [Database.undo, bind_apply_of_ok _ (get_apply _)]
      exact undoes
    · rw [Database.undo, bind_apply_of_ok _ (get_apply _)]
      exact undoesBefore
    · rw [isUndone.rows_eq, isUndoneBefore.rows_eq]
      have revisions := (mirrors.database.revisions member).2
      cases saved : copying.history.copies with
      | nil => simp [saved, hasStates] at revisions
      | cons newest older => simp [History.undo, History.change, saved]

/-- A program with scopes, in any state that a client can reach: it throws
exactly when its meaning says so and leaves the rows that its meaning says,
where a scope without `squash`, and every scope that an exception leaves, has
changed nothing. -/
theorem scopes_are_transactions (ndebug : Bool)
    (calls : List (DatabaseCall F)) (script : Script F)
    (proper : Runs.AllowedFrom (DatabaseCall.step ndebug) Proper
      (Client.empty F) calls)
    (someTable : (copyingRun calls).tables ≠ [])
    (allowed : ∀ client ∈
      Runs.run (DatabaseCall.step ndebug) (Client.empty F) calls,
        script.Allowed ndebug (fun t => (F.indexType t).Interchangeable)
          (fun _ => SquashSafe) client) :
    ∃ client,
      Runs.run (DatabaseCall.step ndebug) (Client.empty F) calls =
        some client ∧
      Ends (script.program ndebug) client
        (fun _ final =>
          (script.meaning client.database.rows).1 = false ∧
          client.Untraced (script.meaning client.database.rows).2 final)
        (fun fault final => fault.isException = true ∧
          (script.meaning client.database.rows).1 = true ∧
          client.Untraced (script.meaning client.database.rows).2 final) := by
  rcases mirrors_run ndebug proper with ⟨client, finished, mirrors⟩
  have does := script.yields mirrors someTable (allowed client finished)
  rw [← mirrors.database.rows_eq] at does
  refine ⟨client, finished, does.imp ?_ ?_⟩
  · intro _ final holds
    exact ⟨holds.1, holds.2.untraced mirrors⟩
  · intro fault final holds
    exact ⟨holds.1, holds.2.1, holds.2.2.untraced mirrors⟩

/-! ### Scripts that are checked by running them -/

namespace Script

omit [DecidableEq τ] in
instance (program : Client.ClientM F PUnit) (client : Client F)
    (condition : Client F → Prop) [∀ final, Decidable (condition final)] :
    Decidable (Then program client condition) :=
  match ran : program client with
  | .ok _ final =>
      decidable_of_iff (condition final) (by simp [Then, ran])
  | .error _ _ => isTrue (by simp [Then, ran])

def decidableAllowed (ndebug : Bool)
    (keeps : (t : τ) → (F.indexType t).Value → (F.indexType t).Value → Prop)
    [∀ t old new, Decidable (keeps t old new)]
    (squashable : (t : τ) → GenericIndex (F.indexType t) → Prop)
    [∀ t index, Decidable (squashable t index)] :
    (script : Script F) → (client : Client F) →
      Decidable (script.Allowed ndebug keeps squashable client)
  | .row call, client =>
      inferInstanceAs
        (Decidable (call.onDatabase.Permitted keeps squashable client))
  | .throw _, _ => isTrue trivial
  | .seq first second, client =>
      have := decidableAllowed ndebug keeps squashable first
      have := decidableAllowed ndebug keeps squashable second
      inferInstanceAs (Decidable
        (first.Allowed ndebug keeps squashable client ∧
          Then (first.program ndebug) client
            (second.Allowed ndebug keeps squashable)))
  | .attempt body, client => decidableAllowed ndebug keeps squashable body client
  | .scope enabled body ending, client =>
      have := decidableAllowed ndebug keeps squashable body
      inferInstanceAs (Decidable (_ ∧ Then _ client fun started =>
        body.Allowed ndebug keeps squashable started ∧
          (enabled = true → ending = .squash →
            Then (body.program ndebug) started fun final =>
              ∀ t ∈ final.database.indexList,
                squashable t (final.database.index t))))

instance (ndebug : Bool)
    (keeps : (t : τ) → (F.indexType t).Value → (F.indexType t).Value → Prop)
    [∀ t old new, Decidable (keeps t old new)]
    (squashable : (t : τ) → GenericIndex (F.indexType t) → Prop)
    [∀ t index, Decidable (squashable t index)]
    (script : Script F) (client : Client F) :
    Decidable (script.Allowed ndebug keeps squashable client) :=
  decidableAllowed ndebug keeps squashable script client

omit [DecidableEq τ] in
theorem Then.mono {program : Client.ClientM F PUnit} {client : Client F}
    {condition weaker : Client F → Prop} (holds : Then program client condition)
    (implies : ∀ final, condition final → weaker final) :
    Then program client weaker := by
  unfold Then at holds ⊢
  split
  · rename_i returned
    simp only [returned] at holds
    exact implies _ holds
  · trivial

/-- The conditions that can be evaluated. -/
abbrev Plain (ndebug : Bool) (script : Script F) (client : Client F) : Prop :=
  script.Allowed ndebug (fun t => (F.indexType t).KeepsKeys) (fun _ => FreshTop)
    client

theorem Plain.allowed {ndebug : Bool} {script : Script F} :
    ∀ {client : Client F}, script.Plain ndebug client →
      script.Allowed ndebug (fun t => (F.indexType t).Interchangeable)
        (fun _ => SquashSafe) client := by
  induction script with
  | row call =>
      intro client plain
      cases call with
      | create t value => exact plain
      | modify t id modifier =>
          exact ⟨plain.1, plain.2.weaken
            (fun _ _ keeps => keeps.interchangeable)
            fun _ fresh => FreshTop.squashSafe fresh⟩
      | remove t id => exact plain
  | throw message =>
      intro _ _
      trivial
  | seq first second firstHypothesis secondHypothesis =>
      intro client plain
      exact ⟨firstHypothesis plain.1,
        plain.2.mono fun _ isPlain => secondHypothesis isPlain⟩
  | attempt body inductionHypothesis =>
      intro client plain
      exact inductionHypothesis plain
  | scope enabled body ending inductionHypothesis =>
      intro client plain
      refine ⟨plain.1, plain.2.mono ?_⟩
      intro started inside
      refine ⟨inductionHypothesis inside.1, ?_⟩
      intro isEnabled isSquash
      exact (inside.2 isEnabled isSquash).mono
        fun _ fresh t member => (fresh t member).squashSafe

end Script

/-- An exception leaves three scopes and is caught; what the inner one squashed
is gone as well, although one scope between them is not enabled.  The last scope
squashes. -/
def nestedScopes : Script eosDbTables :=
  .seq
    (.attempt (.scope true
      (.seq (.row (.remove .tableKey 1))
        (.seq (.scope true (.row (.create .tableKey ⟨2, 8, [11]⟩)) .squash)
          (.scope false (.scope true (.throw "refused") .leave) .squash)))
      .squash))
    (.scope true
      (.row (.modify .tableKey 1 fun row => { row with value := [12] })) .squash)

theorem scopes_are_transactions_nested :
    ∃ client,
      Runs.run (DatabaseCall.step false) (Client.empty eosDbTables)
        committedCalls = some client ∧
      Ends (nestedScopes.program false) client
        (fun _ final =>
          (nestedScopes.meaning client.database.rows).1 = false ∧
          client.Untraced (nestedScopes.meaning client.database.rows).2 final)
        (fun fault final => fault.isException = true ∧
          (nestedScopes.meaning client.database.rows).1 = true ∧
          client.Untraced (nestedScopes.meaning client.database.rows).2
            final) := by
  have plain : Runs.AllowedFrom (DatabaseCall.step false)
      (fun client call => call.Plain client) (Client.empty eosDbTables)
      committedCalls := by
    decide +kernel
  have scripted : ∀ client ∈ Runs.run (DatabaseCall.step false)
      (Client.empty eosDbTables) committedCalls,
        nestedScopes.Plain false client := by
    decide +kernel
  exact scopes_are_transactions false committedCalls nestedScopes
    (plain.mono fun _ _ => DatabaseCall.Plain.proper)
    (List.cons_ne_nil _ _)
    fun client isClient => (scripted client isClient).allowed

end StateDatabase
