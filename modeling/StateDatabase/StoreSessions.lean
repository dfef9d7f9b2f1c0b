import Mathlib
import StateDatabase.StoreRefinement

/-!
# Contract tables under sessions

The whole system: an `eos_db`, its database, and the sessions of the database.
Calls on rows and calls on sessions come in any order, with any number of open
sessions.  What the tables hold is what maps hold that are copied as a whole
when a session starts, and put back as a whole when it is undone.

An undo puts objects back at new addresses, so the caller goes on with a new
`eos_db` then, whose caches are empty.
-/

namespace StateDatabase

open Programs GenericIndex EosDb Snapshots

/-! ## Maps with sessions -/

/-- The calls on sessions; a position counts the sessions of the caller, the
last started one first. -/
inductive SessionCall where
  | start
  | push (position : Nat)
  | squash (position : Nat)
  | undo (position : Nat)
  | destroy (position : Nat)
  | undoNewest
  | squashNewest
  | commit (revision : Int)
  | undoAll
  | setRevision (revision : UInt64)

namespace SessionCall

/-- The call of the database. -/
def onDatabase {τ : Type} {F : IndexFamily τ} : SessionCall → DatabaseCall F
  | .start => .startUndoSession
  | .push position => .sessionPush position
  | .squash position => .sessionSquash position
  | .undo position => .sessionUndo position
  | .destroy position => .sessionDestroy position
  | .undoNewest => .undo
  | .squashNewest => .squash
  | .commit revision => .commit revision
  | .undoAll => .undoAll
  | .setRevision revision => .setRevision revision

/-- The call may put rows back. -/
def restores : SessionCall → Bool
  | .undo _ => true
  | .destroy _ => true
  | .undoNewest => true
  | .undoAll => true
  | _ => false

end SessionCall

/-- A call as the maps see it. -/
inductive StoreOrSessionCall where
  | row (call : StoreCall)
  | session (call : SessionCall)

/-- The maps with their copies; `sessions` says which sessions have yet to be
ended. -/
structure StoreLedger where
  history : History ContractStore
  sessions : List Bool
  answers : List (Except Fault Answer)

namespace StoreLedger

def initial : StoreLedger :=
  { history := .initial .empty, sessions := [], answers := [] }

section Calls

variable (ledger : StoreLedger)

/-- A session that was ended before does nothing. -/
def endSession (step : History ContractStore → History ContractStore)
    (position : Nat) : StoreLedger :=
  if ledger.sessions[position]? = some true then
    { ledger with
      history := step ledger.history
      sessions := ledger.sessions.set position false }
  else ledger

def session : SessionCall → StoreLedger
  | .start =>
      { ledger with
        history := ledger.history.start
        sessions := true :: ledger.sessions }
  | .push position => ledger.endSession id position
  | .squash position => ledger.endSession History.squash position
  | .undo position => ledger.endSession History.undo position
  | .destroy position =>
      let ended := ledger.endSession History.undo position
      { ended with sessions := ended.sessions.eraseIdx position }
  | .undoNewest => { ledger with history := ledger.history.undo }
  | .squashNewest => { ledger with history := ledger.history.squash }
  | .commit revision =>
      { ledger with history := ledger.history.commit revision }
  | .undoAll => { ledger with history := ledger.history.undoAll }
  | .setRevision revision =>
      if int64Max < (revision.toNat : Int) then ledger
      else { ledger with
        history := ledger.history.setRevision (revision.toNat : Int) }

noncomputable def enter (ndebug : Bool) : StoreOrSessionCall → StoreLedger
  | .row call =>
      let answered := call.run ndebug ledger.history.current
      { ledger with
        history := ledger.history.change answered.2
        answers := ledger.answers ++ [answered.1] }
  | .session call => ledger.session call

end Calls

/-- The maps after the calls. -/
noncomputable def after (ndebug : Bool) (calls : List StoreOrSessionCall) :
    StoreLedger :=
  calls.foldl (fun ledger call => ledger.enter ndebug call) initial

@[simp]
theorem after_concat (ndebug : Bool) (calls : List StoreOrSessionCall)
    (call : StoreOrSessionCall) :
    after ndebug (calls ++ [call]) = (after ndebug calls).enter ndebug call := by
  simp [after, List.foldl_append]

@[simp]
theorem session_answers (ledger : StoreLedger) (call : SessionCall) :
    (ledger.session call).answers = ledger.answers := by
  have ended : ∀ step position,
      (ledger.endSession step position).answers = ledger.answers := by
    intro step position
    unfold endSession
    split
    · rfl
    · rfl
  cases call with
  | push position => exact ended id position
  | squash position => exact ended History.squash position
  | undo position => exact ended History.undo position
  | destroy position => exact ended History.undo position
  | setRevision revision =>
      simp only [session]
      split
      · rfl
      · rfl
  | _ => rfl

end StoreLedger

/-! ## Copies of rows and copies of maps -/

/-- The maps are copied as the rows are. -/
structure Copies (copying : CopyingClient eosDbTables) (ledger : StoreLedger) :
    Prop where
  history : copying.history.map storeOf = ledger.history
  sessions : copying.sessions = ledger.sessions

section Copies

variable {copying : CopyingClient eosDbTables} {ledger : StoreLedger}
  {property : Contents → Prop}

theorem Copies.endSession (position : Nat)
    (step : {σ : Type} → History σ → History σ) (copies : Copies copying ledger)
    (maps : (step copying.history).map storeOf =
      step (copying.history.map storeOf)) :
    Copies (copying.endSession step position)
      (ledger.endSession step position) := by
  unfold CopyingClient.endSession StoreLedger.endSession
  rw [copies.sessions]
  split
  · exact ⟨by rw [← copies.history]; exact maps, rfl⟩
  · exact copies

/-- A session call does to the copies of the maps what it does to those of the
rows. -/
theorem Copies.session (copies : Copies copying ledger)
    (someTable : copying.tables ≠ []) (call : SessionCall) :
    Copies (call.onDatabase.reference copying) (ledger.session call) := by
  cases call with
  | start =>
      simp only [SessionCall.onDatabase, DatabaseCall.reference,
        if_neg someTable]
      exact ⟨by rw [History.map_start, copies.history]; rfl,
        by rw [copies.sessions]; rfl⟩
  | push position => exact copies.endSession position id rfl
  | squash position =>
      exact copies.endSession position History.squash
        (History.map_squash storeOf copying.history)
  | undo position =>
      exact copies.endSession position History.undo
        (History.map_undo storeOf copying.history)
  | destroy position =>
      have ended := copies.endSession position History.undo
        (History.map_undo storeOf copying.history)
      exact ⟨ended.history, congrArg (fun sessions =>
        List.eraseIdx sessions position) ended.sessions⟩
  | undoNewest =>
      exact ⟨(History.map_undo storeOf copying.history).trans
        (congrArg History.undo copies.history), copies.sessions⟩
  | squashNewest =>
      exact ⟨(History.map_squash storeOf copying.history).trans
        (congrArg History.squash copies.history), copies.sessions⟩
  | commit revision =>
      exact ⟨(History.map_commit storeOf copying.history revision).trans
        (congrArg (History.commit revision) copies.history), copies.sessions⟩
  | undoAll =>
      exact ⟨(History.map_undoAll storeOf copying.history).trans
        (congrArg History.undoAll copies.history), copies.sessions⟩
  | setRevision revision =>
      simp only [SessionCall.onDatabase, DatabaseCall.reference,
        StoreLedger.session, someTable, false_or]
      split
      · exact copies
      · exact ⟨(History.map_setRevision storeOf copying.history _).trans
          (congrArg (History.setRevision _) copies.history), copies.sessions⟩

theorem every_endSession {position : Nat}
    {step : History (DatabaseRows eosDbTables) →
      History (DatabaseRows eosDbTables)}
    (every : copying.history.Every property)
    (keeps : (step copying.history).Every property) :
    (copying.endSession step position).history.Every property := by
  unfold CopyingClient.endSession
  split
  · exact keeps
  · exact every

/-- Sessions save and put back values that there have been. -/
theorem every_session (every : copying.history.Every property)
    (call : SessionCall) :
    (call.onDatabase.reference copying).history.Every property := by
  cases call with
  | start =>
      simp only [SessionCall.onDatabase, DatabaseCall.reference]
      split
      · exact every
      · exact every.start
  | push position => exact every_endSession every every
  | squash position => exact every_endSession every every.squash
  | undo position => exact every_endSession every every.undo
  | destroy position => exact every_endSession every every.undo
  | undoNewest => exact every.undo
  | squashNewest => exact every.squash
  | commit revision => exact every.commit revision
  | undoAll => exact every.undoAll
  | setRevision revision =>
      simp only [SessionCall.onDatabase, DatabaseCall.reference]
      split
      · exact every
      · exact every.setRevision _

theorem current_endSession {position : Nat}
    {step : History (DatabaseRows eosDbTables) →
      History (DatabaseRows eosDbTables)}
    (same : (step copying.history).current = copying.history.current) :
    (copying.endSession step position).history.current =
      copying.history.current := by
  unfold CopyingClient.endSession
  split
  · exact same
  · rfl

/-- The other calls leave the current rows alone. -/
theorem current_session {call : SessionCall} (keeps : call.restores = false) :
    (call.onDatabase.reference copying).history.current =
      copying.history.current := by
  cases call with
  | start =>
      simp only [SessionCall.onDatabase, DatabaseCall.reference]
      split
      · rfl
      · rfl
  | push position => exact current_endSession rfl
  | squash position => exact current_endSession (History.squash_current _)
  | squashNewest => exact History.squash_current _
  | commit revision => rfl
  | setRevision revision =>
      simp only [SessionCall.onDatabase, DatabaseCall.reference]
      split
      · rfl
      · exact History.setRevision_current _ _
  | undo position => cases keeps
  | destroy position => cases keeps
  | undoNewest => cases keeps
  | undoAll => cases keeps

/-- No table is added. -/
theorem tables_session (call : SessionCall) :
    (call.onDatabase.reference copying).tables = copying.tables := by
  have ended : ∀ step position,
      (copying.endSession step position).tables = copying.tables := by
    intro step position
    unfold CopyingClient.endSession
    split
    · rfl
    · rfl
  cases call with
  | start =>
      simp only [SessionCall.onDatabase, DatabaseCall.reference]
      split
      · rfl
      · rfl
  | push position => exact ended id position
  | squash position => exact ended History.squash position
  | undo position => exact ended History.undo position
  | destroy position => exact ended History.undo position
  | setRevision revision =>
      simp only [SessionCall.onDatabase, DatabaseCall.reference]
      split
      · rfl
      · rfl
  | _ => rfl

end Copies

/-! ## The system -/

/-- Where the objects of a database stand: no two of one type at one address. -/
structure Placement where
  place : (t : TableType) → (indexOf t).Id → Address
  apart : ∀ t, Function.Injective (place t)

/-- An `eos_db` with its log, and the sessions of the database. -/
structure EosWithSessions where
  log : EosLog
  sessions : List (DatabaseSession TableType)
  made : List StoreOrSessionCall

inductive RowOrSessionCall where
  | row (call : EosCall)
  /-- After an undo the objects are where the placement says. -/
  | session (call : SessionCall) (placement : Placement)

namespace EosWithSessions

/-- A new `eos_db` on empty tables, without sessions. -/
def start (place : (t : TableType) → (indexOf t).Id → Address) :
    EosWithSessions :=
  { log := EosLog.start place, sessions := [], made := [] }

section Calls

variable (sha : Bytes → Sha256) (ndebug : Bool) (state : EosWithSessions)

def client : Client eosDbTables :=
  { database := state.log.eos.db, sessions := state.sessions }

/-- The log of a new `eos_db`, without tables and iterators. -/
def renewed (db : Database eosDbTables) (placement : Placement) : EosLog :=
  { state.log with
    eos := ofDatabase db placement.place
    tables := []
    iterators := [] }

/-- The log after a call on sessions. -/
def reopened (call : SessionCall) (placement : Placement)
    (db : Database eosDbTables) : EosLog :=
  if call.restores then state.renewed db placement
  else { state.log with eos := { state.log.eos with db := db } }

def step : RowOrSessionCall → Option EosWithSessions
  | .row call =>
      (state.log.step sha ndebug call).map fun log =>
        { state with
          log := log
          made := state.made ++ ((state.log.named sha call).map .row).toList }
  | .session call placement =>
      (call.onDatabase.step ndebug state.client).map fun client =>
        { log := state.reopened call placement client.database
          sessions := client.sessions
          made := state.made ++ [.session call] }

/-- What the caller owes to a call on sessions: a session that there is, room
for another revision, and a squash only where every index can be squashed. -/
def Owes (squashable : (t : TableType) → GenericIndex (indexOf t) → Prop) :
    SessionCall → Prop
  | .start => ∀ t ∈ state.log.eos.db.indexList,
      (state.log.eos.db.index t).revision < int64Max
  | .push position => position < state.sessions.length
  | .squash position => position < state.sessions.length ∧
      ∀ t ∈ state.log.eos.db.indexList,
        squashable t (state.log.eos.db.index t)
  | .undo position => position < state.sessions.length
  | .destroy position => position < state.sessions.length
  | .squashNewest => ∀ t ∈ state.log.eos.db.indexList,
      squashable t (state.log.eos.db.index t)
  | _ => True

instance (squashable : (t : TableType) → GenericIndex (indexOf t) → Prop)
    [∀ t index, Decidable (squashable t index)] (call : SessionCall) :
    Decidable (state.Owes squashable call) := by
  cases call <;> unfold Owes <;> infer_instance

def Permitted (squashable : (t : TableType) → GenericIndex (indexOf t) → Prop)
    (state : EosWithSessions) : RowOrSessionCall → Prop
  | .row call => state.log.Permitted sha ndebug call
  | .session call _ => state.Owes squashable call

instance (squashable : (t : TableType) → GenericIndex (indexOf t) → Prop)
    [∀ t index, Decidable (squashable t index)] (call : RowOrSessionCall) :
    Decidable (state.Permitted sha ndebug squashable call) := by
  cases call <;> unfold Permitted <;> infer_instance

end Calls

variable {sha : Bytes → Sha256} {ndebug : Bool} {state : EosWithSessions}

/-! ## What stays true -/

/-- The rows of a database as they are between two calls. -/
structure Orderly (used : List Int64) (contents : Contents) : Prop where
  balanced : Balanced contents
  wellMade : AllWellMade contents
  tableIds : ∀ tab : Int64,
    (contents .tableId).rows[tab]? ≠ none → tab ∈ used

theorem Orderly.mono {used more : List Int64} {contents : Contents}
    (subset : used ⊆ more) (orderly : Orderly used contents) :
    Orderly more contents :=
  ⟨orderly.balanced, orderly.wellMade,
    fun tab stored => subset (orderly.tableIds tab stored)⟩

theorem orderly_of_sound {log : EosLog} (sound : log.Sound) :
    Orderly log.tableIds log.eos.db.rows :=
  ⟨sound.consistent.balanced, sound.wellMade, sound.consistent.tableIds⟩

/-- The sessions that were not ended hold a sub-session of every index. -/
def AllCovered (client : Client eosDbTables) : Prop :=
  ∀ session ∈ client.sessions, session.subSessions = [] ∨
    session.subSessions.map SubSession.index = client.database.indexList

/-- The `eos_db` and the maps with copies were called alike. -/
structure Agrees (state : EosWithSessions) (copying : CopyingClient eosDbTables)
    (ledger : StoreLedger) : Prop where
  sound : state.log.Sound
  covered : AllCovered state.client
  mirrors : state.client.Mirrors copying
  orderly : copying.history.Every (Orderly state.log.tableIds)
  copies : Copies copying ledger
  answers : state.log.answers = ledger.answers

section Rows

variable {log : EosLog} {db : Database eosDbTables}

/-- A call that leaves all rows where they are leaves the log right. -/
theorem sound_of_sameRows (sound : log.Sound) (ready : db.Ready)
    (same : db.rows = log.eos.db.rows) :
    EosLog.Sound { log with eos := { log.eos with db := db } } := by
  have consistent := sound.consistent
  constructor
  · constructor
    · exact ready
    · simpa only [same] using consistent.balanced
    · intro t
      have apart := consistent.apart t
      unfold Apart at apart ⊢
      simpa only [same] using apart
    · simpa only [same] using consistent.tableIds
    · intro r
      have caches := consistent.caches r
      constructor
      · exact caches.mirrored
      · simpa only [same] using caches.entries
      · simpa only [same] using caches.tables
  · exact sound.charted
  · simpa only [same] using sound.wellMade
  · simpa only [same] using sound.tables
  · intro entry member
    have shows := sound.shows entry member
    rcases shows with ⟨position, id, row, isPosition, held, found, hasKey⟩
    refine ⟨position, id, row, isPosition, held, ?_, ?_⟩
    · simpa only [same] using found
    · simpa only [same] using hasKey

/-- A new `eos_db` is right on any orderly rows. -/
theorem sound_renewed (placement : Placement) (ready : db.Ready)
    (orderly : Orderly state.log.tableIds db.rows) :
    (state.renewed db placement).Sound where
  consistent := consistent_ofDatabase ready orderly.balanced
    (fun t _ _ _ _ same => placement.apart t same) orderly.tableIds
  charted := IteratorCache.charted_empty
  wellMade := orderly.wellMade
  tables := by simp [renewed]
  shows := by simp [renewed]

end Rows

theorem ready_of_mirrors {client : Client eosDbTables}
    {copying : CopyingClient eosDbTables} (mirrors : client.Mirrors copying)
    (allTables : ∀ t, t ∈ copying.tables) : client.database.Ready where
  registered := by
    intro t
    rw [mirrors.tables]
    exact allTables t
  stored := by
    intro t
    have member : t ∈ client.database.indexList := by
      rw [mirrors.tables]
      exact allTables t
    rcases mirrors.database.registered t member with ⟨index, found, _⟩
    exact ⟨index, found⟩

/-! ### Sessions -/

section Sessions

variable {client next : Client eosDbTables}

/-- Every session is an old one, an ended one or one of all indices. -/
def Inherits (client final : Client eosDbTables) : Prop :=
  ∀ session ∈ final.sessions, session.subSessions = [] ∨
    session ∈ client.sessions ∨
      session.subSessions.map SubSession.index = client.database.indexList

theorem ends_onDatabase_sessions {α : Type}
    (program : Database.DatabaseM eosDbTables α) :
    Ends (Client.onDatabase program) client
      (fun _ final => final.sessions = client.sessions)
      (fun _ final => final.sessions = client.sessions) := by
  apply ends_zoom
  cases ran : program client.database with
  | ok value final => exact ends_of_ok ran rfl
  | error fault final => exact ends_of_error ran rfl

theorem inherits_of_same {final : Client eosDbTables}
    (same : final.sessions = client.sessions) : Inherits client final := by
  intro session member
  rw [same] at member
  exact Or.inr (Or.inl member)

theorem ends_onSession_inherits (position : Nat)
    (program : DatabaseSession TableType →
      Database.DatabaseM eosDbTables PUnit) :
    Ends (Client.onSession position program) client
      (fun _ final => Inherits client final)
      (fun fault final => fault.isException = true →
        Inherits client final) := by
  refine ends_bind (ends_of_ok (get_apply client) ?_)
  split
  · exact ends_of_error (throw_apply _ _) nofun
  · rename_i session _
    refine ends_bind ((ends_onDatabase_sessions (program session)).imp ?_ ?_)
    · intro _ middle same
      refine ends_bind (ends_of_ok (get_apply middle)
        (ends_of_ok (set_apply _ _) ?_))
      intro tested member
      rcases List.mem_or_eq_of_mem_set member with isOld | isCleared
      · rw [same] at isOld
        exact Or.inr (Or.inl isOld)
      · rw [isCleared]
        exact Or.inl rfl
    · exact fun _ _ same _ => inherits_of_same same

/-- A session that is started covers all indices. -/
theorem ends_startUndoSession_inherits (uniform : client.Uniform) :
    Ends Client.startUndoSession client
      (fun _ final => Inherits client final)
      (fun fault final => fault.isException = true →
        Inherits client final) := by
  rcases uniform.database.shapes with ⟨base, depth, shapes⟩
  have starts : Ends Database.startUndoSession client.database
      (fun session _ =>
        session.subSessions.map SubSession.index =
          client.database.indexList)
      (fun fault _ => fault.isException = false) := by
    refine ends_bind (ends_of_ok (get_apply _) (ends_bind
      ((Database.ends_startSubSessions client.database.indexList
        client.database uniform.database.nodup shapes).imp ?_
          fun _ _ failed => failed)))
    intro sessions final started
    exact ends_pure started.2.1
  refine ends_bind (ends_zoom (starts.imp ?_ ?_))
  · intro session final covers
    refine ends_bind (ends_of_ok (get_apply _)
      (ends_of_ok (set_apply _ _) ?_))
    intro tested member
    rcases List.mem_cons.mp member with isNew | isOld
    · rw [isNew]
      exact Or.inr (Or.inr covers)
    · exact Or.inr (Or.inl isOld)
  · intro fault final endsProcess isException
    rw [endsProcess] at isException
    cases isException

theorem inherits_step (uniform : client.Uniform) {call : SessionCall}
    (stepped : call.onDatabase.step ndebug client = some next) :
    Inherits client next := by
  have ofDatabase : ∀ program : Database.DatabaseM eosDbTables PUnit,
      survive (Client.onDatabase program client) = some next →
        Inherits client next := by
    intro program survived
    exact survive_of_ends (Inherits client)
      ((ends_onDatabase_sessions program).imp
        (fun _ _ same => inherits_of_same same)
        fun _ _ same _ => inherits_of_same same) survived
  cases call with
  | start =>
      exact survive_of_ends (Inherits client)
        (ends_startUndoSession_inherits uniform) stepped
  | push position =>
      exact survive_of_ends (Inherits client)
        (ends_onSession_inherits position _) stepped
  | squash position =>
      exact survive_of_ends (Inherits client)
        (ends_onSession_inherits position _) stepped
  | undo position =>
      exact survive_of_ends (Inherits client)
        (ends_onSession_inherits position _) stepped
  | destroy position =>
      refine survive_of_ends (Inherits client) (ends_bind
        ((ends_onSession_inherits position Database.sessionUndo).imp ?_
          fun _ _ failed => failed)) stepped
      intro _ middle inherits
      refine ends_bind (ends_of_ok (get_apply middle)
        (ends_of_ok (set_apply _ _) ?_))
      exact fun session member =>
        inherits session (List.mem_of_mem_eraseIdx member)
  | undoNewest => exact ofDatabase _ stepped
  | squashNewest => exact ofDatabase _ stepped
  | commit revision => exact ofDatabase _ stepped
  | undoAll => exact ofDatabase _ stepped
  | setRevision revision => exact ofDatabase _ stepped

theorem allCovered_step (covered : AllCovered client)
    (uniform : client.Uniform) {call : SessionCall}
    (stepped : call.onDatabase.step ndebug client = some next)
    (sameIndices : next.database.indexList = client.database.indexList) :
    AllCovered next := by
  intro session member
  rw [sameIndices]
  rcases inherits_step uniform stepped session member with
    ended | isOld | covers
  · exact Or.inl ended
  · exact covered session isOld
  · exact Or.inr covers

theorem covers_of_allCovered (covered : AllCovered client) (position : Nat) :
    DatabaseCall.Covers client position := by
  intro session isSession
  rcases covered session (List.mem_of_getElem? isSession) with ended | covers
  · exact Or.inl ended
  · exact Or.inr (Or.inl covers)

/-- What the caller owes is what the database asks for. -/
theorem Agrees.proper {copying : CopyingClient eosDbTables}
    {ledger : StoreLedger} (agrees : state.Agrees copying ledger)
    {call : SessionCall} (owes : state.Owes (fun _ => SquashSafe) call) :
    Proper state.client call.onDatabase := by
  have covers := covers_of_allCovered agrees.covered
  cases call with
  | start => exact ⟨trivial, owes⟩
  | push position => exact ⟨trivial, owes⟩
  | squash position => exact ⟨covers position, owes⟩
  | undo position => exact ⟨covers position, owes⟩
  | destroy position => exact ⟨covers position, owes⟩
  | undoNewest => exact ⟨trivial, trivial⟩
  | squashNewest => exact ⟨trivial, owes⟩
  | commit revision => exact ⟨trivial, trivial⟩
  | undoAll => exact ⟨trivial, trivial⟩
  | setRevision revision => exact ⟨trivial, trivial⟩

end Sessions

/-! ## Steps and runs -/

section Steps

variable {copying : CopyingClient eosDbTables} {ledger : StoreLedger}

theorem Agrees.store (agrees : state.Agrees copying ledger) :
    state.log.eos.store = ledger.history.current := by
  rw [← agrees.copies.history, History.map_current,
    ← agrees.mirrors.database.rows_eq]
  rfl

/-- A call on rows changes the maps and no copy. -/
theorem agrees_row {call : EosCall} (agrees : state.Agrees copying ledger)
    (permitted : state.log.Permitted sha ndebug call) :
    ∃ next copyingNext madeCall,
      state.step sha ndebug (.row call) = some next ∧
      next.made = state.made ++ [madeCall] ∧
      next.Agrees copyingNext (ledger.enter ndebug madeCall) := by
  rcases Option.isSome_iff_exists.mp permitted.1 with ⟨storeCall, named⟩
  rcases EosLog.next_step agrees.sound permitted named with
    ⟨log, stepped, isNext⟩
  have rowsMirrored := RowSteps.mirrors isNext.steps
    agrees.sound.consistent.ready agrees.mirrors
  have isStore := agrees.store
  refine ⟨{ state with log := log, made := state.made ++ [.row storeCall] },
    { copying with history := copying.history.change log.eos.db.rows },
    .row storeCall, ?_, rfl, ?_⟩
  · simp only [step, stepped, named]
    rfl
  · constructor
    · exact isNext.sound
    · intro session member
      have sameIndices : log.eos.db.indexList =
          state.client.database.indexList :=
        rowsMirrored.tables.trans agrees.mirrors.tables.symm
      have covered := agrees.covered session member
      rw [← sameIndices] at covered
      exact covered
    · exact rowsMirrored
    · have subset : state.log.tableIds ⊆ log.tableIds := by
        rw [isNext.tableIds]
        exact List.subset_append_right _ _
      have mono := agrees.orderly.imp fun contents orderly =>
        orderly.mono subset
      exact mono.change (orderly_of_sound isNext.sound)
    · refine ⟨?_, agrees.copies.sessions⟩
      simp only [StoreLedger.enter, History.map_change, agrees.copies.history]
      rw [← isStore, ← isNext.store]
      rfl
    · simp only [StoreLedger.enter, isNext.answers, agrees.answers, isStore]

/-- A call on sessions copies and puts back the rows, and so the maps. -/
theorem agrees_session {call : SessionCall} {placement : Placement}
    (agrees : state.Agrees copying ledger)
    (owes : state.Owes (fun _ => SquashSafe) call) :
    ∃ next copyingNext madeCall,
      state.step sha ndebug (.session call placement) = some next ∧
      next.made = state.made ++ [madeCall] ∧
      next.Agrees copyingNext (ledger.enter ndebug madeCall) := by
  rcases mirrors_step ndebug state.client copying call.onDatabase
    agrees.mirrors (agrees.proper owes) with ⟨client, stepped, mirrors⟩
  have allTables : ∀ t, t ∈ copying.tables := by
    intro t
    rw [← agrees.mirrors.tables]
    exact agrees.sound.consistent.ready.registered t
  have ready : client.database.Ready := by
    refine ready_of_mirrors mirrors ?_
    rw [tables_session]
    exact allTables
  have orderly := every_session agrees.orderly call
  have current : Orderly state.log.tableIds client.database.rows := by
    rw [mirrors.database.rows_eq]
    exact orderly.current
  refine ⟨{ log := state.reopened call placement client.database
            sessions := client.sessions
            made := state.made ++ [.session call] },
    call.onDatabase.reference copying, .session call, ?_, rfl, ?_⟩
  · rw [step, stepped]
    rfl
  constructor
  · unfold reopened
    split
    · exact sound_renewed placement ready current
    · rename_i keeps
      have same : client.database.rows = state.log.eos.db.rows := by
        rw [mirrors.database.rows_eq, current_session (by simpa using keeps)]
        exact agrees.mirrors.database.rows_eq.symm
      exact sound_of_sameRows agrees.sound ready same
  · have sameIndices : client.database.indexList =
        state.client.database.indexList := by
      rw [mirrors.tables, tables_session]
      exact agrees.mirrors.tables.symm
    have covered := allCovered_step agrees.covered agrees.mirrors.uniform
      stepped sameIndices
    unfold reopened
    split
    · exact covered
    · exact covered
  · unfold reopened
    split
    · exact mirrors
    · exact mirrors
  · unfold reopened
    split
    · exact orderly
    · exact orderly
  · exact agrees.copies.session (List.ne_nil_of_mem (allTables .tableId)) call
  · unfold reopened
    split
    · simpa [StoreLedger.enter, renewed] using agrees.answers
    · simpa [StoreLedger.enter] using agrees.answers

theorem agrees_step {call : RowOrSessionCall}
    (agrees : state.Agrees copying ledger)
    (permitted : state.Permitted sha ndebug (fun _ => SquashSafe) call) :
    ∃ next copyingNext madeCall, state.step sha ndebug call = some next ∧
      next.made = state.made ++ [madeCall] ∧
      next.Agrees copyingNext (ledger.enter ndebug madeCall) := by
  cases call with
  | row call => exact agrees_row agrees permitted
  | session call placement => exact agrees_session agrees permitted

theorem agrees_run {calls : List RowOrSessionCall}
    (agrees : state.Agrees copying (.after ndebug state.made))
    (permitted : Runs.AllowedFrom (step sha ndebug)
      (Permitted sha ndebug fun _ => SquashSafe) state calls) :
    ∃ final copyingFinal, Runs.run (step sha ndebug) state calls = some final ∧
      final.made.length = state.made.length + calls.length ∧
      final.Agrees copyingFinal (.after ndebug final.made) := by
  induction calls generalizing state copying with
  | nil => exact ⟨state, copying, rfl, rfl, agrees⟩
  | cons call rest inductionHypothesis =>
      rcases agrees_step agrees permitted.1 with
        ⟨next, copyingNext, madeCall, stepped, isMade, nextAgrees⟩
      rw [← StoreLedger.after_concat, ← isMade] at nextAgrees
      rcases inductionHypothesis nextAgrees (permitted.2 next stepped) with
        ⟨final, copyingFinal, finished, sameLength, finalAgrees⟩
      refine ⟨final, copyingFinal, ?_, ?_, finalAgrees⟩
      · rw [Runs.run_cons, stepped]
        exact finished
      · rw [sameLength, isMade]
        simp only [List.length_append, List.length_cons, List.length_nil]
        omega

end Steps

/-- Six empty tables and no copies. -/
def noCopies : CopyingClient eosDbTables :=
  { tables := allTables
    history := .initial fun t => MultiIndex.empty (indexOf t)
    sessions := [] }

theorem mirrors_emptyTables :
    Client.Mirrors { database := emptyTables, sessions := [] } noCopies where
  uniform :=
    { database :=
        { writable := rfl
          nodup := by decide
          shapes := ⟨0, 0, fun t _ => ⟨GenericIndex.empty (indexOf t), rfl,
            ⟨le_rfl, by decide, rfl, rfl⟩⟩⟩ }
      sessions := by simp }
  tables := rfl
  database :=
    { registered := fun t _ =>
        ⟨GenericIndex.empty (indexOf t), rfl, represents_empty (indexOf t)⟩
      absent := fun t missing =>
        absurd (emptyTables_ready.registered t) missing
      bottom := fun noIndices => by cases noIndices }
  sessions := rfl

theorem start_agrees (place : (t : TableType) → (indexOf t).Id → Address) :
    (start place).Agrees noCopies .initial where
  sound := EosLog.start_sound place
  covered := fun session member => absurd member List.not_mem_nil
  mirrors := mirrors_emptyTables
  orderly := .initial
    { balanced := emptyTables_balanced
      wellMade := EosLog.emptyTables_wellMade
      tableIds := fun tab stored => absurd (MultiIndex.empty_row tab) stored }
  copies :=
    { history := by
        rw [noCopies, History.map_initial]
        exact congrArg History.initial
          (EosLog.store_of_noRows fun _ id => MultiIndex.empty_row id)
      sessions := rfl }
  answers := rfl

/-- The database that `undo` leaves, and the one that `undo_all` leaves. -/
theorem Agrees.undone {copying : CopyingClient eosDbTables}
    {ledger : StoreLedger} (agrees : state.Agrees copying ledger) :
    (∃ undone, Database.undo state.log.eos.db = .ok ⟨⟩ undone ∧
      Orderly state.log.tableIds undone.rows ∧
      storeOf undone.rows = ledger.history.undo.current) ∧
    ∃ unwound, Database.undoAll state.log.eos.db = .ok ⟨⟩ unwound ∧
      Orderly state.log.tableIds unwound.rows ∧
      storeOf unwound.rows = ledger.history.undoAll.current := by
  have nodup := agrees.mirrors.uniform.database.nodup
  have isHistory := agrees.copies.history
  constructor
  · rcases agrees.mirrors.database.undone nodup with
      ⟨undone, undoes, _, mirrors⟩
    refine ⟨undone, undoes, ?_, ?_⟩
    · rw [mirrors.rows_eq]
      exact agrees.orderly.undo.current
    · rw [mirrors.rows_eq, ← isHistory, ← History.map_undo]
      rfl
  · rcases agrees.mirrors.database.unwound nodup with
      ⟨unwound, unwinds, _, mirrors⟩
    refine ⟨unwound, unwinds, ?_, ?_⟩
    · rw [mirrors.rows_eq]
      exact agrees.orderly.undoAll.current
    · rw [mirrors.rows_eq, ← isHistory, ← History.map_undoAll]
      rfl

/-- Whatever is called, the tables hold what the maps hold that are copied and
put back as a whole, every call answers what these maps answer, and the next
undo gives back the maps of their newest or oldest copy. -/
theorem sessions_copy_maps (sha : Bytes → Sha256) (ndebug : Bool)
    (place : (t : TableType) → (indexOf t).Id → Address)
    (calls : List RowOrSessionCall)
    (permitted : Runs.AllowedFrom (step sha ndebug)
      (Permitted sha ndebug fun _ => SquashSafe) (start place) calls) :
    ∃ final, Runs.run (step sha ndebug) (start place) calls = some final ∧
      final.made.length = calls.length ∧
      final.log.eos.store =
        (StoreLedger.after ndebug final.made).history.current ∧
      final.log.answers = (StoreLedger.after ndebug final.made).answers ∧
      (∀ entry ∈ final.log.iterators,
        (final.log.eos.store.rows entry.1 entry.2.2).isSome = true) ∧
      (∃ undone, Database.undo final.log.eos.db = .ok ⟨⟩ undone ∧
        storeOf undone.rows =
          (StoreLedger.after ndebug final.made).history.undo.current) ∧
      ∃ unwound, Database.undoAll final.log.eos.db = .ok ⟨⟩ unwound ∧
        storeOf unwound.rows =
          (StoreLedger.after ndebug final.made).history.undoAll.current := by
  rcases agrees_run (start_agrees place) permitted with
    ⟨final, copying, finished, sameLength, agrees⟩
  rcases agrees.undone with
    ⟨⟨undone, undoes, _, isUndone⟩, unwound, unwinds, _, isUnwound⟩
  refine ⟨final, finished, ?_, agrees.store, agrees.answers,
    fun entry => agrees.sound.iterators, ⟨undone, undoes, isUndone⟩, unwound,
    unwinds, isUnwound⟩
  rw [sameLength]
  exact Nat.zero_add _

/-- Objects stand at the number of their id. -/
def byId : Placement where
  place
    | .tableId, id => (id : Int64).toBitVec.toNat
    | .keyValue, id => (id : Int64).toBitVec.toNat
    | .index _, id => (id : Int64).toBitVec.toNat
    | .tableKey, id => (id : Sha256).toNat
  apart := by
    have ofInt64 : Function.Injective fun id : Int64 => id.toBitVec.toNat :=
      fun _ _ same => Int64.toBitVec.inj (BitVec.eq_of_toNat_eq same)
    intro t
    cases t with
    | tableKey => exact fun _ _ same => BitVec.eq_of_toNat_eq same
    | _ => exact ofInt64

/-- A row is stored; a session changes it and adds a table, and a session inside
it removes it with its table.  The inner session is squashed and the outer one
is undone; the row is there again and is read through a new iterator. -/
def nestedCalls : List RowOrSessionCall :=
  [.row (.dbStoreI64 ⟨1⟩ 2 ⟨3⟩ ⟨4⟩ 7 [10] ⟨⟨16, 5⟩, ⟨32, 0⟩⟩),
    .session .start byId,
    .row (.dbUpdateI64 0 ⟨4⟩ [11]),
    .row (.dbStoreI64 ⟨1⟩ 2 ⟨9⟩ ⟨4⟩ 8 [12] ⟨⟨48, 6⟩, ⟨64, 0⟩⟩),
    .session .start byId,
    .row (.dbRemoveI64 0),
    .session (.squash 0) byId,
    .row (.dbStoreByKey .stdString 2 [107] 4 [1] ⟨112, 0⟩),
    .session (.undo 1) byId,
    .row (.dbFindI64 ⟨1⟩ 2 ⟨3⟩ 7),
    .row (.dbGetI64 0 2)]

theorem nestedCalls_permitted :
    Runs.AllowedFrom (step (fun _ => 0) false)
      (Permitted (fun _ => 0) false fun _ => SquashSafe)
      (start fun _ _ => 0) nestedCalls := by
  have fresh : Runs.AllowedFrom (step (fun _ => 0) false)
      (Permitted (fun _ => 0) false fun _ => FreshTop)
      (start fun _ _ => 0) nestedCalls := by
    decide +kernel
  refine fresh.mono fun state call permitted => ?_
  cases call with
  | row call => exact permitted
  | session call placement =>
      cases call with
      | squash position =>
          exact ⟨permitted.1, fun t member => (permitted.2 t member).squashSafe⟩
      | squashNewest => exact fun t member => (permitted t member).squashSafe
      | _ => exact permitted

theorem sessions_copy_maps_nested :
    ∃ final, Runs.run (step (fun _ => 0) false) (start fun _ _ => 0)
        nestedCalls = some final ∧
      final.made.length = 11 ∧
      final.log.eos.store =
        (StoreLedger.after false final.made).history.current ∧
      final.log.answers = (StoreLedger.after false final.made).answers ∧
      (∀ entry ∈ final.log.iterators,
        (final.log.eos.store.rows entry.1 entry.2.2).isSome = true) ∧
      (∃ undone, Database.undo final.log.eos.db = .ok ⟨⟩ undone ∧
        storeOf undone.rows =
          (StoreLedger.after false final.made).history.undo.current) ∧
      ∃ unwound, Database.undoAll final.log.eos.db = .ok ⟨⟩ unwound ∧
        storeOf unwound.rows =
          (StoreLedger.after false final.made).history.undoAll.current :=
  sessions_copy_maps (fun _ => 0) false (fun _ _ => 0) nestedCalls
    nestedCalls_permitted

end EosWithSessions

end StateDatabase
