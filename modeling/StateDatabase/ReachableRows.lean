import Mathlib
import StateDatabase.RowValues
import StateDatabase.EosCalls

/-!
# The rows of every reachable database

A property of single rows that the row steps of `eos_db` respect holds of all
rows of every database that a program can reach, also after it undid, squashed
or committed sessions: an undo state keeps only values that were rows before.
-/

namespace StateDatabase

open Programs GenericIndex

/-! ## All indices -/

namespace Database

variable {τ : Type} [DecidableEq τ] {F : IndexFamily τ} {database : Database F}
  {property : (t : τ) → (F.indexType t).Value → Prop} {t : τ}

/-- Every index is there, and its rows and undo states have the property. -/
structure AllSatisfy (property : (t : τ) → (F.indexType t).Value → Prop)
    (database : Database F) : Prop where
  ready : database.Ready
  indices : ∀ t, (database.index t).Satisfies (property t)

theorem AllSatisfy.setIndex {final : GenericIndex (F.indexType t)}
    (all : AllSatisfy property database)
    (satisfies : final.Satisfies (property t)) :
    AllSatisfy property (database.setIndex t final) where
  ready := all.ready.setIndex final
  indices := by
    intro tested
    by_cases same : tested = t
    · subst same
      rwa [index_setIndex_self]
    · rw [index_setIndex_ne same]
      exact all.indices tested

/-- The program keeps the property, unless it ends the process. -/
def Keeps (property : (t : τ) → (F.indexType t).Value → Prop) {α : Type}
    (program : DatabaseM F α) : Prop :=
  ∀ database, AllSatisfy property database →
    Ends program database (fun _ final => AllSatisfy property final)
      (fun fault final => fault.isException = true →
        AllSatisfy property final)

theorem AllSatisfy.ends_onIndex {α : Type}
    {program : IndexM (F.indexType t) α} (all : AllSatisfy property database)
    (ends : Ends program (database.index t)
      (fun _ final => final.Satisfies (property t))
      (fun fault final => fault.isException = true →
        final.Satisfies (property t))) :
    Ends (onIndex t program) database
      (fun _ final => AllSatisfy property final)
      (fun fault final => fault.isException = true →
        AllSatisfy property final) := by
  cases ran : program (database.index t) with
  | ok value final =>
      simp only [Ends, ran] at ends
      have returned : onIndex t program database =
          .ok value (database.setIndex t final) := by
        simp only [onIndex, all.ready.segment_eq t, ran]
      exact ends_of_ok returned (all.setIndex ends)
  | error fault final =>
      simp only [Ends, ran] at ends
      have failed : onIndex t program database =
          .error fault (database.setIndex t final) := by
        simp only [onIndex, all.ready.segment_eq t, ran]
      exact ends_of_error failed
        fun isException => all.setIndex (ends isException)

theorem AllSatisfy.ends_onRegistered {α : Type}
    {program : IndexM (F.indexType t) α} (all : AllSatisfy property database)
    (ends : Ends program (database.index t)
      (fun _ final => final.Satisfies (property t))
      (fun fault final => fault.isException = true →
        final.Satisfies (property t))) :
    Ends (onRegistered t program) database
      (fun _ final => AllSatisfy property final)
      (fun fault final => fault.isException = true →
        AllSatisfy property final) := by
  refine ends_bind (ends_of_ok (get_apply database) ?_)
  rw [if_pos (all.ready.registered t)]
  exact all.ends_onIndex ends

theorem keeps_onIndex (ndebug : Bool) (call : IndexCall (F.indexType t))
    (stores : ∀ index, call.Stores (property t) index) :
    Keeps property (onIndex t (call.program ndebug)) :=
  fun _ all => all.ends_onIndex (satisfies_ends ndebug call
    (all.indices t) (stores _))

omit [DecidableEq τ] in
theorem Keeps.bind {α β : Type} {program : DatabaseM F α}
    {continuation : α → DatabaseM F β} (first : Keeps property program)
    (rest : ∀ value, Keeps property (continuation value)) :
    Keeps property (program >>= continuation) :=
  fun database all => ends_bind ((first database all).imp
    (fun value middle holds => rest value middle holds)
    fun _ _ failed => failed)

omit [DecidableEq τ] in
theorem keeps_pure {α : Type} (value : α) :
    Keeps property (pure value : DatabaseM F α) :=
  fun _ all => ends_pure all

theorem keeps_forIndices
    {program : (t : τ) → IndexM (F.indexType t) PUnit}
    (each : ∀ t, Keeps property (onIndex t (program t))) :
    ∀ targets : List τ, Keeps property (forIndices program targets)
  | [] => keeps_pure PUnit.unit
  | t :: rest => (each t).bind fun _ => keeps_forIndices each rest

theorem keeps_forAllIndices
    {program : (t : τ) → IndexM (F.indexType t) PUnit}
    (each : ∀ t, Keeps property (onIndex t (program t))) :
    Keeps property (do forIndices program (← get).indexList) :=
  fun database all => ends_bind (ends_of_ok (get_apply database)
    (keeps_forIndices each database.indexList database all))

theorem keeps_startSubSession (t : τ) :
    Keeps property (startSubSession t : DatabaseM F (SubSession τ)) := by
  refine (keeps_onIndex false .startUndoSession
    fun _ => trivial).bind fun _ => ?_
  refine Keeps.bind (fun database all => ?_) fun _ => keeps_pure _
  exact all.ends_onIndex (ends_of_ok rfl (all.indices t))

theorem keeps_startSubSessions : ∀ targets : List τ,
    Keeps property (startSubSessions targets : DatabaseM F _)
  | [] => keeps_pure []
  | t :: rest => (keeps_startSubSession t).bind fun _ =>
      (keeps_startSubSessions rest).bind fun _ => keeps_pure _

theorem keeps_startUndoSession :
    Keeps property (startUndoSession : DatabaseM F (DatabaseSession τ)) :=
  fun database all => ends_bind (ends_of_ok (get_apply database)
    ((keeps_startSubSessions database.indexList).bind
      (fun _ => keeps_pure _) database all))

end Database

/-! ## Row steps -/

section RowSteps

variable {before after : Database eosDbTables}

/-- A modification that excludes the same rows keeps the primary key. -/
theorem WellMade.of_interchangeable {t : TableType}
    {old new : (indexOf t).Value} (wellMade : WellMade t old)
    (same : (indexOf t).Interchangeable old new) : WellMade t new := by
  cases t with
  | keyValue =>
      have sameKey : new.scopePrimary = old.scopePrimary :=
        (clash_keyValue_iff new old).mp
          ((same.2 old).mpr ((clash_keyValue_iff old old).mpr rfl))
      have samePrimary : new.primaryKey = old.primaryKey :=
        congrArg Prod.snd sameKey
      have sameId : new.id = old.id := same.1
      change new.id = new.primaryKey.toInt64
      rw [sameId, samePrimary]
      exact wellMade
  | tableId => trivial
  | index kind => trivial
  | tableKey => trivial

theorem RowStep.allWellMade (step : RowStep before after)
    (all : before.AllSatisfy WellMade) : after.AllSatisfy WellMade := by
  cases step with
  | @create t value _ wellMade success =>
      have ends := all.ends_onRegistered (t := t) (satisfies_ends false
        (.emplace value) (all.indices t) wellMade)
      exact ends.of_ok success
  | @modify t id value modifier _ found same success =>
      have stores : (IndexCall.modify (T := indexOf t) id modifier).Stores
          (WellMade t) (before.index t) := by
        intro other isOther wellMade
        have isValue : other = value := by
          have lookup : (before.rows t).find id = some value := found
          exact Option.some.inj (isOther.symm.trans lookup)
        subst isValue
        exact wellMade.of_interchangeable same
      have ends := all.ends_onRegistered (t := t)
        (satisfies_ends false _ (all.indices t) stores)
      exact ends.of_ok success
  | @remove t id value _ found success =>
      have ends := all.ends_onRegistered (t := t) (satisfies_ends false
        (.remove id) (all.indices t) trivial)
      exact ends.of_ok success

theorem RowSteps.allWellMade (steps : RowSteps before after)
    (all : before.AllSatisfy WellMade) : after.AllSatisfy WellMade := by
  induction steps with
  | refl => exact all
  | tail _ step inductionHypothesis =>
      exact step.allWellMade inductionHypothesis

end RowSteps

/-! ## Runs -/

namespace EosDb

variable {eos : EosDb} {sha : Bytes → Sha256} {ndebug : Bool}

/-- The program leaves well-made rows behind, unless it ends the process. -/
def LeavesWellMade {α : Type} (program : EosDbM α) (eos : EosDb) : Prop :=
  Ends program eos (fun _ final => final.db.AllSatisfy WellMade)
    (fun fault final => fault.isException = true →
      final.db.AllSatisfy WellMade)

theorem Loose.leavesWellMade {α : Type} {program : EosDbM α}
    {post : α → EosDb → Prop} (loose : Loose program eos post)
    (all : eos.db.AllSatisfy WellMade) : LeavesWellMade program eos :=
  Ends.imp loose (fun _ _ holds => RowSteps.allWellMade holds.1 all)
    fun _ _ failed isException => RowSteps.allWellMade (failed isException) all

theorem LeavesWellMade.map {α β : Type} {program : EosDbM α} {f : α → β}
    (leaves : LeavesWellMade program eos) :
    LeavesWellMade (f <$> program) eos :=
  ends_map leaves

theorem leavesWellMade_onDatabase {α : Type}
    {program : Database.DatabaseM eosDbTables α}
    (keeps : Database.Keeps WellMade program)
    (all : eos.db.AllSatisfy WellMade) :
    LeavesWellMade (onDatabase program) eos :=
  ends_zoom (keeps eos.db all)

theorem leavesWellMade_restore
    {program : Database.DatabaseM eosDbTables PUnit}
    {place : (t : TableType) → (indexOf t).Id → Address}
    (keeps : Database.Keeps WellMade program)
    (all : eos.db.AllSatisfy WellMade) :
    LeavesWellMade (restore program place) eos := by
  refine ends_bind (Ends.imp (leavesWellMade_onDatabase keeps all) ?_
    fun _ _ failed => failed)
  intro _ middle holds
  exact holds

/-- Every call of a program keeps the rows well made. -/
theorem leavesWellMade_call (sha : Bytes → Sha256) (ndebug : Bool) (call : EosCall)
    (all : eos.db.AllSatisfy WellMade) :
    LeavesWellMade (call.program sha ndebug) eos := by
  have ready := all.ready
  cases call with
  | findOrCreateTable code scope table payer block =>
      exact ((steps_findOrCreateTable ready).loose.leavesWellMade all).map
  | dbStoreByScope code scope table payer buffer block =>
      exact ((steps_dbStoreByScope ready).loose.leavesWellMade all).map
  | dbUpdateByScope iterator payer buffer =>
      exact ((loose_dbUpdateByScope ready).leavesWellMade all).map
  | dbStoreI64 code scope table payer id buffer memory =>
      exact ((steps_dbStoreI64 ready).loose.leavesWellMade all).map
  | dbUpdateI64 iterator payer buffer =>
      exact ((loose_dbUpdateI64 ready).leavesWellMade all).map
  | dbRemoveI64 iterator =>
      exact ((loose_dbRemoveI64 ready).leavesWellMade all).map
  | dbGetI64 iterator bufferSize =>
      exact ((loose_dbGetI64 ready).leavesWellMade all).map
  | dbFindI64 code scope table id =>
      exact ((loose_dbFindI64 ready).leavesWellMade all).map
  | idxStore kind code scope table payer id value memory =>
      exact ((steps_idxStore ready).loose.leavesWellMade all).map
  | idxUpdate kind iterator payer secondary =>
      exact ((loose_idxUpdate ready).leavesWellMade all).map
  | idxRemove kind iterator =>
      exact ((loose_idxRemove ready).leavesWellMade all).map
  | dbStoreByKey type scope key payer buffer block =>
      exact ((loose_dbStoreByKey ready).leavesWellMade all).map
  | dbUpdateByKey type scope key payer buffer =>
      exact ((loose_dbUpdateByKey ready).leavesWellMade all).map
  | dbRemoveByKey type scope key =>
      exact ((loose_dbRemoveByKey ready).leavesWellMade all).map
  | dbFindByKey type scope key =>
      exact ((loose_dbFindByKey ready).leavesWellMade all).map
  | startUndoSession =>
      exact (leavesWellMade_onDatabase Database.keeps_startUndoSession
        all).map
  | undo place =>
      exact (leavesWellMade_restore (Database.keeps_forAllIndices fun _ =>
        Database.keeps_onIndex ndebug .undo
          fun _ => trivial) all).map
  | squash =>
      exact (leavesWellMade_onDatabase (Database.keeps_forAllIndices fun _ =>
        Database.keeps_onIndex ndebug .squash
          fun _ => trivial) all).map
  | commit revision =>
      exact (leavesWellMade_onDatabase (Database.keeps_forAllIndices fun _ =>
        Database.keeps_onIndex ndebug (.commit revision)
          fun _ => trivial) all).map
  | undoAll place =>
      exact (leavesWellMade_restore (Database.keeps_forAllIndices fun _ =>
        Database.keeps_onIndex ndebug .undoAll
          fun _ => trivial) all).map
  | setRevision revision =>
      exact (leavesWellMade_onDatabase (Database.keeps_forAllIndices fun _ =>
        Database.keeps_onIndex ndebug (.setRevision revision)
          fun _ => trivial) all).map

/-- A database that a program can reach from empty tables. -/
def Reachable (sha : Bytes → Sha256) (ndebug : Bool)
    (database : Database eosDbTables) : Prop :=
  ∃ (place : (t : TableType) → (indexOf t).Id → Address)
    (calls : List EosCall) (final : EosDb),
    Runs.run (EosCall.step sha ndebug) (ofDatabase emptyTables place) calls =
      some final ∧ final.db = database

theorem emptyTables_allWellMade : emptyTables.AllSatisfy WellMade where
  ready := emptyTables_ready
  indices := by
    intro t
    constructor
    · intro id value found
      have isEmpty : (emptyTables.index t).indices.rows[id]? = none :=
        MultiIndex.empty_row id
      rw [isEmpty] at found
      cases found
    · exact fun _ member => absurd member List.not_mem_nil

/-- The rows of every reachable database are well made. -/
theorem Reachable.allWellMade {database : Database eosDbTables}
    (reachable : Reachable sha ndebug database) :
    database.AllSatisfy WellMade := by
  obtain ⟨place, calls, final, finished, isDatabase⟩ := reachable
  subst isDatabase
  refine Runs.run_preserves
    (fun eos : EosDb => eos.db.AllSatisfy WellMade) ?_
    emptyTables_allWellMade
    (Runs.allowedFrom_of_forall (fun _ _ => trivial) calls _) finished
  intro state call next all _ stepped
  have ends := leavesWellMade_call sha ndebug call all
  unfold LeavesWellMade at ends
  exact survive_of_ends
    (fun eos : EosDb => eos.db.AllSatisfy WellMade) ends stepped

end EosDb

end StateDatabase
