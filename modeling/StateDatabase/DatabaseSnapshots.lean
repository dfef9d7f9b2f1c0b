import Mathlib
import StateDatabase.Library.SnapshotViews
import StateDatabase.SquashUndo
import StateDatabase.SessionUndo

/-!
# A database refines full copies of all its tables

`Represents` relates one index to a store with full copies.  Here a whole
database with its sessions is related to one store that copies all tables at
once: a session saves them together and an undo puts them back together,
whichever index changed.

A table that is not registered yet is empty in the store and in all copies.  So
its registration, which gives the new index the undo states of the others, is
not seen by the store at all.
-/

namespace StateDatabase

open Programs GenericIndex Snapshots

variable {τ : Type} [DecidableEq τ] {F : IndexFamily τ}

/-- The rows of all tables. -/
abbrev DatabaseRows (F : IndexFamily τ) := (t : τ) → MultiIndex (F.indexType t)

/-! ## The store with copies -/

/-- A client of a store that copies all tables; `sessions` says which sessions
have yet to be ended. -/
structure CopyingClient (F : IndexFamily τ) where
  tables : List τ
  history : History (DatabaseRows F)
  sessions : List Bool

namespace CopyingClient

variable (client : CopyingClient F)

omit [DecidableEq τ] in
/-- No table is registered and all are empty. -/
def initial (F : IndexFamily τ) : CopyingClient F :=
  { tables := []
    history := .initial fun t => MultiIndex.empty (F.indexType t)
    sessions := [] }

/-- A table has new rows. -/
def setRows (t : τ) (rows : MultiIndex (F.indexType t)) : CopyingClient F :=
  { client with
    history := client.history.change
      (Function.update client.history.current t rows) }

/-- A session that was ended before does nothing. -/
def endSession (step : History (DatabaseRows F) → History (DatabaseRows F))
    (position : Nat) : CopyingClient F :=
  if client.sessions[position]? = some true then
    { client with
      history := step client.history
      sessions := client.sessions.set position false }
  else client

end CopyingClient

namespace DatabaseCall

/-- The same call on the store with copies. -/
def reference (client : CopyingClient F) : DatabaseCall F → CopyingClient F
  | .addIndex t => { client with tables := client.tables ++ [t] }
  | .startUndoSession =>
      if client.tables = [] then
        { client with sessions := false :: client.sessions }
      else
        { client with
          history := client.history.start
          sessions := true :: client.sessions }
  | .sessionPush position => client.endSession id position
  | .sessionSquash position => client.endSession History.squash position
  | .sessionUndo position => client.endSession History.undo position
  | .sessionDestroy position =>
      let ended := client.endSession History.undo position
      { ended with sessions := ended.sessions.eraseIdx position }
  | .undo => { client with history := client.history.undo }
  | .squash => { client with history := client.history.squash }
  | .commit revision => { client with history := client.history.commit revision }
  | .undoAll => { client with history := client.history.undoAll }
  | .setRevision revision =>
      if client.tables = [] ∨ int64Max < (revision.toNat : Int) then client
      else { client with
        history := client.history.setRevision (revision.toNat : Int) }
  | .create t value =>
      match (client.history.current t).emplace value with
      | none => client
      | some inserted => client.setRows t inserted
  | .modify t id modifier =>
      match (client.history.current t).find id with
      | none => client
      | some value =>
          match (client.history.current t).modify id (modifier value) with
          | none => client
          | some modified => client.setRows t modified
  | .remove t id => client.setRows t ((client.history.current t).erase id)

/-- What the client owes besides covering the indices: rows are of registered
tables and changed as on one index, revisions do not overflow, the sessions it
names exist, and it squashes only where every index can be squashed. -/
def Permitted (keeps : (t : τ) → (F.indexType t).Value →
      (F.indexType t).Value → Prop)
    (squashable : (t : τ) → GenericIndex (F.indexType t) → Prop)
    (client : Client F) : DatabaseCall F → Prop
  | .startUndoSession => ∀ t ∈ client.database.indexList,
      (client.database.index t).revision < int64Max
  | .sessionPush position => position < client.sessions.length
  | .sessionSquash position => position < client.sessions.length ∧
      ∀ t ∈ client.database.indexList, squashable t (client.database.index t)
  | .sessionUndo position => position < client.sessions.length
  | .sessionDestroy position => position < client.sessions.length
  | .squash =>
      ∀ t ∈ client.database.indexList, squashable t (client.database.index t)
  | .create t _ => t ∈ client.database.indexList
  | .modify t id modifier => t ∈ client.database.indexList ∧
      (IndexCall.modify id modifier).Permitted (keeps t) (squashable t)
        (client.database.index t)
  | .remove t id => t ∈ client.database.indexList ∧
      (IndexCall.remove id : IndexCall (F.indexType t)).Permitted (keeps t)
        (squashable t) (client.database.index t)
  | _ => True

end DatabaseCall

/-- The store with copies after the same calls. -/
def copyingRun (calls : List (DatabaseCall F)) : CopyingClient F :=
  calls.foldl DatabaseCall.reference (CopyingClient.initial F)

/-! ## The relation -/

namespace Database

variable {database : Database F} {history : History (DatabaseRows F)} {t : τ}

/-- Every registered index represents its part of the history, and every other
table is empty and has always been. -/
structure Mirrors (database : Database F) (history : History (DatabaseRows F)) :
    Prop where
  registered : ∀ t ∈ database.indexList, ∃ index,
    database.segment t = some index ∧
      Represents index (history.map fun contents => contents t)
  absent : ∀ t ∉ database.indexList, database.segment t = none ∧
    (history.map fun contents => contents t).Constant
      (MultiIndex.empty (F.indexType t))
  bottom : database.indexList = [] → history.copies = [] ∧ history.revision = 0

omit [DecidableEq τ] in
theorem Mirrors.rows_eq (mirrors : database.Mirrors history) :
    database.rows = history.current := by
  classical
  funext t
  by_cases member : t ∈ database.indexList
  · obtain ⟨index, found, represents⟩ := mirrors.registered t member
    rw [rows, Database.index, found, Option.getD_some, represents.rows]
    rfl
  · obtain ⟨isNone, constant⟩ := mirrors.absent t member
    rw [rows, Database.index, isNone, Option.getD_none]
    exact constant.current.symm

omit [DecidableEq τ] in
/-- The copies have the revisions of the undo states of every registered
index. -/
theorem Mirrors.revisions (mirrors : database.Mirrors history)
    (member : t ∈ database.indexList) :
    (database.index t).revision = history.revision ∧
      (database.index t).stack.map UndoState.revision =
        history.copies.map Prod.fst := by
  obtain ⟨index, found, represents⟩ := mirrors.registered t member
  rw [Database.index, found, Option.getD_some]
  refine ⟨represents.revision, ?_⟩
  rw [represents.aligned.revisions_eq, History.map_copies_fst]

/-- A loop that returns at every index leaves each with its own result. -/
theorem forIndices_ok
    {program : (t : τ) → IndexM (F.indexType t) PUnit}
    {next : (t : τ) → GenericIndex (F.indexType t)} {targets : List τ} :
    ∀ {database : Database F}, targets.Nodup →
      (∀ t ∈ targets, ∃ index, database.segment t = some index ∧
        program t index = .ok ⟨⟩ (next t)) →
        ∃ final, forIndices program targets database = .ok ⟨⟩ final ∧
          final.indexList = database.indexList ∧
          final.readOnly = database.readOnly ∧
          ∀ t, final.segment t =
            if t ∈ targets then some (next t) else database.segment t := by
  induction targets with
  | nil =>
      intro database _ _
      exact ⟨database, rfl, rfl, rfl, by simp⟩
  | cons t rest inductionHypothesis =>
      intro database nodup each
      rcases List.nodup_cons.mp nodup with ⟨notInRest, restNodup⟩
      obtain ⟨index, found, ran⟩ := each t List.mem_cons_self
      have first : onIndex t (program t) database =
          .ok ⟨⟩ (database.setIndex t (next t)) := by
        simp only [onIndex, found, ran]
      obtain ⟨final, finished, indexList, readOnly, segments⟩ :=
        inductionHypothesis restNodup (by
            intro tested member
            have different : tested ≠ t := fun same => notInRest (same ▸ member)
            rw [setIndex_segment_ne different]
            exact each tested (List.mem_cons_of_mem t member))
      refine ⟨final, ?_, indexList, readOnly, ?_⟩
      · rw [forIndices, bind_apply_of_ok _ first]
        exact finished
      · intro tested
        rw [segments tested]
        by_cases same : tested = t
        · subst same
          simp [notInRest]
        · simp [same, setIndex_segment_ne same]

/-- A program that does to every index what `step` does to its part of the
history. -/
theorem Mirrors.everywhere
    {program : (t : τ) → IndexM (F.indexType t) PUnit}
    {step : History (DatabaseRows F) → History (DatabaseRows F)}
    {view : {T : IndexType} → History (MultiIndex T) → History (MultiIndex T)}
    (mirrors : database.Mirrors history) (nodup : database.indexList.Nodup)
    (views : ∀ t, (step history).map (fun contents => contents t) =
      view (history.map fun contents => contents t))
    (constant : ∀ (T : IndexType) (part : History (MultiIndex T)) rows,
      part.Constant rows → (view part).Constant rows)
    (bottom : history.copies = [] → database.indexList = [] →
      step history = history)
    (simulates : ∀ t ∈ database.indexList, ∀ index part,
      database.segment t = some index → Represents index part →
        ∃ next, program t index = .ok ⟨⟩ next ∧ Represents next (view part)) :
    ∃ final, forIndices program database.indexList database = .ok ⟨⟩ final ∧
      final.indexList = database.indexList ∧ final.Mirrors (step history) := by
  have each : ∀ t, ∃ next : GenericIndex (F.indexType t),
      t ∈ database.indexList → ∃ index, database.segment t = some index ∧
        program t index = .ok ⟨⟩ next ∧
        Represents next ((step history).map fun contents => contents t) := by
    intro t
    by_cases member : t ∈ database.indexList
    · obtain ⟨index, found, represents⟩ := mirrors.registered t member
      obtain ⟨next, ran, related⟩ := simulates t member index _ found represents
      exact ⟨next, fun _ => ⟨index, found, ran, by rw [views]; exact related⟩⟩
    · exact ⟨GenericIndex.empty _, fun isMember => absurd isMember member⟩
  choose next results using each
  obtain ⟨final, finished, indexList, _, segments⟩ :=
    forIndices_ok nodup fun t member =>
      let ⟨index, found, ran, _⟩ := results t member
      ⟨index, found, ran⟩
  refine ⟨final, finished, indexList, ?_, ?_, ?_⟩
  · intro t member
    rw [indexList] at member
    obtain ⟨_, _, _, related⟩ := results t member
    exact ⟨next t, by rw [segments, if_pos member], related⟩
  · intro t notMember
    rw [indexList] at notMember
    obtain ⟨isNone, isConstant⟩ := mirrors.absent t notMember
    rw [segments, if_neg notMember, views]
    exact ⟨isNone, constant _ _ _ isConstant⟩
  · intro noIndices
    rw [indexList] at noIndices
    have flat := mirrors.bottom noIndices
    rw [bottom flat.1 noIndices]
    exact flat

/-! ## Registration -/

/-- There are no rows, and no undo state has any. -/
def Bare {T : IndexType} (index : GenericIndex T) : Prop :=
  ∃ part, Represents index part ∧ part.Constant (MultiIndex.empty T)

section Bare

variable {T : IndexType} {index : GenericIndex T}

theorem bare_empty (T : IndexType) : Bare (GenericIndex.empty T) :=
  ⟨_, represents_empty T, .initial rfl⟩

theorem Bare.ends_start (bare : Bare index) :
    Ends GenericIndex.startUndoSession index (fun _ final => Bare final)
      (fun _ _ => True) := by
  rcases bare with ⟨part, represents, constant⟩
  by_cases bounded : index.revision < int64Max
  · exact ends_of_ok (startUndoSession_apply bounded)
      ⟨part.start, represents.start, constant.start⟩
  · unfold GenericIndex.startUndoSession
    refine ends_bind (ends_of_ok (get_apply index) ?_)
    rw [if_neg bounded]
    exact ends_of_error (throw_apply _ _) trivial

theorem Bare.ends_setRevision (revision : UInt64) (bare : Bare index) :
    Ends (GenericIndex.setRevision revision) index (fun _ final => Bare final)
      (fun _ _ => True) := by
  rcases bare with ⟨part, represents, constant⟩
  by_cases accepted : index.stack = [] ∧ (revision.toNat : Int) ≤ int64Max
  · exact ends_of_ok (setRevision_apply_nil accepted.1 accepted.2)
      ⟨_, represents.setRevision revision accepted.1,
        constant.setRevision _⟩
  · have refused :
        index.stack ≠ [] ∨ int64Max < (revision.toNat : Int) := by
      by_cases empty : index.stack = []
      · exact Or.inr (not_le.mp fun bounded => accepted ⟨empty, bounded⟩)
      · exact Or.inl empty
    obtain ⟨message, failed⟩ := setRevision_apply_error refused
    exact ends_of_error failed trivial

theorem Bare.ends_replaySessions (target : Int) (rounds : Nat)
    (bare : Bare index) :
    Ends (replaySessions target rounds) index (fun _ final => Bare final)
      (fun _ _ => True) := by
  induction rounds generalizing index with
  | zero => exact ends_pure bare
  | succ rounds inductionHypothesis =>
      refine ends_bind (ends_of_ok (get_apply index) ?_)
      by_cases below : index.revision < target
      · rw [if_pos below]
        refine ends_bind (bare.ends_start.imp ?_ fun _ _ failed => failed)
        exact fun _ _ started => inductionHypothesis started
      · rw [if_neg below]
        exact ends_pure bare

theorem Bare.ends_adoptRange (expected : Int × Int) (bare : Bare index) :
    Ends (adoptRange expected) index (fun _ final => Bare final)
      (fun _ _ => True) := by
  refine ends_bind ((bare.ends_setRevision _).imp ?_ fun _ _ failed => failed)
  intro _ middle isBare
  exact ends_bind (ends_of_ok (get_apply middle)
    (isBare.ends_replaySessions _ _))

end Bare

/-- The table was constructed and nothing was stored in it. -/
def Unused (t : τ) (database : Database F) : Prop :=
  ∃ index, database.segment t = some index ∧ Bare index

theorem Unused.ends_reconcile {front : τ} {firstTimeAdding : Bool}
    (unused : Unused t database) :
    Ends (reconcile t front firstTimeAdding) database
      (fun _ final => Unused t final) (fun _ _ => True) := by
  rcases unused with ⟨index, found, bare⟩
  have adopts : ∀ expected,
      Ends (onIndex t (adoptRange expected)) database
        (fun _ final => Unused t final) (fun _ _ => True) := by
    intro expected
    refine ends_onIndex found ((bare.ends_adoptRange expected).imp ?_ ?_)
    · exact fun _ final isBare => ⟨final, setIndex_segment_self t final, isBare⟩
    · exact fun _ _ _ => trivial
  refine ends_bind (ends_of_ok (get_apply database) ?_)
  split
  · split
    · cases firstTimeAdding with
      | false => exact ends_of_error rfl trivial
      | true =>
          cases readOnly : database.readOnly with
          | true =>
              simp only [Bool.true_eq_false, if_true, if_false]
              exact ends_of_error rfl trivial
          | false =>
              simp only [Bool.true_eq_false, Bool.false_eq_true, if_false]
              exact adopts _
    · exact ends_pure ⟨index, found, bare⟩
  · exact ends_of_error (throw_apply _ _) trivial

/-- A new index stays without rows while it is given its undo states. -/
theorem ends_addIndex_unused (isNew : database.segment t = none)
    (unregistered : t ∉ database.indexList) :
    Ends (addIndex t) database (fun _ final => Unused t final)
      (fun _ _ => True) := by
  unfold Ends
  rw [addIndex_unregistered unregistered rfl]
  refine ends_bind ?_
  have found : Ends (findOrConstruct t) database
      (fun _ final => Unused t final ∧
        final.indexList = database.indexList) (fun _ _ => True) := by
    unfold findOrConstruct
    refine ends_bind (ends_of_ok (get_apply database) ?_)
    rw [isNew]
    by_cases readOnly : database.readOnly = true
    · simp only [readOnly, if_true]
      exact ends_of_error (bind_apply_of_error _ (throw_apply _ _)) trivial
    · simp only [readOnly]
      exact ends_of_ok rfl ⟨⟨_, setIndex_segment_self t _,
        bare_empty _⟩, rfl⟩
  refine found.imp ?_ fun _ _ failed => failed
  rintro firstTimeAdding middle ⟨unused, _⟩
  have registers : ∀ {reached : Database F}, Unused t reached →
      Ends (register t) reached (fun _ final => Unused t final)
        (fun _ _ => True) :=
    fun isUnused => ends_of_ok (register_apply t _) isUnused
  split
  · exact registers unused
  · exact ends_bind (unused.ends_reconcile.imp
      (fun _ _ isUnused => registers isUnused) fun _ _ failed => failed)

/-- A new index is part of the store that it was an empty part of before. -/
theorem Mirrors.added {base : Int} {depth : Nat} {final : Database F}
    (mirrors : database.Mirrors history)
    (unregistered : t ∉ database.indexList)
    (shapes : ∀ other ∈ database.indexList,
      database.HasShape other base depth)
    (flat : database.indexList = [] → base = 0 ∧ depth = 0)
    (registered : Registered t base depth database final)
    (unused : Unused t final) : final.Mirrors history := by
  have isEmpty := (mirrors.absent t unregistered).2
  have range : history.revision = base + depth ∧
      history.copies.map Prod.fst = descending base depth := by
    cases isList : database.indexList with
    | nil =>
        obtain ⟨rfl, rfl⟩ := flat isList
        obtain ⟨noCopies, zero⟩ := mirrors.bottom isList
        simp [noCopies, zero, descending]
    | cons front rest =>
        have member : front ∈ database.indexList := by simp [isList]
        obtain ⟨revision, revisions⟩ := mirrors.revisions member
        obtain ⟨index, found, shape⟩ := shapes front member
        rw [Database.index, found, Option.getD_some] at revision revisions
        exact ⟨revision.symm.trans shape.revision,
          revisions.symm.trans shape.stack⟩
  refine ⟨?_, ?_, ?_⟩
  · intro tested member
    by_cases same : tested = t
    · subst same
      obtain ⟨index, found, part, represents, constant⟩ := unused
      obtain ⟨shaped, isShaped, shape⟩ := registered.shape
      rw [found] at isShaped
      cases isShaped
      have isPart : part = history.map fun contents => contents tested := by
        refine constant.eq_of_revisions isEmpty ?_ ?_
        · rw [← represents.revision, shape.revision, History.map_revision,
            range.1]
        · rw [← represents.aligned.revisions_eq, shape.stack,
            History.map_copies_fst, range.2]
      exact ⟨index, found, isPart ▸ represents⟩
    · rw [registered.others tested same]
      rw [registered.indexList, List.mem_append, List.mem_singleton] at member
      exact mirrors.registered tested (member.resolve_right same)
  · intro tested notMember
    rw [registered.indexList, List.mem_append, List.mem_singleton,
      not_or] at notMember
    rw [registered.others tested notMember.2]
    exact mirrors.absent tested notMember.1
  · intro noIndices
    rw [registered.indexList] at noIndices
    simp at noIndices

/-! ## Calls on all indices -/

/-- The sub-sessions are started by a loop over the indices. -/
theorem startSubSessions_of_forIndices {targets : List τ} {final : Database F}
    (started : forIndices (fun _ => GenericIndex.startUndoSession) targets
      database = .ok ⟨⟩ final) :
    ∃ sessions, startSubSessions targets database = .ok sessions final := by
  induction targets generalizing database with
  | nil =>
      cases started
      exact ⟨[], rfl⟩
  | cons t rest inductionHypothesis =>
      obtain ⟨_, middle, opened, later⟩ := bind_apply_ok started
      obtain ⟨sessions, finished⟩ := inductionHypothesis later
      have stored : ∃ index, middle.segment t = some index := by
        unfold onIndex at opened
        split at opened
        · cases opened
        · split at opened
          · cases opened
            exact ⟨_, setIndex_segment_self t _⟩
          · cases opened
      rcases stored with ⟨index, found⟩
      have read : onIndex t (do return (← get).revision) middle =
          .ok index.revision middle := by
        simp only [onIndex, found]
        change EStateM.Result.ok index.revision (middle.setIndex t index) = _
        rw [setIndex_self found]
      have first : ∃ session, startSubSession t database =
          .ok session middle := by
        rw [startSubSession, bind_apply_of_ok _ opened, bind_apply_of_ok _ read]
        exact ⟨_, rfl⟩
      rcases first with ⟨session, first⟩
      refine ⟨session :: sessions, ?_⟩
      rw [startSubSessions, bind_apply_of_ok _ first,
        bind_apply_of_ok _ finished]
      rfl

theorem Mirrors.undone (mirrors : database.Mirrors history)
    (nodup : database.indexList.Nodup) :
    ∃ final, forIndices (fun _ => GenericIndex.undo) database.indexList
        database = .ok ⟨⟩ final ∧
      final.indexList = database.indexList ∧ final.Mirrors history.undo := by
  refine mirrors.everywhere nodup (fun t => History.map_undo _ history)
    (fun _ _ _ => .undo) ?_ ?_
  · intro noCopies _
    simp [History.undo, noCopies]
  · intro t _ index part _ represents
    obtain ⟨next, success, _, related⟩ := represents.undo
    exact ⟨next, success, related⟩

theorem Mirrors.squashed (ndebug : Bool) (mirrors : database.Mirrors history)
    (nodup : database.indexList.Nodup)
    (safe : ∀ t ∈ database.indexList, SquashSafe (database.index t)) :
    ∃ final, forIndices (fun _ => GenericIndex.squash ndebug)
        database.indexList database = .ok ⟨⟩ final ∧
      final.indexList = database.indexList ∧ final.Mirrors history.squash := by
  refine mirrors.everywhere nodup (fun t => History.map_squash _ history)
    (fun _ _ _ => .squash) ?_ ?_
  · intro noCopies _
    simp [History.squash, noCopies]
  · intro t member index part found represents
    have isSafe := safe t member
    rw [Database.index, found, Option.getD_some] at isSafe
    exact represents.squash ndebug isSafe

theorem Mirrors.committed (revision : Int) (mirrors : database.Mirrors history)
    (nodup : database.indexList.Nodup) :
    ∃ final, forIndices (fun _ => GenericIndex.commit revision)
        database.indexList database = .ok ⟨⟩ final ∧
      final.indexList = database.indexList ∧
      final.Mirrors (history.commit revision) := by
  refine mirrors.everywhere nodup
    (fun t => History.map_commit _ history revision)
    (fun _ _ _ => .commit revision) ?_ ?_
  · intro noCopies _
    exact History.commit_of_copies_nil noCopies
  · intro t _ index part _ represents
    exact ⟨_, commit_apply revision index, represents.commit revision⟩

theorem Mirrors.unwound (mirrors : database.Mirrors history)
    (nodup : database.indexList.Nodup) :
    ∃ final, forIndices (fun _ => GenericIndex.undoAll) database.indexList
        database = .ok ⟨⟩ final ∧
      final.indexList = database.indexList ∧ final.Mirrors history.undoAll := by
  refine mirrors.everywhere nodup (fun t => History.map_undoAll _ history)
    (fun _ _ _ => .undoAll) ?_ ?_
  · intro noCopies _
    exact History.undoAll_of_copies_nil noCopies
  · intro t _ index part _ represents
    exact Represents.undoTimes index.stack.length represents rfl

theorem Mirrors.started (mirrors : database.Mirrors history)
    (nodup : database.indexList.Nodup) (someIndex : database.indexList ≠ [])
    (bounded : ∀ t ∈ database.indexList,
      (database.index t).revision < int64Max) :
    ∃ final, forIndices (fun _ => GenericIndex.startUndoSession)
        database.indexList database = .ok ⟨⟩ final ∧
      final.indexList = database.indexList ∧ final.Mirrors history.start := by
  refine mirrors.everywhere nodup (fun t => History.map_start _ history)
    (fun _ _ _ => .start) ?_ ?_
  · exact fun _ noIndices => absurd noIndices someIndex
  · intro t member index part found represents
    have isBounded := bounded t member
    rw [Database.index, found, Option.getD_some] at isBounded
    exact ⟨_, startUndoSession_apply isBounded, represents.start⟩

/-- `set_revision` sets the revision of every index, or throws at the first
one. -/
theorem Mirrors.renumbered {front : τ} {rest : List τ} (revision : UInt64)
    (mirrors : database.Mirrors history) (nodup : database.indexList.Nodup)
    (isList : database.indexList = front :: rest)
    (bounded : (revision.toNat : Int) ≤ int64Max) :
    ∃ final, survive (forIndices
        (fun _ => GenericIndex.setRevision revision) database.indexList
        database) = some final ∧
      final.indexList = database.indexList ∧
      final.Mirrors (history.setRevision (revision.toNat : Int)) := by
  by_cases noCopies : history.copies = []
  · have sets : ∃ final, forIndices
        (fun _ => GenericIndex.setRevision revision) database.indexList
          database = .ok ⟨⟩ final ∧
        final.indexList = database.indexList ∧
        final.Mirrors (history.setRevision (revision.toNat : Int)) := by
      refine mirrors.everywhere nodup
        (fun t => History.map_setRevision _ history _)
        (fun _ _ _ => .setRevision _) ?_ ?_
      · exact fun _ noIndices => by simp [isList] at noIndices
      · intro t member index part found represents
        have noStates : index.stack = [] := by
          have revisions := (mirrors.revisions member).2
          rw [Database.index, found, Option.getD_some, noCopies] at revisions
          simpa using revisions
        exact ⟨_, setRevision_apply_nil noStates bounded,
          represents.setRevision revision noStates⟩
    obtain ⟨final, finished, holds⟩ := sets
    exact ⟨final, by rw [finished]; rfl, holds⟩
  · have member : front ∈ database.indexList := by simp [isList]
    obtain ⟨index, found, represents⟩ := mirrors.registered front member
    have hasStates : index.stack ≠ [] := by
      intro noStates
      have length := represents.aligned.length_eq
      rw [noStates, List.length_nil, eq_comm, List.length_eq_zero_iff,
        History.map_copies_eq_nil_iff] at length
      exact noCopies length
    obtain ⟨message, refused⟩ : ∃ message,
        GenericIndex.setRevision revision index =
          .error (.logicError message) index :=
      setRevision_apply_error (Or.inl hasStates)
    have first : onIndex front (GenericIndex.setRevision revision) database =
        .error (.logicError message) database := by
      simp only [onIndex, found, refused, setIndex_self found]
    refine ⟨database, ?_, rfl, ?_⟩
    · rw [isList, forIndices, bind_apply_of_error _ first]
      rfl
    · rwa [History.setRevision, if_neg noCopies]

/-! ## Calls on one index -/

/-- One table has new rows. -/
theorem Mirrors.written {next : GenericIndex (F.indexType t)}
    {rows : MultiIndex (F.indexType t)} (mirrors : database.Mirrors history)
    (member : t ∈ database.indexList)
    (represents : Represents next
      ((history.map fun contents => contents t).change rows)) :
    (database.setIndex t next).Mirrors
      (history.change (Function.update history.current t rows)) where
  registered := by
    intro tested isMember
    by_cases same : tested = t
    · subst same
      refine ⟨next, setIndex_segment_self tested next, ?_⟩
      rw [History.map_change, Function.update_self]
      exact represents
    · rw [setIndex_segment_ne same, History.map_change_of_same]
      · exact mirrors.registered tested isMember
      · exact Function.update_of_ne same rows history.current
  absent := by
    intro tested notMember
    have different : tested ≠ t := fun same => notMember (same ▸ member)
    rw [setIndex_segment_ne different, History.map_change_of_same]
    · exact mirrors.absent tested notMember
    · exact Function.update_of_ne different rows history.current
  bottom := mirrors.bottom

/-- A call that is refused leaves everything as it was. -/
theorem Mirrors.unwritten {next : GenericIndex (F.indexType t)}
    (mirrors : database.Mirrors history) (member : t ∈ database.indexList)
    (represents : Represents next
      (history.map fun contents => contents t)) :
    (database.setIndex t next).Mirrors history := by
  have changed := mirrors.written member represents
  rwa [Function.update_eq_self] at changed

end Database

/-! ## One call of a client -/

namespace Client

variable {client : Client F} {copying : CopyingClient F}
  {final : Database F} {history : History (DatabaseRows F)}

/-- The session has sub-sessions that were not ended yet. -/
def isOpen (session : DatabaseSession τ) : Bool :=
  decide (session.subSessions ≠ [])

/-- The client and the store with copies have been called alike. -/
structure Mirrors (client : Client F) (copying : CopyingClient F) : Prop where
  uniform : client.Uniform
  tables : client.database.indexList = copying.tables
  database : client.database.Mirrors copying.history
  sessions : client.sessions.map isOpen = copying.sessions

omit [DecidableEq τ] in
theorem mirrors_empty (F : IndexFamily τ) :
    (Client.empty F).Mirrors (CopyingClient.initial F) where
  uniform := uniform_empty F
  tables := rfl
  database :=
    { registered := by simp [Client.empty, Database.empty]
      absent := fun t _ => ⟨rfl, by
        rw [CopyingClient.initial, History.map_initial]
        exact .initial rfl⟩
      bottom := fun _ => ⟨rfl, rfl⟩ }
  sessions := rfl

omit [DecidableEq τ] in
theorem survive_onDatabase {program : Database.DatabaseM F PUnit}
    (survived : survive (program client.database) = some final) :
    survive (Client.onDatabase program client) =
      some { client with database := final } := by
  cases ran : program client.database with
  | ok value left =>
      rw [ran] at survived
      cases survived
      simp only [Client.onDatabase, zoom, ran]
      rfl
  | error fault left =>
      rw [ran] at survived
      by_cases isException : fault.isException = true
      · simp only [survive, if_pos isException, Option.some.injEq] at survived
        subst survived
        simp only [Client.onDatabase, zoom, ran, survive, if_pos isException]
      · simp only [survive, if_neg isException] at survived
        cases survived

/-- A call on one registered index. -/
theorem survive_onRegistered {ndebug : Bool} {t : τ}
    {call : IndexCall (F.indexType t)} {index next : GenericIndex (F.indexType t)}
    (member : t ∈ client.database.indexList)
    (found : client.database.segment t = some index)
    (stepped : call.step ndebug index = some next) :
    survive (Database.onRegistered t (call.program ndebug) client.database) =
      some (client.database.setIndex t next) := by
  unfold Database.onRegistered
  rw [bind_apply_of_ok _ (get_apply _), if_pos member]
  unfold IndexCall.step at stepped
  cases ran : call.program ndebug index with
  | ok value left =>
      rw [ran] at stepped
      cases stepped
      simp only [Database.onIndex, found, ran]
      rfl
  | error fault left =>
      rw [ran] at stepped
      by_cases isException : fault.isException = true
      · simp only [survive, if_pos isException, Option.some.injEq] at stepped
        subst stepped
        simp only [Database.onIndex, found, ran, survive, if_pos isException]
      · simp only [survive, if_neg isException] at stepped
        cases stepped

/-- Rows change as the store with copies changes its current rows. -/
theorem Mirrors.rowCall (ndebug : Bool) {t : τ}
    (call : IndexCall (F.indexType t)) (mirrors : client.Mirrors copying)
    (member : t ∈ client.database.indexList)
    (permitted : call.Permitted (F.indexType t).Interchangeable SquashSafe
      (client.database.index t)) :
    ∃ next, survive (Client.onDatabase
        (Database.onRegistered t (call.program ndebug)) client) =
          some { client with database := client.database.setIndex t next } ∧
      Represents next
        (call.reference (copying.history.map fun contents => contents t)) := by
  obtain ⟨index, found, represents⟩ := mirrors.database.registered t member
  rw [Database.index, found, Option.getD_some] at permitted
  obtain ⟨next, stepped, related⟩ :=
    represents_step ndebug index _ call represents permitted
  exact ⟨next, survive_onDatabase (survive_onRegistered member found stepped),
    related⟩

omit [DecidableEq τ] in
theorem onSession_ok {position : Nat} {session : DatabaseSession τ}
    {program : DatabaseSession τ → Database.DatabaseM F PUnit}
    (isSession : client.sessions[position]? = some session)
    (ran : program session client.database = .ok ⟨⟩ final) :
    Client.onSession position program client =
      .ok ⟨⟩ { database := final
               sessions := client.sessions.set position session.clear } := by
  have returned : Client.onDatabase (program session) client =
      .ok ⟨⟩ { client with database := final } := by
    simp only [Client.onDatabase, zoom, ran]
  unfold Client.onSession
  rw [bind_apply_of_ok _ (get_apply client)]
  simp only [isSession]
  rw [bind_apply_of_ok _ returned]
  rfl

omit [DecidableEq τ] in
/-- A session that is ended runs its program, once. -/
theorem Mirrors.endSession {position : Nat} {session : DatabaseSession τ}
    {program : DatabaseSession τ → Database.DatabaseM F PUnit}
    {step : History (DatabaseRows F) → History (DatabaseRows F)}
    (mirrors : client.Mirrors copying)
    (isSession : client.sessions[position]? = some session)
    (ran : program session client.database = .ok ⟨⟩ final)
    (indexList : final.indexList = client.database.indexList)
    (effect : final.Mirrors (if isOpen session then step copying.history
      else copying.history)) :
    ∃ next, Client.onSession position program client = .ok ⟨⟩ next ∧
      next.database.indexList = (copying.endSession step position).tables ∧
      next.database.Mirrors (copying.endSession step position).history ∧
      next.sessions.map isOpen =
        (copying.endSession step position).sessions := by
  have wasOpen : copying.sessions[position]? = some (isOpen session) := by
    rw [← mirrors.sessions, List.getElem?_map, isSession, Option.map_some]
  refine ⟨{ database := final
            sessions := client.sessions.set position session.clear },
    ?_, ?_, ?_, ?_⟩
  · exact onSession_ok isSession ran
  · have sameTables : (copying.endSession step position).tables =
        copying.tables := by
      unfold CopyingClient.endSession
      split
      · rfl
      · rfl
    rw [sameTables, ← mirrors.tables]
    exact indexList
  · unfold CopyingClient.endSession
    rw [wasOpen]
    cases opened : isOpen session with
    | true => simpa [opened] using effect
    | false => simpa [opened] using effect
  · have cleared : isOpen session.clear = false := by
      simp [isOpen, DatabaseSession.clear]
    simp only [List.map_set, mirrors.sessions, cleared,
      CopyingClient.endSession, wasOpen]
    cases opened : isOpen session with
    | true => simp
    | false =>
        rw [opened] at wasOpen
        obtain ⟨inside, value⟩ := List.getElem?_eq_some_iff.mp wasOpen
        have kept := List.set_getElem_self inside
        rw [value] at kept
        simp [kept]

/-- Ending a session that covers the registered indices does to all of them
what the database does. -/
theorem Mirrors.forSubSessions {position : Nat} {session : DatabaseSession τ}
    {program : (t : τ) → IndexM (F.indexType t) PUnit}
    {step : History (DatabaseRows F) → History (DatabaseRows F)}
    (mirrors : client.Mirrors copying)
    (isSession : client.sessions[position]? = some session)
    (covers : DatabaseCall.Covers client position)
    (everywhere : ∃ final,
      Database.forIndices program client.database.indexList client.database =
          .ok ⟨⟩ final ∧
        final.indexList = client.database.indexList ∧
        final.Mirrors (step copying.history))
    (unchanged : ∀ (t : τ) (index : GenericIndex (F.indexType t)),
      index.stack = [] → program t index = .ok ⟨⟩ index)
    (settled : copying.history.copies = [] →
      step copying.history = copying.history) :
    ∃ final, Database.forSubSessions program session.subSessions
        client.database = .ok ⟨⟩ final ∧
      final.indexList = client.database.indexList ∧
      final.Mirrors (if isOpen session then step copying.history
        else copying.history) := by
  have known :=
    mirrors.uniform.sessions session (List.mem_of_getElem? isSession)
  rw [Database.forSubSessions_eq fun subSession member =>
    (known subSession member).1]
  rcases covers session isSession with ended | covered | flat
  · refine ⟨client.database, ?_, rfl, ?_⟩
    · rw [ended]
      rfl
    · simpa [isOpen, ended] using mirrors.database
  · rw [covered]
    by_cases ended : session.subSessions = []
    · have noIndices : client.database.indexList = [] := by
        rw [← covered, ended]
        rfl
      refine ⟨client.database, ?_, rfl, ?_⟩
      · rw [noIndices]
        rfl
      · simpa [isOpen, ended] using mirrors.database
    · simpa [isOpen, ended] using everywhere
  · refine ⟨client.database, Database.forIndices_unchanged ?_, rfl, ?_⟩
    · intro t member
      obtain ⟨subSession, subMember, rfl⟩ := List.mem_map.mp member
      have registered := (known subSession subMember).2
      obtain ⟨index, found, _⟩ :=
        mirrors.database.registered subSession.index registered
      exact ⟨index, found, unchanged _ index
        (List.eq_nil_of_length_eq_zero (flat _ registered index found))⟩
    · by_cases ended : session.subSessions = []
      · simpa [isOpen, ended] using mirrors.database
      · obtain ⟨subSession, subMember⟩ := List.exists_mem_of_ne_nil _ ended
        have registered := (known subSession subMember).2
        obtain ⟨index, found, represents⟩ :=
          mirrors.database.registered subSession.index registered
        have noCopies : copying.history.copies = [] := by
          have length := represents.aligned.length_eq
          rw [flat _ registered index found, eq_comm,
            List.length_eq_zero_iff, History.map_copies_eq_nil_iff] at length
          exact length
        simpa [isOpen, ended, settled noCopies] using mirrors.database

/-- What the relation says about the next state, apart from the invariant that
every covered call keeps. -/
structure Follows (next : Client F) (copying : CopyingClient F) : Prop where
  tables : next.database.indexList = copying.tables
  database : next.database.Mirrors copying.history
  sessions : next.sessions.map isOpen = copying.sessions

theorem Mirrors.addIndex {t : τ} (mirrors : client.Mirrors copying)
    (isNew : client.database.segment t = none) :
    ∃ next, survive (Client.onDatabase (Database.addIndex t) client) =
        some next ∧
      next.Follows { copying with tables := copying.tables ++ [t] } := by
  have unregistered : t ∉ client.database.indexList := by
    intro member
    obtain ⟨index, found, _⟩ := mirrors.database.registered t member
    rw [isNew] at found
    cases found
  have writable := mirrors.uniform.database.writable
  have follows : ∀ {base : Int} {depth : Nat} {final : Database F},
      Database.addIndex t client.database = .ok ⟨⟩ final →
      Database.Registered t base depth client.database final →
      (∀ other ∈ client.database.indexList,
        client.database.HasShape other base depth) →
      (client.database.indexList = [] → base = 0 ∧ depth = 0) →
        ∃ next, survive (Client.onDatabase (Database.addIndex t) client) =
            some next ∧
          next.Follows { copying with tables := copying.tables ++ [t] } := by
    intro base depth final success registered shapes flat
    have unused :=
      (Database.ends_addIndex_unused isNew unregistered).of_ok success
    refine ⟨{ client with database := final },
      survive_onDatabase (by rw [success]; rfl), ?_, ?_, mirrors.sessions⟩
    · rw [registered.indexList, mirrors.tables]
    · exact mirrors.database.added unregistered shapes flat registered unused
  cases isList : client.database.indexList with
  | nil =>
      obtain ⟨final, success, _, ofNew⟩ :=
        Database.addIndex_first (t := t) isList writable
      exact follows success (ofNew isNew) (by simp [isList]) fun _ => ⟨rfl, rfl⟩
  | cons front rest =>
      obtain ⟨base, depth, shapes⟩ := mirrors.uniform.database.shapes
      obtain ⟨final, success, registered⟩ := Database.addIndex_new isList
        writable (shapes front (by simp [isList])) isNew unregistered
      exact follows success registered shapes fun noIndices => by
        simp [isList] at noIndices

/-- The new session is the last started one. -/
theorem survive_startUndoSession {sessions : List (SubSession τ)}
    (ran : Database.startSubSessions client.database.indexList
      client.database = .ok sessions final) :
    survive (Client.startUndoSession client) =
      some { database := final
             sessions := .ofSubSessions sessions :: client.sessions } := by
  have onDatabase : Database.startUndoSession client.database =
      .ok (.ofSubSessions sessions) final := by
    rw [Database.startUndoSession, bind_apply_of_ok _ (get_apply _),
      bind_apply_of_ok _ ran]
    rfl
  have returned : Client.onDatabase Database.startUndoSession client =
      .ok (.ofSubSessions sessions) { client with database := final } := by
    simp only [Client.onDatabase, zoom, onDatabase]
  unfold Client.startUndoSession
  rw [bind_apply_of_ok _ returned]
  rfl

theorem Mirrors.startUndoSession (mirrors : client.Mirrors copying)
    (bounded : ∀ t ∈ client.database.indexList,
      (client.database.index t).revision < int64Max) :
    ∃ next, survive (Client.startUndoSession client) = some next ∧
      next.Follows (DatabaseCall.startUndoSession.reference copying) := by
  unfold DatabaseCall.reference
  by_cases noTables : copying.tables = []
  · have noIndices := mirrors.tables.trans noTables
    have ran : Database.startSubSessions client.database.indexList
        client.database = .ok [] client.database := by
      rw [noIndices]
      rfl
    refine ⟨_, survive_startUndoSession ran, ?_⟩
    rw [if_pos noTables]
    refine ⟨mirrors.tables, mirrors.database, ?_⟩
    simp [isOpen, DatabaseSession.ofSubSessions, mirrors.sessions]
  · have someIndex : client.database.indexList ≠ [] := by
      rwa [mirrors.tables]
    have nodup := mirrors.uniform.database.nodup
    obtain ⟨final, finished, indexList, isMirrored⟩ :=
      mirrors.database.started nodup someIndex bounded
    obtain ⟨sessions, ran⟩ := Database.startSubSessions_of_forIndices finished
    obtain ⟨base, depth, shapes⟩ := mirrors.uniform.database.shapes
    have targets := ((Database.ends_startSubSessions _ _ nodup shapes).of_ok
      ran).2.1
    have someSession : sessions ≠ [] := by
      rintro rfl
      exact someIndex targets.symm
    refine ⟨_, survive_startUndoSession ran, ?_⟩
    rw [if_neg noTables]
    refine ⟨indexList.trans mirrors.tables, isMirrored, ?_⟩
    simp [isOpen, DatabaseSession.ofSubSessions, someSession, mirrors.sessions]

omit [DecidableEq τ] in
/-- A call of the database on all its indices. -/
theorem Mirrors.ofDatabase {program : Database.DatabaseM F PUnit}
    (mirrors : client.Mirrors copying)
    (effect : ∃ final, survive (program client.database) = some final ∧
      final.indexList = client.database.indexList ∧ final.Mirrors history) :
    ∃ next, survive (Client.onDatabase program client) = some next ∧
      next.Follows { copying with history := history } := by
  obtain ⟨final, survived, indexList, isMirrored⟩ := effect
  exact ⟨_, survive_onDatabase survived, indexList.trans mirrors.tables,
    isMirrored, mirrors.sessions⟩

omit [DecidableEq τ] in
theorem Mirrors.ofSession {position : Nat} {session : DatabaseSession τ}
    {program : DatabaseSession τ → Database.DatabaseM F PUnit}
    {step : History (DatabaseRows F) → History (DatabaseRows F)}
    (mirrors : client.Mirrors copying)
    (isSession : client.sessions[position]? = some session)
    (effect : ∃ final, program session client.database = .ok ⟨⟩ final ∧
      final.indexList = client.database.indexList ∧
      final.Mirrors (if isOpen session then step copying.history
        else copying.history)) :
    ∃ next, Client.onSession position program client = .ok ⟨⟩ next ∧
      next.Follows (copying.endSession step position) := by
  obtain ⟨final, ran, indexList, isMirrored⟩ := effect
  obtain ⟨next, ended, tables, database, sessions⟩ :=
    mirrors.endSession isSession ran indexList isMirrored
  exact ⟨next, ended, tables, database, sessions⟩

omit [DecidableEq τ] in
/-- The session stays on the stack of the client. -/
theorem Mirrors.pushSession {position : Nat} {session : DatabaseSession τ}
    (mirrors : client.Mirrors copying)
    (isSession : client.sessions[position]? = some session) :
    ∃ next, Client.onSession position (fun _ => pure ⟨⟩) client =
        .ok ⟨⟩ next ∧
      next.Follows (copying.endSession id position) :=
  mirrors.ofSession isSession ⟨client.database, rfl, rfl, by
    simpa using mirrors.database⟩

theorem Mirrors.squashSession {ndebug : Bool} {position : Nat}
    {session : DatabaseSession τ} (mirrors : client.Mirrors copying)
    (isSession : client.sessions[position]? = some session)
    (covers : DatabaseCall.Covers client position)
    (safe : ∀ t ∈ client.database.indexList,
      SquashSafe (client.database.index t)) :
    ∃ next, Client.onSession position (Database.sessionSquash ndebug) client =
        .ok ⟨⟩ next ∧
      next.Follows (copying.endSession History.squash position) :=
  mirrors.ofSession isSession
    (mirrors.forSubSessions isSession covers
      (mirrors.database.squashed ndebug mirrors.uniform.database.nodup safe)
      (fun _ _ => squash_apply_nil) fun noCopies => by
        simp [History.squash, noCopies])

theorem Mirrors.undoSession {position : Nat} {session : DatabaseSession τ}
    (mirrors : client.Mirrors copying)
    (isSession : client.sessions[position]? = some session)
    (covers : DatabaseCall.Covers client position) :
    ∃ next, Client.onSession position Database.sessionUndo client =
        .ok ⟨⟩ next ∧
      next.Follows (copying.endSession History.undo position) :=
  mirrors.ofSession isSession
    (mirrors.forSubSessions isSession covers
      (mirrors.database.undone mirrors.uniform.database.nodup)
      (fun _ _ => undo_apply_nil) fun noCopies => by
        simp [History.undo, noCopies])

/-- `set_revision` does nothing without an index and is refused as a whole when
the revision is too large. -/
theorem Mirrors.setRevision {ndebug : Bool} (revision : UInt64)
    (mirrors : client.Mirrors copying) :
    ∃ next, (DatabaseCall.setRevision revision).step ndebug client =
        some next ∧
      next.Follows
        ((DatabaseCall.setRevision revision).reference copying) := by
  simp only [DatabaseCall.step, DatabaseCall.program, DatabaseCall.reference]
  cases isList : client.database.indexList with
  | nil =>
      have noTables : copying.tables = [] := by
        rw [← mirrors.tables, isList]
      rw [if_pos (Or.inl noTables)]
      refine mirrors.ofDatabase ⟨client.database, ?_, rfl, mirrors.database⟩
      rw [Database.setRevision, bind_apply_of_ok _ (get_apply _), isList]
      rfl
  | cons front rest =>
      have someTable : copying.tables ≠ [] := by
        rw [← mirrors.tables, isList]
        exact List.cons_ne_nil front rest
      by_cases bounded : (revision.toNat : Int) ≤ int64Max
      · rw [if_neg (by simp [someTable, bounded])]
        exact mirrors.ofDatabase (mirrors.database.renumbered revision
          mirrors.uniform.database.nodup isList bounded)
      · rw [if_pos (Or.inr (not_le.mp bounded))]
        have member : front ∈ client.database.indexList := by simp [isList]
        obtain ⟨index, found, _⟩ := mirrors.database.registered front member
        obtain ⟨message, refused⟩ : ∃ message,
            GenericIndex.setRevision revision index =
              .error (.logicError message) index :=
          setRevision_apply_error (Or.inr (not_le.mp bounded))
        have first : Database.onIndex front
            (GenericIndex.setRevision revision) client.database =
              .error (.logicError message) client.database := by
          simp only [Database.onIndex, found, refused,
            Database.setIndex_self found]
        refine mirrors.ofDatabase ⟨client.database, ?_, rfl, mirrors.database⟩
        rw [Database.setRevision, bind_apply_of_ok _ (get_apply _), isList,
          Database.forIndices, bind_apply_of_error _ first]
        rfl

end Client

/-! ## Runs -/

open Client in
/-- Every covered and permitted call keeps the relation. -/
theorem mirrors_step (ndebug : Bool) (client : Client F)
    (copying : CopyingClient F) (call : DatabaseCall F)
    (mirrors : client.Mirrors copying)
    (allowed : call.Covered client ∧
      call.Permitted (fun t => (F.indexType t).Interchangeable)
        (fun _ => SquashSafe) client) :
    ∃ next, call.step ndebug client = some next ∧
      next.Mirrors (call.reference copying) := by
  obtain ⟨covered, permitted⟩ := allowed
  suffices follows : ∃ next, call.step ndebug client = some next ∧
      next.Follows (call.reference copying) by
    obtain ⟨next, stepped, tables, database, sessions⟩ := follows
    exact ⟨next, stepped, uniform_step mirrors.uniform covered stepped, tables,
      database, sessions⟩
  have nodup := mirrors.uniform.database.nodup
  -- a loop that returns is one that the client survives
  have returns : ∀ {program : Database.DatabaseM F PUnit}
      {history : History (DatabaseRows F)},
      (∃ final, program client.database = .ok ⟨⟩ final ∧
        final.indexList = client.database.indexList ∧ final.Mirrors history) →
        ∃ final, survive (program client.database) = some final ∧
          final.indexList = client.database.indexList ∧
          final.Mirrors history := by
    intro program history effect
    obtain ⟨final, ran, holds⟩ := effect
    exact ⟨final, by rw [ran]; rfl, holds⟩
  have sessionAt : ∀ {position : Nat}, position < client.sessions.length →
      ∃ session, client.sessions[position]? = some session :=
    fun inside => ⟨_, List.getElem?_eq_getElem inside⟩
  cases call with
  | addIndex t => exact mirrors.addIndex covered
  | startUndoSession => exact mirrors.startUndoSession permitted
  | sessionPush position =>
      obtain ⟨session, isSession⟩ := sessionAt permitted
      obtain ⟨next, ended, follows⟩ := mirrors.pushSession isSession
      exact ⟨next, congrArg survive ended, follows⟩
  | sessionSquash position =>
      obtain ⟨session, isSession⟩ := sessionAt permitted.1
      obtain ⟨next, ended, follows⟩ :=
        mirrors.squashSession isSession covered permitted.2
      exact ⟨next, congrArg survive ended, follows⟩
  | sessionUndo position =>
      obtain ⟨session, isSession⟩ := sessionAt permitted
      obtain ⟨next, ended, follows⟩ := mirrors.undoSession isSession covered
      exact ⟨next, congrArg survive ended, follows⟩
  | sessionDestroy position =>
      obtain ⟨session, isSession⟩ := sessionAt permitted
      obtain ⟨next, ended, follows⟩ := mirrors.undoSession isSession covered
      refine ⟨{ next with sessions := next.sessions.eraseIdx position }, ?_,
        follows.tables, follows.database, ?_⟩
      · simp only [DatabaseCall.step, DatabaseCall.program]
        rw [bind_apply_of_ok _ ended]
        rfl
      · simp only [DatabaseCall.reference, ← follows.sessions]
        rw [List.eraseIdx_map]
  | undo => exact mirrors.ofDatabase (returns (mirrors.database.undone nodup))
  | squash =>
      exact mirrors.ofDatabase
        (returns (mirrors.database.squashed ndebug nodup permitted))
  | commit revision =>
      exact mirrors.ofDatabase
        (returns (mirrors.database.committed revision nodup))
  | undoAll =>
      exact mirrors.ofDatabase (returns (mirrors.database.unwound nodup))
  | setRevision revision => exact mirrors.setRevision revision
  | create t value =>
      obtain ⟨next, survived, related⟩ :=
        mirrors.rowCall ndebug (.emplace value) permitted trivial
      refine ⟨_, survived, ?_⟩
      simp only [IndexCall.reference, History.map_current] at related
      simp only [DatabaseCall.reference]
      cases attempt : (copying.history.current t).emplace value with
      | none =>
          rw [attempt] at related
          exact ⟨mirrors.tables, mirrors.database.unwritten permitted related,
            mirrors.sessions⟩
      | some inserted =>
          rw [attempt] at related
          exact ⟨mirrors.tables, mirrors.database.written permitted related,
            mirrors.sessions⟩
  | modify t id modifier =>
      obtain ⟨member, keeps⟩ := permitted
      obtain ⟨next, survived, related⟩ :=
        mirrors.rowCall ndebug _ member keeps
      refine ⟨_, survived, ?_⟩
      simp only [IndexCall.reference, History.map_current] at related
      simp only [DatabaseCall.reference]
      cases found : (copying.history.current t).find id with
      | none =>
          rw [found] at related
          exact ⟨mirrors.tables, mirrors.database.unwritten member related,
            mirrors.sessions⟩
      | some value =>
          rw [found] at related
          simp only at related ⊢
          cases attempt :
              (copying.history.current t).modify id (modifier value) with
          | none =>
              rw [attempt] at related
              exact ⟨mirrors.tables,
                mirrors.database.unwritten member related, mirrors.sessions⟩
          | some modified =>
              rw [attempt] at related
              exact ⟨mirrors.tables, mirrors.database.written member related,
                mirrors.sessions⟩
  | remove t id =>
      obtain ⟨member, keeps⟩ := permitted
      obtain ⟨next, survived, related⟩ :=
        mirrors.rowCall ndebug _ member keeps
      exact ⟨_, survived, mirrors.tables,
        mirrors.database.written member related, mirrors.sessions⟩

/-- What a client may do.  It registers new types only, names sessions that it
has, and ends a session only when it covers the registered indices, has ended
before, or no index has an undo state.  It creates rows of registered types, and
modifies and removes rows that are there; a modifier leaves the id and excludes
the same other rows as before.  It starts no session at the largest revision,
and where it squashes, no row that the newer undo state has removed was created
again under its id, except where `SquashSafe` says that this is harmless. -/
def Proper (client : Client F) (call : DatabaseCall F) : Prop :=
  call.Covered client ∧
    call.Permitted (fun t => (F.indexType t).Interchangeable)
      (fun _ => SquashSafe) client

theorem mirrors_run (ndebug : Bool) {calls : List (DatabaseCall F)}
    (proper : Runs.AllowedFrom (DatabaseCall.step ndebug) Proper
      (Client.empty F) calls) :
    ∃ client,
      Runs.run (DatabaseCall.step ndebug) (Client.empty F) calls =
        some client ∧
      client.Mirrors (copyingRun calls) :=
  Runs.run_simulates (mirrors_step ndebug) (Client.mirrors_empty F) proper

/-- In every proper run from a new file, whatever indices are registered at
whatever time, the tables together are those of the store that copies all of
them.  `undo` puts all tables back to the newest copy and `undo_all` to the
oldest one, and neither aborts. -/
theorem database_refines_snapshots (ndebug : Bool)
    (calls : List (DatabaseCall F))
    (proper : Runs.AllowedFrom (DatabaseCall.step ndebug) Proper
      (Client.empty F) calls) :
    ∃ client,
      Runs.run (DatabaseCall.step ndebug) (Client.empty F) calls =
        some client ∧
      client.database.indexList = (copyingRun calls).tables ∧
      client.database.rows = (copyingRun calls).history.current ∧
      (∀ t ∈ client.database.indexList,
        (client.database.index t).stack.map UndoState.revision =
          (copyingRun calls).history.copies.map Prod.fst) ∧
      (∃ undone, Database.undo client.database = .ok ⟨⟩ undone ∧
        undone.rows = (copyingRun calls).history.undo.current) ∧
      ∃ unwound, Database.undoAll client.database = .ok ⟨⟩ unwound ∧
        unwound.rows = (copyingRun calls).history.undoAll.current := by
  obtain ⟨client, finished, mirrors⟩ := mirrors_run ndebug proper
  have nodup := mirrors.uniform.database.nodup
  obtain ⟨undone, undoes, _, undoneMirrors⟩ := mirrors.database.undone nodup
  obtain ⟨unwound, unwinds, _, unwoundMirrors⟩ :=
    mirrors.database.unwound nodup
  refine ⟨client, finished, mirrors.tables, mirrors.database.rows_eq,
    fun t member => (mirrors.database.revisions member).2,
    ⟨undone, ?_, undoneMirrors.rows_eq⟩, unwound, ?_, unwoundMirrors.rows_eq⟩
  · rw [Database.undo, bind_apply_of_ok _ (get_apply _)]
    exact undoes
  · rw [Database.undoAll, bind_apply_of_ok _ (get_apply _)]
    exact unwinds

/-! ### Runs that are checked by making them -/

namespace DatabaseCall

instance (keeps : (t : τ) → (F.indexType t).Value →
      (F.indexType t).Value → Prop)
    [∀ t old new, Decidable (keeps t old new)]
    (squashable : (t : τ) → GenericIndex (F.indexType t) → Prop)
    [∀ t index, Decidable (squashable t index)]
    (client : Client F) (call : DatabaseCall F) :
    Decidable (call.Permitted keeps squashable client) := by
  cases call <;> unfold Permitted <;> infer_instance

/-- The conditions that can be evaluated: modifiers keep all keys, and no id is
removed and created again in a session that is squashed. -/
abbrev Plain (client : Client F) (call : DatabaseCall F) : Prop :=
  call.Covered client ∧
    call.Permitted (fun t => (F.indexType t).KeepsKeys) (fun _ => FreshTop)
      client

omit [DecidableEq τ] in
theorem Plain.proper {client : Client F} {call : DatabaseCall F}
    (plain : call.Plain client) : Proper client call := by
  obtain ⟨covered, permitted⟩ := plain
  refine ⟨covered, ?_⟩
  cases call with
  | sessionSquash position =>
      exact ⟨permitted.1, fun t member => (permitted.2 t member).squashSafe⟩
  | squash => exact fun t member => (permitted t member).squashSafe
  | modify t id modifier =>
      exact ⟨permitted.1, permitted.2.weaken
        (fun _ _ keeps => keeps.interchangeable)
        fun _ fresh => FreshTop.squashSafe fresh⟩
  | addIndex t => exact permitted
  | startUndoSession => exact permitted
  | sessionPush position => exact permitted
  | sessionUndo position => exact permitted
  | sessionDestroy position => exact permitted
  | undo => exact permitted
  | commit revision => exact permitted
  | undoAll => exact permitted
  | setRevision revision => exact permitted
  | create t value => exact permitted
  | remove t id => exact permitted

end DatabaseCall

/-- The primary table is registered inside a session that is pushed; a later
session changes both tables, and a session inside it is squashed into it. -/
def twoTableCalls : List (DatabaseCall eosDbTables) :=
  [.addIndex .tableKey, .create .tableKey ⟨1, 7, [10]⟩, .startUndoSession,
    .addIndex .keyValue, .create .keyValue ⟨1, 1, 1, ⟨7⟩, []⟩, .sessionPush 0,
    .startUndoSession, .remove .tableKey 1, .startUndoSession,
    .create .keyValue ⟨2, 1, 2, ⟨7⟩, []⟩, .sessionSquash 0, .commit 0]

theorem database_refines_snapshots_twoTables :
    ∃ client,
      Runs.run (DatabaseCall.step false) (Client.empty eosDbTables)
        twoTableCalls = some client ∧
      client.database.indexList = (copyingRun twoTableCalls).tables ∧
      client.database.rows = (copyingRun twoTableCalls).history.current ∧
      (∀ t ∈ client.database.indexList,
        (client.database.index t).stack.map UndoState.revision =
          (copyingRun twoTableCalls).history.copies.map Prod.fst) ∧
      (∃ undone, Database.undo client.database = .ok ⟨⟩ undone ∧
        undone.rows = (copyingRun twoTableCalls).history.undo.current) ∧
      ∃ unwound, Database.undoAll client.database = .ok ⟨⟩ unwound ∧
        unwound.rows = (copyingRun twoTableCalls).history.undoAll.current := by
  have plain : Runs.AllowedFrom (DatabaseCall.step false)
      (fun client call => call.Plain client) (Client.empty eosDbTables)
      twoTableCalls := by
    decide +kernel
  exact database_refines_snapshots false twoTableCalls
    (plain.mono fun _ _ => DatabaseCall.Plain.proper)

/-! ## Committed revisions -/

namespace DatabaseCall

/-- Every index keeps an undo state when its newest one is given up. -/
def TwoStates (client : Client F) : Prop :=
  ∀ t ∈ client.database.indexList,
    2 ≤ (client.database.index t).stack.length

/-- A session that was ended before gives up nothing. -/
def EndsAbove (client : Client F) (position : Nat) : Prop :=
  (∀ session ∈ client.sessions[position]?, session.subSessions = []) ∨
    TwoStates client

/-- The call leaves the undo states above the committed revision on top of an
oldest one that it does not give up. -/
def StaysAbove (committed : Int) (client : Client F) : DatabaseCall F → Prop
  | .sessionSquash position => EndsAbove client position
  | .sessionUndo position => EndsAbove client position
  | .sessionDestroy position => EndsAbove client position
  | .undo => TwoStates client
  | .squash => TwoStates client
  | .undoAll => False
  | .commit revision => revision ≤ committed
  | _ => True

instance (client : Client F) : Decidable (TwoStates client) := by
  unfold TwoStates
  infer_instance

instance (client : Client F) (position : Nat) :
    Decidable (EndsAbove client position) := by
  unfold EndsAbove
  infer_instance

instance (committed : Int) (client : Client F) (call : DatabaseCall F) :
    Decidable (call.StaysAbove committed client) := by
  cases call <;> unfold StaysAbove <;> infer_instance

end DatabaseCall

namespace Client

variable {client : Client F} {copying : CopyingClient F}
  {base : Int × DatabaseRows F}

omit [DecidableEq τ] in
/-- A store with copies has an index to take them of. -/
theorem Mirrors.deep (mirrors : client.Mirrors copying)
    (isFloor : copying.history.floor = some base)
    (twoStates : DatabaseCall.TwoStates client) :
    2 ≤ copying.history.copies.length := by
  cases isList : client.database.indexList with
  | nil =>
      have flat := mirrors.database.bottom isList
      simp [History.floor, flat.1] at isFloor
  | cons front rest =>
      have member : front ∈ client.database.indexList := by simp [isList]
      have revisions := congrArg List.length
        (mirrors.database.revisions member).2
      simp only [List.length_map] at revisions
      rw [← revisions]
      exact twoStates front member

omit [DecidableEq τ] in
theorem Mirrors.floor_endSession {position : Nat}
    {step : History (DatabaseRows F) → History (DatabaseRows F)}
    (mirrors : client.Mirrors copying)
    (isFloor : copying.history.floor = some base)
    (endsAbove : DatabaseCall.EndsAbove client position)
    (keeps : 2 ≤ copying.history.copies.length →
      (step copying.history).floor = some base) :
    (copying.endSession step position).history.floor = some base := by
  unfold CopyingClient.endSession
  by_cases wasOpen : copying.sessions[position]? = some true
  · rw [if_pos wasOpen]
    rcases endsAbove with ended | twoStates
    · rw [← mirrors.sessions, List.getElem?_map] at wasOpen
      rcases Option.map_eq_some_iff.mp wasOpen with ⟨session, isSession, opened⟩
      have noSubSessions := ended session isSession
      simp [isOpen, noSubSessions] at opened
    · exact keeps (mirrors.deep isFloor twoStates)
  · rwa [if_neg wasOpen]

/-- No call above a committed revision changes the oldest copy. -/
theorem Mirrors.floor_reference {committed : Int} {call : DatabaseCall F}
    (mirrors : client.Mirrors copying)
    (isFloor : copying.history.floor = some base)
    (above : committed < base.1) (stays : call.StaysAbove committed client) :
    (call.reference copying).history.floor = some base := by
  cases call with
  | addIndex t => exact isFloor
  | startUndoSession =>
      simp only [DatabaseCall.reference]
      split
      · exact isFloor
      · exact History.floor_start isFloor
  | sessionPush position =>
      simp only [DatabaseCall.reference, CopyingClient.endSession]
      split
      · exact isFloor
      · exact isFloor
  | sessionSquash position =>
      exact mirrors.floor_endSession isFloor stays (History.floor_squash isFloor)
  | sessionUndo position =>
      exact mirrors.floor_endSession isFloor stays (History.floor_undo isFloor)
  | sessionDestroy position =>
      exact mirrors.floor_endSession isFloor stays (History.floor_undo isFloor)
  | undo => exact History.floor_undo isFloor (mirrors.deep isFloor stays)
  | squash => exact History.floor_squash isFloor (mirrors.deep isFloor stays)
  | commit revision =>
      exact History.floor_commit isFloor (lt_of_le_of_lt stays above)
  | undoAll => cases stays
  | setRevision revision =>
      simp only [DatabaseCall.reference]
      split
      · exact isFloor
      · exact History.floor_setRevision isFloor
  | create t value =>
      simp only [DatabaseCall.reference]
      split
      · exact isFloor
      · exact isFloor
  | modify t id modifier =>
      simp only [DatabaseCall.reference]
      split
      · exact isFloor
      · split
        · exact isFloor
        · exact isFloor
  | remove t id => exact isFloor

end Client

omit [DecidableEq τ] in
/-- The copies are in the order of their revisions. -/
theorem Client.Mirrors.copies_descending {client : Client F}
    {copying : CopyingClient F} (mirrors : client.Mirrors copying) :
    copying.history.copies.Pairwise fun newer older => older.1 < newer.1 := by
  rw [← List.pairwise_map (f := Prod.fst)
    (R := fun newer older : Int => older < newer)]
  cases isList : client.database.indexList with
  | nil =>
      have flat := mirrors.database.bottom isList
      simp [flat.1]
  | cons front rest =>
      have member : front ∈ client.database.indexList := by simp [isList]
      have revisions := (mirrors.database.revisions member).2
      rcases mirrors.uniform.database.shapes with ⟨base, depth, shapes⟩
      rcases shapes front member with ⟨index, found, shape⟩
      rw [Database.index, found, Option.getD_some] at revisions
      rw [← revisions, shape.stack]
      exact descending_pairwise base depth

omit [DecidableEq τ] in
/-- The oldest copy was saved by the revision after the one that is left when
everything is undone. -/
theorem Client.Mirrors.revision_undoAll {client : Client F}
    {copying : CopyingClient F} {base : Int × DatabaseRows F}
    (mirrors : client.Mirrors copying)
    (isFloor : copying.history.floor = some base) :
    copying.history.undoAll.revision + 1 = base.1 := by
  have last : copying.history.copies.getLast? = some base := isFloor
  cases isList : client.database.indexList with
  | nil =>
      have flat := mirrors.database.bottom isList
      simp [flat.1] at last
  | cons front rest =>
      have member : front ∈ client.database.indexList := by simp [isList]
      have revisions := mirrors.database.revisions member
      rcases mirrors.uniform.database.shapes with ⟨lowest, depth, shapes⟩
      rcases shapes front member with ⟨index, found, shape⟩
      rw [Database.index, found, Option.getD_some, shape.revision,
        shape.stack] at revisions
      have length := congrArg List.length revisions.2
      have oldest := congrArg List.getLast? revisions.2
      rw [List.getLast?_map, last, Option.map_some] at oldest
      rw [descending_length, List.length_map] at length
      have isLowest := getLast?_descending oldest
      simp only [History.undoAll, last, ← revisions.1, ← length]
      omega

/-- A committed revision is final: whatever is called afterwards, as long as
no undo state at the bottom is given up and nothing further is committed,
`undo_all` puts all tables back to the rows of that revision. -/
theorem committed_is_final (ndebug : Bool)
    {before after : List (DatabaseCall F)} {committed : Int}
    {contents : DatabaseRows F}
    (saved : (committed + 1, contents) ∈ (copyingRun before).history.copies)
    (proper : Runs.AllowedFrom (DatabaseCall.step ndebug) Proper
      (Client.empty F) (before ++ .commit committed :: after))
    (above : ∀ middle,
      Runs.run (DatabaseCall.step ndebug) (Client.empty F) before =
          some middle →
        Runs.AllowedFrom (DatabaseCall.step ndebug)
          (fun client call => call.StaysAbove committed client) middle
          (.commit committed :: after)) :
    ∃ client,
      Runs.run (DatabaseCall.step ndebug) (Client.empty F)
          (before ++ .commit committed :: after) = some client ∧
        ∃ unwound, Database.undoAll client.database = .ok ⟨⟩ unwound ∧
          unwound.rows = contents ∧
          ∀ t ∈ unwound.indexList, (unwound.index t).stack = [] ∧
            (unwound.index t).revision = committed := by
  have parts := Runs.allowedFrom_append_iff.mp proper
  rcases mirrors_run ndebug parts.1 with ⟨middle, reached, mirrors⟩
  have rest := (parts.2 middle reached).and (above middle reached)
  have commits := mirrors_step ndebug middle _ (.commit committed) mirrors
    rest.1.1
  rcases commits with ⟨next, stepped, nextMirrors⟩
  have isFloor : (copyingRun (before ++ [.commit committed])).history.floor =
      some (committed + 1, contents) := by
    rw [copyingRun, List.foldl_append]
    exact History.floor_of_commit mirrors.copies_descending saved
  have stays : ∀ client (copying : CopyingClient F) call,
      client.Mirrors copying ∧
          copying.history.floor = some (committed + 1, contents) →
        Proper client call ∧ call.StaysAbove committed client →
          ∃ next, call.step ndebug client = some next ∧
            next.Mirrors (call.reference copying) ∧
              (call.reference copying).history.floor =
                some (committed + 1, contents) := by
    intro client copying call holds allowed
    have follows := mirrors_step ndebug client copying call holds.1 allowed.1
    rcases follows with ⟨follower, called, stillMirrors⟩
    exact ⟨follower, called, stillMirrors,
      holds.1.floor_reference holds.2 (Int.lt_succ committed) allowed.2⟩
  have finishes := Runs.run_simulates stays
    ⟨by rwa [copyingRun, List.foldl_append], isFloor⟩ (rest.2 next stepped)
  rcases finishes with ⟨client, finished, ⟨lastMirrors, lastFloor⟩⟩
  have unwinds := lastMirrors.database.unwound lastMirrors.uniform.database.nodup
  rcases unwinds with ⟨unwound, ran, indexList, unwoundMirrors⟩
  refine ⟨client, ?_, unwound, ?_, ?_, ?_⟩
  · rw [Runs.run_append, reached, Option.bind_some, Runs.run_cons, stepped]
    exact finished
  · rw [Database.undoAll, bind_apply_of_ok _ (get_apply _)]
    exact ran
  · rw [unwoundMirrors.rows_eq]
    exact History.undoAll_current lastFloor
  · intro t member
    have revisions := unwoundMirrors.revisions member
    have lowest := lastMirrors.revision_undoAll lastFloor
    have noCopies := History.undoAll_copies lastFloor
    rw [noCopies, List.map_nil, List.map_eq_nil_iff] at revisions
    refine ⟨revisions.2, ?_⟩
    rw [revisions.1]
    simp only at lowest
    omega

/-- A row is stored, revision 1 saves it, revision 2 changes it, and revision 1
is committed.  Then the row is removed, undone and stored again. -/
def committedCalls : List (DatabaseCall eosDbTables) :=
  [.addIndex .tableKey, .startUndoSession, .create .tableKey ⟨1, 7, [10]⟩,
    .sessionPush 0, .startUndoSession, .create .tableKey ⟨2, 8, [11]⟩,
    .sessionPush 0]

def laterCalls : List (DatabaseCall eosDbTables) :=
  [.startUndoSession, .remove .tableKey 1, .undo, .sessionPush 0,
    .remove .tableKey 1, .startUndoSession, .create .tableKey ⟨3, 9, [12]⟩]

theorem committed_is_final_rows :
    ∃ client,
      Runs.run (DatabaseCall.step false) (Client.empty eosDbTables)
          (committedCalls ++ .commit 1 :: laterCalls) = some client ∧
        ∃ unwound, Database.undoAll client.database = .ok ⟨⟩ unwound ∧
          unwound.rows =
            (copyingRun (committedCalls.take 3)).history.current ∧
          ∀ t ∈ unwound.indexList, (unwound.index t).stack = [] ∧
            (unwound.index t).revision = 1 := by
  have plain : Runs.AllowedFrom (DatabaseCall.step false)
      (fun client call => call.Plain client) (Client.empty eosDbTables)
      (committedCalls ++ .commit 1 :: laterCalls) := by
    decide +kernel
  have above : ∀ middle ∈ Runs.run (DatabaseCall.step false)
      (Client.empty eosDbTables) committedCalls,
        Runs.AllowedFrom (DatabaseCall.step false)
          (fun client call => call.StaysAbove 1 client) middle
          (.commit 1 :: laterCalls) := by
    decide +kernel
  have saved : (1 + 1, (copyingRun (committedCalls.take 3)).history.current) ∈
      (copyingRun committedCalls).history.copies :=
    List.mem_cons_self
  exact committed_is_final false saved
    (plain.mono fun _ _ => DatabaseCall.Plain.proper) above

end StateDatabase
