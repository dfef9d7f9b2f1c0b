import Mathlib
import StateDatabase.ReorderedIndices

/-!
# Restarts

Programs map a file, one after the other, each in `map_mode::mapped`: what they
work on is the file itself.  When a program ends, its database object goes, and
with it the list of registered indices; the segment stays as it is.  The next
program registers the indices again, in an order of its own.  The undo states are
part of the segment, so it can undo what the program before it did: restarts
cannot be seen in the stored indices at all.

In `map_mode::heap` and `map_mode::locked` a program works on a copy of the file.
What the next one gets then depends on how the copy is saved, and nothing is said
about it here.
-/

namespace StateDatabase

open Programs GenericIndex Snapshots

variable {τ : Type} [DecidableEq τ] {F : IndexFamily τ}

/-! ## Registering stored indices -/

namespace Database

variable {database : Database F} {t : τ}

/-- The database object of the next program that maps the file, when the last
one has mapped it too. -/
def mappedAgain (database : Database F) (readOnly : Bool) : Database F :=
  { segment := database.segment, indexList := [], readOnly := readOnly }

/-- A stored index is registered as it is. -/
theorem addIndex_stored {base : Int} {depth : Nat}
    (shape : database.HasShape t base depth)
    (shapes : ∀ other ∈ database.indexList, database.HasShape other base depth)
    (unregistered : t ∉ database.indexList) :
    addIndex t database =
      .ok ⟨⟩ { database with indexList := database.indexList ++ [t] } := by
  rcases shape with ⟨index, found, isShape⟩
  apply addIndex_unregistered unregistered
  rw [bind_apply_of_ok _ (findOrConstruct_stored found)]
  cases isList : database.indexList with
  | nil =>
      simp only
      rw [register_apply, isList]
  | cons front rest =>
      have frontShape := shapes front (by simp [isList])
      simp only
      rw [bind_apply_of_ok _ (reconcile_same frontShape ⟨index, found, isShape⟩),
        register_apply, isList]

/-- So are any stored indices with one range, in any order. -/
theorem addIndices_stored {base : Int} {depth : Nat} {order : List τ}
    (shapes : ∀ other ∈ database.indexList ++ order,
      database.HasShape other base depth)
    (nodup : (database.indexList ++ order).Nodup) :
    addIndices order database =
      .ok ⟨⟩ { database with indexList := database.indexList ++ order } := by
  induction order generalizing database with
  | nil => simp [addIndices]
  | cons t rest inductionHypothesis =>
      have unregistered : t ∉ database.indexList := by
        intro member
        have disjoint := (List.nodup_append.mp nodup).2.2
        exact disjoint t member t List.mem_cons_self rfl
      have added := addIndex_stored (shapes t (by simp))
        (fun other member => shapes other (List.mem_append_left _ member))
        unregistered
      rw [addIndices, bind_apply_of_ok _ added]
      have stillShapes : ∀ other ∈ (database.indexList ++ [t]) ++ rest,
          database.HasShape other base depth := by
        simpa using shapes
      have later : addIndices rest
          { database with indexList := database.indexList ++ [t] } = _ :=
        inductionHypothesis stillShapes (by simpa using nodup)
      simpa using later

/-- The indices of a uniform database can be registered again, all of them or
some, for writing or reading. -/
theorem Uniform.reopened {order : List τ} (readOnly : Bool)
    (uniform : database.Uniform) (nodup : order.Nodup)
    (registered : ∀ t ∈ order, t ∈ database.indexList) :
    addIndices order (database.mappedAgain readOnly) =
      .ok ⟨⟩ { database with indexList := order, readOnly := readOnly } := by
  rcases uniform.shapes with ⟨base, depth, shapes⟩
  exact addIndices_stored
    (fun other member => shapes other (registered other member)) nodup

omit [DecidableEq τ] in
/-- The order of the registered indices does not matter, nor whether the file is
open for writing. -/
theorem Mirrors.reordered {history : History (DatabaseRows F)}
    {order : List τ} (readOnly : Bool) (mirrors : database.Mirrors history)
    (same : order.Perm database.indexList) :
    Mirrors { database with indexList := order, readOnly := readOnly }
      history where
  registered := fun t member => mirrors.registered t (same.mem_iff.mp member)
  absent := fun t missing =>
    mirrors.absent t fun member => missing (same.mem_iff.mpr member)
  bottom := by
    intro noIndices
    apply mirrors.bottom
    have isNil : order = [] := noIndices
    exact List.nil_perm.mp (isNil ▸ same)

end Database

/-! ## Clients of several programs -/

/-- The calls of programs that map one file one after the other. -/
inductive LifeCall (F : IndexFamily τ) where
  | ofDatabase (call : DatabaseCall F)
  /-- The program ends, and the next one registers indices in this order. -/
  | restart (order : List τ)

namespace LifeCall

def step (ndebug : Bool) (client : Client F) : LifeCall F → Option (Client F)
  | .ofDatabase call => call.step ndebug client
  | .restart order =>
      match Database.addIndices order (client.database.mappedAgain false) with
      | .ok _ database => some { database := database, sessions := [] }
      | .error _ _ => none

/-- A program ends when all its sessions have gone out of scope, and the next
one registers the same indices. -/
def Proper (client : Client F) : LifeCall F → Prop
  | .ofDatabase call => StateDatabase.Proper client call
  | .restart order =>
      client.sessions = [] ∧ order.Perm client.database.indexList

/-- The calls of the database: one or none. -/
def databaseCalls : LifeCall F → List (DatabaseCall F)
  | .ofDatabase call => [call]
  | .restart _ => []

end LifeCall

/-- The calls without the restarts. -/
def uninterrupted (calls : List (LifeCall F)) : List (DatabaseCall F) :=
  calls.flatMap LifeCall.databaseCalls

/-! ## One call -/

/-- Both clients have been called as stores with copies, and they can be told
apart by the order of their indices only. -/
structure Client.Outlives (client single : Client F) : Prop where
  copies : ∃ copying, client.Mirrors copying
  singleCopies : ∃ copying, single.Mirrors copying
  reordered : client.Reordered single

section Step

variable {client single : Client F} {order : List τ}

/-- A restart leaves everything as it is, but for the order of the indices. -/
theorem Client.Outlives.restart (ndebug : Bool)
    (outlives : client.Outlives single)
    (proper : LifeCall.Proper client (.restart order)) :
    ∃ next, LifeCall.step ndebug client (.restart order) = some next ∧
      next.Outlives single := by
  rcases outlives.copies with ⟨copying, mirrors⟩
  have uniform := mirrors.uniform.database
  have nodup : order.Nodup := proper.2.nodup_iff.mpr uniform.nodup
  have reopens := uniform.reopened false nodup fun t member =>
    proper.2.mem_iff.mp member
  have noCopiedSessions := mirrors.sessions
  rw [proper.1] at noCopiedSessions
  rcases uniform.shapes with ⟨base, depth, shapes⟩
  have nextMirrors : Client.Mirrors
      { database := { client.database with
                      indexList := order, readOnly := false }
        sessions := [] } { copying with tables := order } :=
    { uniform :=
        { database :=
            { writable := rfl
              nodup := nodup
              shapes := ⟨base, depth, fun t member =>
                shapes t (proper.2.mem_iff.mp member)⟩ }
          sessions := by simp }
      tables := rfl
      database := mirrors.database.reordered false proper.2
      sessions := noCopiedSessions }
  refine ⟨_, ?_, ⟨_, nextMirrors⟩, outlives.singleCopies, ⟨?_, ?_, ?_⟩⟩
  · simp only [LifeCall.step, reopens]
  · exact ⟨outlives.reordered.database.segment,
      proper.2.trans outlives.reordered.database.indexList⟩
  · rw [← outlives.reordered.sessions, proper.1]
  · exact outlives.reordered.prefixes

/-- A call of the database does to both clients the same, and a restart does
nothing to the one that is not restarted. -/
theorem outlives_step (ndebug : Bool) (client single : Client F)
    (call : LifeCall F) (outlives : client.Outlives single)
    (proper : call.Proper client) :
    Runs.AllowedFrom (DatabaseCall.step ndebug) Proper single
        call.databaseCalls ∧
      ∃ next nextSingle, call.step ndebug client = some next ∧
        Runs.run (DatabaseCall.step ndebug) single call.databaseCalls =
          some nextSingle ∧
        next.Outlives nextSingle := by
  cases call with
  | ofDatabase made =>
      rcases outlives.copies with ⟨copying, mirrors⟩
      rcases outlives.singleCopies with ⟨singleCopying, singleMirrors⟩
      have properSingle := outlives.reordered.proper proper
      rcases mirrors_step ndebug client copying made mirrors proper with
        ⟨next, stepped, nextMirrors⟩
      rcases mirrors_step ndebug single singleCopying made singleMirrors
        properSingle with ⟨nextSingle, singleStepped, nextSingleMirrors⟩
      rcases reordered_step ndebug outlives.reordered mirrors singleMirrors
        proper with ⟨reached, singleReached, ran, singleRan, reordered⟩
      rw [stepped] at ran
      rw [singleStepped] at singleRan
      cases ran
      cases singleRan
      refine ⟨⟨properSingle, fun _ _ => trivial⟩, next, nextSingle, stepped, ?_,
        ⟨_, nextMirrors⟩, ⟨_, nextSingleMirrors⟩, reordered⟩
      rw [LifeCall.databaseCalls, Runs.run_cons, singleStepped]
      rfl
  | restart order =>
      rcases outlives.restart ndebug proper with ⟨next, stepped, still⟩
      exact ⟨trivial, next, single, stepped, rfl, still⟩

/-- A loop of the database leaves the same indices behind. -/
theorem Client.Outlives.everywhere
    {program : (t : τ) → IndexM (F.indexType t) PUnit}
    {history : History (DatabaseRows F)} (outlives : client.Outlives single)
    (returns : ∃ final,
      Database.forIndices program single.database.indexList single.database =
          .ok ⟨⟩ final ∧
        final.indexList = single.database.indexList ∧
        final.Mirrors history) :
    ∃ final singleFinal,
      Database.forIndices program client.database.indexList client.database =
        .ok ⟨⟩ final ∧
      Database.forIndices program single.database.indexList single.database =
        .ok ⟨⟩ singleFinal ∧
      final.segment = singleFinal.segment ∧
      singleFinal.rows = history.current := by
  rcases returns with ⟨singleFinal, ran, _, mirrors⟩
  rcases outlives.singleCopies with ⟨_, singleMirrors⟩
  have reordered := outlives.reordered.database
  rcases Database.forIndices_reordered reordered.segment.symm
    reordered.indexList.symm singleMirrors.uniform.database.nodup ran with
    ⟨final, returned, _, segment⟩
  exact ⟨final, singleFinal, returned, ran, segment.symm, mirrors.rows_eq⟩

end Step

/-! ## Runs -/

/-- Restarts are not seen.  When every program maps the file, the stored indices
with their undo states are those of one program that makes all the calls, and so
are those that an undo of the next program leaves, whatever order every program
registers its indices in.  The rows are those of the store with copies.  A
program that only reads can register any of the indices in any order and sees
the same ones. -/
theorem restarts_are_not_seen (ndebug : Bool) (calls : List (LifeCall F))
    (proper : Runs.AllowedFrom (LifeCall.step ndebug) LifeCall.Proper
      (Client.empty F) calls) :
    ∃ client single,
      Runs.run (LifeCall.step ndebug) (Client.empty F) calls = some client ∧
      Runs.run (DatabaseCall.step ndebug) (Client.empty F)
        (uninterrupted calls) = some single ∧
      client.database.indexList.Perm single.database.indexList ∧
      client.database.segment = single.database.segment ∧
      single.database.rows =
        (copyingRun (uninterrupted calls)).history.current ∧
      (∃ undone singleUndone,
        Database.undo client.database = .ok ⟨⟩ undone ∧
        Database.undo single.database = .ok ⟨⟩ singleUndone ∧
        undone.segment = singleUndone.segment ∧
        singleUndone.rows =
          (copyingRun (uninterrupted calls)).history.undo.current) ∧
      (∃ unwound singleUnwound,
        Database.undoAll client.database = .ok ⟨⟩ unwound ∧
        Database.undoAll single.database = .ok ⟨⟩ singleUnwound ∧
        unwound.segment = singleUnwound.segment ∧
        singleUnwound.rows =
          (copyingRun (uninterrupted calls)).history.undoAll.current) ∧
      ∀ (readOnly : Bool) (order : List τ), order.Nodup →
        (∀ t ∈ order, t ∈ client.database.indexList) →
          ∃ reader, Database.addIndices order
              (client.database.mappedAgain readOnly) = .ok ⟨⟩ reader ∧
            reader.indexList = order ∧
            reader.segment = single.database.segment := by
  have initially : (Client.empty F).Outlives (Client.empty F) :=
    { copies := ⟨_, Client.mirrors_empty F⟩
      singleCopies := ⟨_, Client.mirrors_empty F⟩
      reordered := ⟨⟨rfl, .refl _⟩, rfl, by simp [Client.empty]⟩ }
  rcases Runs.run_translates (outlives_step ndebug) initially proper with
    ⟨properSingle, client, single, finished, singleFinished, outlives⟩
  rcases mirrors_run ndebug properSingle with ⟨reached, ran, mirrors⟩
  change Runs.run _ _ (uninterrupted calls) = _ at singleFinished
  change reached.Mirrors (copyingRun (uninterrupted calls)) at mirrors
  cases singleFinished.symm.trans ran
  have nodup := mirrors.uniform.database.nodup
  rcases outlives.copies with ⟨_, clientMirrors⟩
  have segment := outlives.reordered.database.segment
  refine ⟨client, single, finished, singleFinished,
    outlives.reordered.database.indexList, segment, mirrors.database.rows_eq,
    outlives.everywhere (mirrors.database.undone nodup),
    outlives.everywhere (mirrors.database.unwound nodup), ?_⟩
  intro readOnly order orderNodup registered
  exact ⟨_, clientMirrors.uniform.database.reopened readOnly orderNodup
    registered, rfl, segment⟩

/-- A session is pushed and the program ends; the next one registers the
tables the other way around and undoes the session of the first. -/
def twoPrograms : List (LifeCall eosDbTables) :=
  [.ofDatabase (.addIndex .tableKey), .ofDatabase (.addIndex .keyValue),
    .ofDatabase (.create .tableKey ⟨1, 7, [10]⟩),
    .ofDatabase .startUndoSession,
    .ofDatabase (.create .keyValue ⟨1, 1, 1, ⟨7⟩, []⟩),
    .ofDatabase (.remove .tableKey 1), .ofDatabase (.sessionPush 0),
    .ofDatabase (.sessionDestroy 0), .restart [.keyValue, .tableKey],
    .ofDatabase .undo]

/-- The conditions that can be evaluated. -/
def LifeCall.Plain (client : Client F) : LifeCall F → Prop
  | .ofDatabase call => call.Plain client
  | .restart order =>
      client.sessions = [] ∧ order.Perm client.database.indexList

instance (client : Client eosDbTables) (call : LifeCall eosDbTables) :
    Decidable (call.Plain client) := by
  cases call <;> unfold LifeCall.Plain <;> infer_instance

theorem restarts_are_not_seen_twoPrograms :
    ∃ client single,
      Runs.run (LifeCall.step false) (Client.empty eosDbTables) twoPrograms =
        some client ∧
      Runs.run (DatabaseCall.step false) (Client.empty eosDbTables)
        (uninterrupted twoPrograms) = some single ∧
      client.database.segment = single.database.segment := by
  have plain : Runs.AllowedFrom (LifeCall.step false) LifeCall.Plain
      (Client.empty eosDbTables) twoPrograms := by
    decide +kernel
  rcases restarts_are_not_seen false twoPrograms (plain.mono (by
    intro client call isPlain
    cases call with
    | ofDatabase call => exact DatabaseCall.Plain.proper isPlain
    | restart order => exact isPlain)) with
    ⟨client, single, finished, singleFinished, _, segment, _⟩
  exact ⟨client, single, finished, singleFinished, segment⟩

end StateDatabase
