import Mathlib
import StateDatabase.Library.Snapshots
import StateDatabase.Squash
import StateDatabase.ContractTables

/-!
# Delta records refine full copies

`Represents index history` relates an index to a store that keeps a full copy
of the rows for every open session: the rows and the revision agree, and each
undo state records how the rows went from its copy to the next newer one.
Every permitted call keeps the relation, so a run of an index cannot be told
apart from the run of the store with copies.
-/

namespace StateDatabase

open Snapshots GenericIndex

variable {T : IndexType}

/-! ## The relation -/

/-- Undo states and copies pair up, newest first; `rows` are the rows at the
end of the newest session and `revision` is its revision. -/
def Aligned :
    List (UndoState T) → List (Int × MultiIndex T) → MultiIndex T → Int → Prop
  | [], [], _, _ => True
  | state :: older, copy :: copies, rows, revision =>
      state.revision = revision ∧ copy.1 = revision ∧
        Records state copy.2 rows ∧ Aligned older copies copy.2 (revision - 1)
  | _, _, _, _ => False

structure Represents (index : GenericIndex T)
    (history : History (MultiIndex T)) : Prop where
  rows : index.indices = history.current
  revision : index.revision = history.revision
  aligned : Aligned index.stack history.copies index.indices index.revision

theorem represents_empty (T : IndexType) :
    Represents (GenericIndex.empty T) (History.initial (MultiIndex.empty T)) :=
  ⟨rfl, rfl, trivial⟩

section Aligned

variable {stack : List (UndoState T)} {copies : List (Int × MultiIndex T)}
  {rows : MultiIndex T} {revision : Int}

theorem Aligned.length_eq :
    ∀ {stack : List (UndoState T)} {copies : List (Int × MultiIndex T)}
      {rows : MultiIndex T} {revision : Int},
      Aligned stack copies rows revision → stack.length = copies.length
  | [], [], _, _, _ => rfl
  | _ :: _, _ :: _, _, _, aligned =>
      congrArg Nat.succ (Aligned.length_eq aligned.2.2.2)

theorem Aligned.revisions_eq :
    ∀ {stack : List (UndoState T)} {copies : List (Int × MultiIndex T)}
      {rows : MultiIndex T} {revision : Int},
      Aligned stack copies rows revision →
        stack.map UndoState.revision = copies.map Prod.fst
  | [], [], _, _, _ => rfl
  | _ :: _, copy :: _, _, _, aligned => by
      rw [List.map_cons, List.map_cons, aligned.1, aligned.2.1,
        Aligned.revisions_eq aligned.2.2.2]

/-- The revisions decrease towards the front of the stack. -/
theorem Aligned.revision_le :
    ∀ {stack : List (UndoState T)} {copies : List (Int × MultiIndex T)}
      {rows : MultiIndex T} {revision : Int},
      Aligned stack copies rows revision →
        ∀ state ∈ stack, state.revision ≤ revision
  | state :: _, copy :: _, _, _, aligned, tested, member => by
      rcases List.mem_cons.mp member with isHead | inOlder
      · rw [isHead, aligned.1]
      · have bound :=
          Aligned.revision_le aligned.2.2.2 tested inOlder
        omega
  | [], [], _, _, _, _, member => by
      cases member

/-- Committing cuts both lists at the same place. -/
theorem Aligned.commit (committed : Int) :
    ∀ {stack : List (UndoState T)} {copies : List (Int × MultiIndex T)}
      {rows : MultiIndex T} {revision : Int},
      Aligned stack copies rows revision →
        Aligned
          (stack.filter fun state => !decide (state.revision ≤ committed))
          (copies.filter fun copy => decide (committed < copy.1))
          rows revision
  | [], [], _, _, _ => trivial
  | state :: older, copy :: copies, rows, revision, aligned => by
      obtain ⟨stateRevision, copyRevision, records, olderAligned⟩ := aligned
      have rest := Aligned.commit committed olderAligned
      by_cases kept : committed < revision
      · have keepsState : ¬ state.revision ≤ committed := by omega
        have keepsCopy : committed < copy.1 := by omega
        simp only [List.filter_cons, decide_eq_false keepsState,
          decide_eq_true keepsCopy, Bool.not_false, if_true]
        exact ⟨stateRevision, copyRevision, records, rest⟩
      · have dropsState : state.revision ≤ committed := by omega
        have dropsCopy : ¬ committed < copy.1 := by omega
        have noOlder : older.filter
            (fun state => !decide (state.revision ≤ committed)) = [] := by
          apply List.filter_eq_nil_iff.mpr
          intro tested member
          have bound := olderAligned.revision_le tested member
          have drops : tested.revision ≤ committed := by omega
          simp [drops]
        have noCopies : copies.filter
            (fun copy => decide (committed < copy.1)) = [] := by
          apply List.eq_nil_of_length_eq_zero
          rw [← rest.length_eq, noOlder]
          rfl
        simp only [List.filter_cons, decide_eq_true dropsState,
          decide_eq_false dropsCopy, Bool.not_true, Bool.false_eq_true,
          if_false, noOlder, noCopies]
        trivial

/-- An undo state that is committed is older than every kept one. -/
theorem Aligned.pairwise (committed : Int) :
    ∀ {stack : List (UndoState T)} {copies : List (Int × MultiIndex T)}
      {rows : MultiIndex T} {revision : Int},
      Aligned stack copies rows revision →
        stack.Pairwise fun newer older =>
          decide (newer.revision ≤ committed) = true →
            decide (older.revision ≤ committed) = true
  | [], [], _, _, _ => List.Pairwise.nil
  | state :: older, copy :: copies, rows, revision, aligned => by
      obtain ⟨stateRevision, _, _, olderAligned⟩ := aligned
      refine List.Pairwise.cons ?_
        (Aligned.pairwise committed olderAligned)
      intro tested member drops
      have bound := olderAligned.revision_le tested member
      have headDrops := of_decide_eq_true drops
      exact decide_eq_true (by omega)

/-- The newest undo state may change together with the rows. -/
theorem Aligned.recordHead {changed : MultiIndex T}
    {update : UndoState T → UndoState T}
    (aligned : Aligned stack copies rows revision)
    (keepsRevision : ∀ state, (update state).revision = state.revision)
    (keepsRecord : ∀ state before,
      Records state before rows → Records (update state) before changed)
    (index : GenericIndex T) (isStack : index.stack = stack) :
    Aligned (recordHead update index).stack copies changed revision := by
  subst isStack
  unfold GenericIndex.recordHead
  cases top : index.stack with
  | nil =>
      rw [top] at aligned
      cases copies with
      | nil => simp only [top, Aligned]
      | cons copy rest => exact aligned.elim
  | cons head older =>
      rw [top] at aligned
      cases copies with
      | nil => exact aligned.elim
      | cons copy rest =>
          obtain ⟨headRevision, copyRevision, records, olderAligned⟩ := aligned
          exact ⟨(keepsRevision head).trans headRevision, copyRevision,
            keepsRecord head copy.2 records, olderAligned⟩

end Aligned

theorem onModifyHead_revision (value : T.Value) (state : UndoState T) :
    (onModifyHead value state).revision = state.revision := by
  unfold onModifyHead
  split
  · rfl
  · split
    · rfl
    · rfl

theorem onRemoveHead_revision (value : T.Value) (state : UndoState T) :
    (onRemoveHead value state).revision = state.revision := by
  unfold onRemoveHead
  split
  · rfl
  · split
    · rfl
    · split
      · rfl
      · rfl

/-! ## One call -/

section Calls

variable {index : GenericIndex T} {history : History (MultiIndex T)}

theorem Represents.emplace {value : T.Value} {inserted : MultiIndex T}
    (represents : Represents index history)
    (success : index.indices.emplace value = some inserted) :
    Represents
      (recordHead (onCreateHead value) { index with indices := inserted })
      (history.change inserted) where
  rows := by rw [recordHead_indices]; rfl
  revision := by
    rw [recordHead_revision]
    exact represents.revision
  aligned := by
    rw [recordHead_indices, recordHead_revision]
    have keepsRevision : ∀ state : UndoState T,
        (onCreateHead value state).revision = state.revision := fun _ => rfl
    exact represents.aligned.recordHead keepsRevision (fun _ _ records => records_onCreateHead records success)
      { index with indices := inserted } rfl

/-- A row takes an interchangeable value without a uniqueness violation. -/
theorem modify_of_interchangeable {container : MultiIndex T} {id : T.Id}
    {value new : T.Value}
    (found : container.rows[id]? = some value)
    (same : T.Interchangeable value new) :
    ∃ modified, container.modify id new = some modified ∧
      ∀ tested : T.Id, modified.rows[tested]? =
        if id = tested then some new else container.rows[tested]? := by
  have sameId : T.id new = id := same.1.trans (container.keyed found)
  have admits : (container.erase id).Admits new := by
    refine (MultiIndex.admits_iff _ new).mpr ⟨?_, fun other row isRow clash => ?_⟩
    · rw [MultiIndex.erase_row, if_pos sameId.symm]
    · rw [MultiIndex.erase_row] at isRow
      split at isRow
      · cases isRow
      · rename_i different
        exact different
          (container.unique found isRow ((same.2 row).mp clash))
  refine ⟨(container.erase id).insert new admits,
    MultiIndex.emplace_of_admits admits, fun tested => ?_⟩
  rw [MultiIndex.insert_row, MultiIndex.erase_row, sameId]
  split
  · rfl
  · rfl

theorem Represents.modify {id : T.Id} {value new : T.Value}
    {modified : MultiIndex T}
    (represents : Represents index history)
    (found : index.indices.rows[id]? = some value)
    (same : T.Interchangeable value new)
    (rows : ∀ tested : T.Id, modified.rows[tested]? =
      if id = tested then some new else index.indices.rows[tested]?) :
    Represents
      { recordHead (onModifyHead value) index with indices := modified }
      (history.change modified) where
  rows := rfl
  revision := by
    rw [recordHead_revision]
    exact represents.revision
  aligned := by
    have sameId : T.id value = id := index.indices.keyed found
    simp only [recordHead_revision]
    refine represents.aligned.recordHead (onModifyHead_revision value)
      (fun _ _ records => ?_) index rfl
    exact records_onModifyHead records (by rw [sameId, found]) same
      (by rw [sameId]; exact rows)

theorem Represents.remove {id : T.Id} {value : T.Value}
    (represents : Represents index history)
    (found : index.indices.rows[id]? = some value) :
    Represents
      { recordHead (onRemoveHead value) index with
        indices := index.indices.erase id }
      (history.change (index.indices.erase id)) where
  rows := rfl
  revision := by
    rw [recordHead_revision]
    exact represents.revision
  aligned := by
    have sameId : T.id value = id := index.indices.keyed found
    simp only [recordHead_revision]
    refine represents.aligned.recordHead (onRemoveHead_revision value)
      (fun _ _ records => ?_) index rfl
    exact records_onRemoveHead records (by rw [sameId, found])
      (by rw [sameId]; exact MultiIndex.erase_row index.indices id)

theorem Represents.start (represents : Represents index history) :
    Represents
      { index with
        stack := UndoState.empty T (index.revision + 1) :: index.stack
        revision := index.revision + 1 }
      history.start where
  rows := represents.rows
  revision := congrArg (· + 1) represents.revision
  aligned := by
    have aligned := represents.aligned
    rw [represents.rows] at aligned
    refine ⟨rfl, congrArg (· + 1) represents.revision.symm, ?_, ?_⟩
    · rw [← represents.rows]
      exact records_empty (index.revision + 1) index.indices
    · simpa using aligned

/-- `undo` succeeds and puts the newest copy back. -/
theorem Represents.undo (represents : Represents index history) :
    ∃ undone, GenericIndex.undo index = .ok ⟨⟩ undone ∧
      undone.stack = index.stack.tail ∧ Represents undone history.undo := by
  have aligned := represents.aligned
  cases top : index.stack with
  | nil =>
      rw [top] at aligned
      have noCopies : history.copies = [] := by
        apply List.eq_nil_of_length_eq_zero
        rw [← aligned.length_eq]
        rfl
      refine ⟨index, undo_apply_nil top, top, ?_⟩
      rw [History.undo, noCopies]
      exact represents
  | cons head older =>
      rw [top] at aligned
      cases saved : history.copies with
      | nil =>
          rw [saved] at aligned
          exact aligned.elim
      | cons copy copies =>
          rw [saved] at aligned
          obtain ⟨_, _, records, olderAligned⟩ := aligned
          refine ⟨_, undo_apply_cons top (undoRows_of_records records), rfl, ?_⟩
          rw [History.undo, saved]
          exact ⟨rfl, congrArg (· - 1) represents.revision, olderAligned⟩

/-- Two undo states can be merged when every id of the newer one can. -/
def SquashSafe (index : GenericIndex T) : Prop :=
  match index.stack with
  | state :: previous :: _ =>
      ∀ id : T.Id, (previous.entry id).Mergeable (state.entry id)
        index.indices.rows[id]?
  | _ => True

theorem Represents.squash (ndebug : Bool)
    (represents : Represents index history) (safe : SquashSafe index) :
    ∃ squashed, GenericIndex.squash ndebug index = .ok ⟨⟩ squashed ∧
      Represents squashed history.squash := by
  have aligned := represents.aligned
  unfold SquashSafe at safe
  match top : index.stack, saved : history.copies with
  | [], [] =>
      refine ⟨index, squash_apply_nil top, ?_⟩
      rw [History.squash, saved]
      exact represents
  | [head], [copy] =>
      refine ⟨_, squash_apply_single top, ?_⟩
      rw [History.squash, saved]
      exact ⟨represents.rows, congrArg (· - 1) represents.revision, trivial⟩
  | state :: previous :: older, newest :: next :: copies =>
      rw [top, saved] at aligned
      rw [top] at safe
      obtain ⟨_, _, second, previousRevision, nextRevision, first,
        olderAligned⟩ := aligned
      obtain ⟨merged, success, mergedRevision, records⟩ :=
        mergeStates_of_records ndebug first second safe
      refine ⟨_, squash_apply_cons top success, ?_⟩
      rw [History.squash, saved]
      exact ⟨represents.rows, congrArg (· - 1) represents.revision,
        mergedRevision.trans previousRevision, nextRevision, records,
        olderAligned⟩
  | [], _ :: _ => rw [top, saved] at aligned; exact aligned.elim
  | _ :: _, [] => rw [top, saved] at aligned; exact aligned.elim
  | [_], _ :: _ :: _ => rw [top, saved] at aligned; exact aligned.2.2.2.elim
  | _ :: _ :: _, [_] => rw [top, saved] at aligned; exact aligned.2.2.2.elim

theorem Represents.commit (committed : Int)
    (represents : Represents index history) :
    Represents
      { index with
        stack := index.stack.rdropWhile fun state =>
          decide (state.revision ≤ committed) }
      (history.commit committed) where
  rows := represents.rows
  revision := represents.revision
  aligned := by
    have aligned := represents.aligned
    rw [rdropWhile_eq_filter index.stack (aligned.pairwise committed)]
    exact aligned.commit committed

/-- `undo_all` succeeds and goes back to the oldest copy. -/
theorem Represents.undoTimes :
    ∀ (rounds : Nat) {index : GenericIndex T}
      {history : History (MultiIndex T)},
      Represents index history → index.stack.length = rounds →
        ∃ undone, GenericIndex.undoTimes rounds index = .ok ⟨⟩ undone ∧
          Represents undone history.undoAll
  | 0, index, history, represents, length => by
      have noCopies : history.copies = [] := by
        apply List.eq_nil_of_length_eq_zero
        rw [← represents.aligned.length_eq, length]
      refine ⟨index, rfl, ?_⟩
      rw [History.undoAll_of_copies_nil noCopies]
      exact represents
  | rounds + 1, index, history, represents, length => by
      obtain ⟨undone, success, stack, related⟩ := represents.undo
      have shorter : undone.stack.length = rounds := by
        rw [stack, List.length_tail, length]
        rfl
      obtain ⟨final, finished, finalRelated⟩ :=
        Represents.undoTimes rounds related shorter
      refine ⟨final, ?_, ?_⟩
      · rw [GenericIndex.undoTimes, Programs.bind_apply_of_ok _ success]
        exact finished
      · rw [← History.undoAll_undo]
        exact finalRelated

theorem Represents.setRevision (revision : UInt64)
    (represents : Represents index history) (empty : index.stack = []) :
    Represents { index with revision := (revision.toNat : Int) }
      (history.setRevision (revision.toNat : Int)) := by
  have noCopies : history.copies = [] := by
    apply List.eq_nil_of_length_eq_zero
    rw [← represents.aligned.length_eq, empty]
    rfl
  rw [History.setRevision, if_pos noCopies]
  refine ⟨represents.rows, rfl, ?_⟩
  simp only [empty, noCopies, Aligned]

end Calls

/-! ## Runs -/

/-- The calls on one index; a modifier is given with the id of its row. -/
inductive IndexCall (T : IndexType) where
  | emplace (value : T.Value)
  | modify (id : T.Id) (modifier : T.Value → T.Value)
  | remove (id : T.Id)
  | startUndoSession
  | undo
  | squash
  | commit (revision : Int)
  | undoAll
  | setRevision (revision : UInt64)

namespace IndexCall

def program (ndebug : Bool) : IndexCall T → IndexM T PUnit
  | .emplace value => GenericIndex.emplace value
  | .modify id modifier => GenericIndex.modify id modifier
  | .remove id => GenericIndex.remove id
  | .startUndoSession => GenericIndex.startUndoSession
  | .undo => GenericIndex.undo
  | .squash => GenericIndex.squash ndebug
  | .commit revision => GenericIndex.commit revision
  | .undoAll => GenericIndex.undoAll
  | .setRevision revision => GenericIndex.setRevision revision

/-- The caller goes on after an exception; `none` after any other fault. -/
def step (ndebug : Bool) (index : GenericIndex T) (call : IndexCall T) :
    Option (GenericIndex T) :=
  survive (call.program ndebug index)

/-- The same call on the store with full copies. -/
def reference (history : History (MultiIndex T)) :
    IndexCall T → History (MultiIndex T)
  | .emplace value =>
      match history.current.emplace value with
      | none => history
      | some inserted => history.change inserted
  | .modify id modifier =>
      match history.current.find id with
      | none => history
      | some value =>
          match history.current.modify id (modifier value) with
          | none => history
          | some modified => history.change modified
  | .remove id => history.change (history.current.erase id)
  | .startUndoSession => history.start
  | .undo => history.undo
  | .squash => history.squash
  | .commit revision => history.commit revision
  | .undoAll => history.undoAll
  | .setRevision revision =>
      if (revision.toNat : Int) ≤ int64Max then
        history.setRevision (revision.toNat : Int)
      else
        history

/-- What the caller owes: modified and removed rows are there, modifiers
satisfy `keeps`, the revision does not overflow, and an index is squashed only
when `squashable` holds. -/
def Permitted (keeps : T.Value → T.Value → Prop)
    (squashable : GenericIndex T → Prop) (index : GenericIndex T) :
    IndexCall T → Prop
  | .modify id modifier =>
      ∃ value, index.indices.find id = some value ∧
        keeps value (modifier value)
  | .remove id => index.indices.find id ≠ none
  | .startUndoSession => index.revision < int64Max
  | .squash => squashable index
  | _ => True

instance (keeps : T.Value → T.Value → Prop)
    [∀ old new, Decidable (keeps old new)]
    (squashable : GenericIndex T → Prop)
    [∀ index, Decidable (squashable index)]
    (index : GenericIndex T) (call : IndexCall T) :
    Decidable (call.Permitted keeps squashable index) :=
  match call with
  | .modify id modifier =>
      match found : index.indices.find id with
      | none => isFalse (by simp [Permitted, found])
      | some value =>
          decidable_of_iff (keeps value (modifier value))
            (by simp [Permitted, found])
  | .remove id => inferInstanceAs (Decidable (index.indices.find id ≠ none))
  | .startUndoSession => inferInstanceAs (Decidable (index.revision < int64Max))
  | .squash => inferInstanceAs (Decidable (squashable index))
  | .emplace _ => isTrue trivial
  | .undo => isTrue trivial
  | .commit _ => isTrue trivial
  | .undoAll => isTrue trivial
  | .setRevision _ => isTrue trivial

end IndexCall

/-- Every permitted call keeps the relation to the store with copies. -/
theorem represents_step (ndebug : Bool) (index : GenericIndex T)
    (history : History (MultiIndex T)) (call : IndexCall T)
    (represents : Represents index history)
    (permitted : call.Permitted T.Interchangeable SquashSafe index) :
    ∃ next, call.step ndebug index = some next ∧
      Represents next (call.reference history) := by
  cases call with
  | emplace value =>
      simp only [IndexCall.step, IndexCall.program, IndexCall.reference]
      rw [← represents.rows]
      cases attempt : index.indices.emplace value with
      | none =>
          rw [emplace_apply_none attempt]
          exact ⟨index, rfl, represents⟩
      | some inserted =>
          rw [emplace_apply_some attempt]
          exact ⟨_, rfl, represents.emplace attempt⟩
  | modify id modifier =>
      obtain ⟨value, found, keeps⟩ := permitted
      obtain ⟨modified, success, rows⟩ :=
        modify_of_interchangeable found keeps
      refine ⟨_, congrArg survive (modify_apply_some found success), ?_⟩
      simp only [IndexCall.reference]
      rw [← represents.rows, found]
      simp only [success]
      exact represents.modify found keeps rows
  | remove id =>
      obtain ⟨value, found⟩ := Option.ne_none_iff_exists'.mp permitted
      refine ⟨_, congrArg survive (remove_apply found), ?_⟩
      simp only [IndexCall.reference]
      rw [← represents.rows]
      exact represents.remove found
  | startUndoSession =>
      exact ⟨_, congrArg survive (startUndoSession_apply permitted),
        represents.start⟩
  | undo =>
      obtain ⟨undone, success, _, related⟩ := represents.undo
      exact ⟨undone, congrArg survive success, related⟩
  | squash =>
      obtain ⟨squashed, success, related⟩ :=
        represents.squash ndebug permitted
      exact ⟨squashed, congrArg survive success, related⟩
  | commit revision =>
      exact ⟨_, congrArg survive (commit_apply revision index),
        represents.commit revision⟩
  | undoAll =>
      obtain ⟨undone, success, related⟩ :=
        Represents.undoTimes index.stack.length represents rfl
      exact ⟨undone, congrArg survive success, related⟩
  | setRevision revision =>
      simp only [IndexCall.step, IndexCall.program, IndexCall.reference]
      by_cases bounded : (revision.toNat : Int) ≤ int64Max
      · rw [if_pos bounded]
        by_cases empty : index.stack = []
        · rw [setRevision_apply_nil empty bounded]
          exact ⟨_, rfl, represents.setRevision revision empty⟩
        · obtain ⟨message, refused⟩ := setRevision_apply_error (Or.inl empty)
          have hasCopies : history.copies ≠ [] := by
            intro noCopies
            apply empty
            apply List.eq_nil_of_length_eq_zero
            rw [represents.aligned.length_eq, noCopies]
            rfl
          rw [refused, History.setRevision, if_neg hasCopies]
          exact ⟨index, rfl, represents⟩
      · rw [if_neg bounded]
        obtain ⟨message, refused⟩ :=
          setRevision_apply_error
            (Or.inr (not_le.mp bounded))
        rw [refused]
        exact ⟨index, rfl, represents⟩

theorem IndexCall.Permitted.weaken {index : GenericIndex T}
    {keeps keeps' : T.Value → T.Value → Prop}
    {squashable squashable' : GenericIndex T → Prop}
    (keepsImplies : ∀ old new, keeps old new → keeps' old new)
    (squashImplies : ∀ index, squashable index → squashable' index)
    {call : IndexCall T} (permitted : call.Permitted keeps squashable index) :
    call.Permitted keeps' squashable' index := by
  cases call with
  | modify id modifier =>
      obtain ⟨value, found, kept⟩ := permitted
      exact ⟨value, found, keepsImplies value _ kept⟩
  | squash => exact squashImplies index permitted
  | remove id => exact permitted
  | startUndoSession => exact permitted
  | emplace value => trivial
  | undo => trivial
  | commit revision => trivial
  | undoAll => trivial
  | setRevision revision => trivial

/-- The store with copies after the same calls, from an empty table. -/
def referenceRun (calls : List (IndexCall T)) : History (MultiIndex T) :=
  calls.foldl IndexCall.reference (History.initial (MultiIndex.empty T))

/-- A run of permitted calls is represented by the store with copies. -/
theorem represents_run (ndebug : Bool) {calls : List (IndexCall T)}
    (permitted : Runs.AllowedFrom (IndexCall.step ndebug)
      (fun index call => call.Permitted T.Interchangeable SquashSafe index)
      (GenericIndex.empty T) calls) :
    ∃ index,
      Runs.run (IndexCall.step ndebug) (GenericIndex.empty T) calls =
        some index ∧
      Represents index (referenceRun calls) :=
  Runs.run_simulates (represents_step ndebug) (represents_empty T) permitted

/-- From an empty index, every run of row operations, sessions, undo, commit,
`undo_all` and `set_revision` ends with the rows of the store with full
copies.  In every state reached, an `emplace` that violates uniqueness throws
and changes nothing, and `undo` finds all its rows and does not abort. -/
theorem index_refines_snapshots (ndebug : Bool) (calls : List (IndexCall T))
    (permitted : Runs.AllowedFrom (IndexCall.step ndebug)
      (fun index call => call.Permitted T.KeepsKeys (fun _ => False) index)
      (GenericIndex.empty T) calls) :
    ∃ index,
      Runs.run (IndexCall.step ndebug) (GenericIndex.empty T) calls =
        some index ∧
      index.indices = (referenceRun calls).current ∧
      index.stack.map UndoState.revision =
        (referenceRun calls).copies.map Prod.fst ∧
      (∀ value, ¬ index.indices.Admits value →
        GenericIndex.emplace value index =
          .error (.logicError uniquenessMessage) index) ∧
      ∃ undone, GenericIndex.undo index = .ok ⟨⟩ undone ∧
        undone.indices = (referenceRun calls).undo.current := by
  have squashImplies : ∀ index : GenericIndex T, False → SquashSafe index :=
    fun _ => False.elim
  have weaker := permitted.mono fun index call allowed =>
    allowed.weaken (fun _ _ keeps => keeps.interchangeable) squashImplies
  obtain ⟨index, finished, represents⟩ := represents_run ndebug weaker
  obtain ⟨undone, success, _, related⟩ := represents.undo
  refine ⟨index, finished, represents.rows, represents.aligned.revisions_eq,
    fun value refused => ?_, undone, success, related.rows⟩
  exact emplace_apply_none ((MultiIndex.emplace_eq_none_iff _ _).mpr refused)

/-- A row is removed and created again inside two nested sessions, and the
inner session is undone. -/
def replacedRowCalls : List (IndexCall tableKeyMultiIndex) :=
  [.emplace ⟨1, 7, [10]⟩, .startUndoSession, .remove 1,
    .emplace ⟨1, 7, [11]⟩, .startUndoSession,
    .modify 1 fun row => { row with value := [12] }, .remove 1,
    .emplace ⟨1, 8, [13]⟩, .undo, .commit 0, .undoAll]

theorem index_refines_snapshots_replacedRow :
    ∃ index,
      Runs.run (IndexCall.step false) (GenericIndex.empty tableKeyMultiIndex)
        replacedRowCalls = some index ∧
      index.indices = (referenceRun replacedRowCalls).current ∧
      index.stack.map UndoState.revision =
        (referenceRun replacedRowCalls).copies.map Prod.fst ∧
      (∀ value, ¬ index.indices.Admits value →
        GenericIndex.emplace value index =
          .error (.logicError uniquenessMessage) index) ∧
      ∃ undone, GenericIndex.undo index = .ok ⟨⟩ undone ∧
        undone.indices = (referenceRun replacedRowCalls).undo.current := by
  apply index_refines_snapshots
  decide +kernel

end StateDatabase
