import Mathlib
import StateDatabase.RevisionRange

/-!
# The undo stack of one index

After any calls each undo state says how its session has changed the rows, and
the revisions of the undo states are consecutive.
-/

namespace StateDatabase

open Snapshots GenericIndex

variable {T : IndexType}

/-! ## Records -/

/-- What the three sets of an undo state say about the rows at the start and
at the end of its session. -/
structure UndoState.WellFormed (state : UndoState T)
    (start final : MultiIndex T) : Prop where
  old : ∀ (id : T.Id) (value : T.Value), state.oldValues[id]? = some value →
    T.id value = id ∧ start.rows[id]? = some value
  removed : ∀ (id : T.Id) (value : T.Value),
    state.removedValues[id]? = some value →
      T.id value = id ∧ start.rows[id]? = some value
  old_not_new : ∀ id ∈ state.oldValues, id ∉ state.newIds
  old_not_removed : ∀ id ∈ state.oldValues, id ∉ state.removedValues
  new_present : ∀ id ∈ state.newIds, final.rows[id]? ≠ none
  old_present : ∀ id ∈ state.oldValues, final.rows[id]? ≠ none
  new_iff : ∀ id ∈ state.newIds,
    (start.rows[id]? ≠ none ↔ id ∈ state.removedValues)
  removed_iff : ∀ id ∈ state.removedValues,
    (final.rows[id]? ≠ none ↔ id ∈ state.newIds)
  others : ∀ id : T.Id, id ∉ state.newIds → id ∉ state.oldValues →
    id ∉ state.removedValues → final.rows[id]? = start.rows[id]?

section Changes

variable {before after : Option T.Value} {entry : Entry T}

/-- A modified row is neither new nor removed. -/
theorem Change.old_alone (change : Change T before after entry)
    (hasOld : entry.old ≠ none) :
    entry.isNew = false ∧ entry.removed = none ∧ after ≠ none := by
  cases change with
  | updated old value _ => exact ⟨rfl, rfl, Option.some_ne_none value⟩
  | untouched => exact (hasOld rfl).elim
  | created => exact (hasOld rfl).elim
  | removed => exact (hasOld rfl).elim
  | replaced => exact (hasOld rfl).elim

/-- A new row takes the place of another one if that one was removed. -/
theorem Change.new_iff (change : Change T before after entry)
    (isNew : entry.isNew = true) : before ≠ none ↔ entry.removed ≠ none := by
  cases change with
  | created value => exact Iff.rfl
  | replaced old value =>
      exact iff_of_true (Option.some_ne_none old) (Option.some_ne_none old)
  | untouched => cases isNew
  | updated => cases isNew
  | removed => cases isNew

/-- The id of a removed row has a row again if one was created. -/
theorem Change.removed_iff (change : Change T before after entry)
    (hasRemoved : entry.removed ≠ none) :
    after ≠ none ↔ entry.isNew = true := by
  cases change with
  | removed old =>
      exact iff_of_false (fun absent => absent rfl) Bool.false_ne_true
  | replaced old value => exact iff_of_true (Option.some_ne_none value) rfl
  | untouched => exact (hasRemoved rfl).elim
  | created => exact (hasRemoved rfl).elim
  | updated => exact (hasRemoved rfl).elim

theorem Change.same (change : Change T before after entry)
    (notNew : entry.isNew = false) (noOld : entry.old = none)
    (notRemoved : entry.removed = none) : after = before := by
  cases change with
  | untouched => rfl
  | created => cases notNew
  | updated => cases noOld
  | removed => cases notRemoved
  | replaced => cases notNew

end Changes

section Records

variable {state : UndoState T} {start final : MultiIndex T} {id : T.Id}

theorem mem_newIds_iff : id ∈ state.newIds ↔ (state.entry id).isNew = true :=
  decide_eq_true_iff.symm

theorem mem_oldValues_iff :
    id ∈ state.oldValues ↔ (state.entry id).old ≠ none := by
  rw [Maps.mem_map_iff, ← Option.ne_none_iff_exists']
  rfl

theorem mem_removedValues_iff :
    id ∈ state.removedValues ↔ (state.entry id).removed ≠ none := by
  rw [Maps.mem_map_iff, ← Option.ne_none_iff_exists']
  rfl

/-- A record is well formed. -/
theorem Records.wellFormed (records : Records state start final) :
    state.WellFormed start final where
  old := by
    intro id value isOld
    have wasRow := ((records id).of_old isOld).1
    exact ⟨start.keyed wasRow, wasRow⟩
  removed := by
    intro id value isRemoved
    have wasRow := ((records id).of_removed isRemoved).1
    exact ⟨start.keyed wasRow, wasRow⟩
  old_not_new := by
    intro id hasOld isNew
    rw [mem_oldValues_iff] at hasOld
    rw [mem_newIds_iff, ((records id).old_alone hasOld).1] at isNew
    cases isNew
  old_not_removed := by
    intro id hasOld isRemoved
    rw [mem_oldValues_iff] at hasOld
    rw [mem_removedValues_iff] at isRemoved
    exact isRemoved ((records id).old_alone hasOld).2.1
  new_present := by
    intro id isNew
    rw [mem_newIds_iff] at isNew
    exact (records id).present_of_new isNew
  old_present := by
    intro id hasOld
    rw [mem_oldValues_iff] at hasOld
    exact ((records id).old_alone hasOld).2.2
  new_iff := by
    intro id isNew
    rw [mem_newIds_iff] at isNew
    rw [mem_removedValues_iff]
    exact (records id).new_iff isNew
  removed_iff := by
    intro id isRemoved
    rw [mem_removedValues_iff] at isRemoved
    rw [mem_newIds_iff]
    exact (records id).removed_iff isRemoved
  others := by
    intro id notNew noOld notRemoved
    rw [mem_newIds_iff, Bool.not_eq_true] at notNew
    rw [mem_oldValues_iff, not_not] at noOld
    rw [mem_removedValues_iff, not_not] at notRemoved
    exact (records id).same notNew noOld notRemoved

/-- The branch of `on_remove` for a row that is on record as removed. -/
def UndoState.TakesRemovedBranch (state : UndoState T) (id : T.Id) : Prop :=
  id ∉ state.newIds ∧ id ∉ state.oldValues ∧ id ∈ state.removedValues

/-- A row that is there has not been removed, unless it was created since. -/
theorem UndoState.WellFormed.not_takesRemovedBranch
    (wellFormed : state.WellFormed start final)
    (present : final.rows[id]? ≠ none) : ¬ state.TakesRemovedBranch id := by
  rintro ⟨notNew, _, isRemoved⟩
  exact notNew ((wellFormed.removed_iff id isRemoved).mp present)

end Records

/-! ## The records of a stack -/

/-- The undo states of the stack, newest first, and the rows with which their
sessions began.  The rows at the end of a session are those with which the next
one began. -/
theorem Aligned.wellFormed :
    ∀ {stack : List (UndoState T)} {copies : List (Int × MultiIndex T)}
      {rows : MultiIndex T} {revision : Int},
      Aligned stack copies rows revision →
        ∀ (n : Nat) (state : UndoState T) (start final : MultiIndex T),
          stack[n]? = some state → (copies.map Prod.snd)[n]? = some start →
            (rows :: copies.map Prod.snd)[n]? = some final →
              state.WellFormed start final := by
  intro stack
  induction stack with
  | nil =>
      intro copies rows revision _ n state start final isState
      cases isState
  | cons head older inductionHypothesis =>
      intro copies rows revision aligned n state start final isState isStart
        isFinal
      cases copies with
      | nil => exact aligned.elim
      | cons copy rest =>
          obtain ⟨_, _, records, olderAligned⟩ := aligned
          cases n with
          | zero =>
              cases isState
              cases isStart
              cases isFinal
              exact records.wellFormed
          | succ n =>
              rw [List.map_cons] at isStart isFinal
              rw [List.getElem?_cons_succ] at isState isStart isFinal
              exact inductionHypothesis olderAligned n state start final
                isState isStart isFinal

/-- After any row operations, sessions, undo, commit and `undo_all`, every undo
state is well formed for the rows at the start and at the end of its session,
and no row that is there takes the branch of `on_remove` for removed rows. -/
theorem undo_records_wellFormed (ndebug : Bool) (calls : List (IndexCall T))
    (permitted : Runs.AllowedFrom (IndexCall.step ndebug)
      (fun index call => call.Permitted T.KeepsKeys (fun _ => False) index)
      (GenericIndex.empty T) calls) :
    ∃ index,
      Runs.run (IndexCall.step ndebug) (GenericIndex.empty T) calls =
        some index ∧
      index.indices = (referenceRun calls).current ∧
      index.stack.length = (referenceRun calls).copies.length ∧
      (∀ (n : Nat) (state : UndoState T) (start final : MultiIndex T),
        index.stack[n]? = some state →
          ((referenceRun calls).copies.map Prod.snd)[n]? = some start →
            (index.indices ::
              (referenceRun calls).copies.map Prod.snd)[n]? = some final →
                state.WellFormed start final) ∧
      ∀ (head : UndoState T) (id : T.Id), index.stack.head? = some head →
        index.indices.find id ≠ none → ¬ head.TakesRemovedBranch id := by
  have squashImplies : ∀ index : GenericIndex T, False → SquashSafe index :=
    fun _ => False.elim
  have weaker := permitted.mono fun index call allowed =>
    allowed.weaken (fun _ _ keeps => keeps.interchangeable) squashImplies
  obtain ⟨index, finished, represents⟩ := represents_run ndebug weaker
  refine ⟨index, finished, represents.rows, represents.aligned.length_eq,
    represents.aligned.wellFormed, ?_⟩
  intro head id isHead present
  have aligned := represents.aligned
  cases top : index.stack with
  | nil =>
      rw [top] at isHead
      cases isHead
  | cons first older =>
      rw [top] at isHead aligned
      cases isHead
      cases saved : (referenceRun calls).copies with
      | nil =>
          rw [saved] at aligned
          exact aligned.elim
      | cons copy rest =>
          rw [saved] at aligned
          exact aligned.2.2.1.wellFormed.not_takesRemovedBranch present

/-- A row is removed and created again in one session, and modified in the
next. -/
def recreationCalls : List (IndexCall tableKeyMultiIndex) :=
  [.emplace ⟨1, 7, [10]⟩, .emplace ⟨2, 7, [20]⟩, .startUndoSession, .remove 1,
    .emplace ⟨1, 8, [11]⟩, .remove 2, .startUndoSession,
    .modify 1 fun row => { row with value := [12] }]

theorem undo_records_wellFormed_recreatedRow :
    ∃ index,
      Runs.run (IndexCall.step false) (GenericIndex.empty tableKeyMultiIndex)
        recreationCalls = some index ∧
      index.indices = (referenceRun recreationCalls).current ∧
      index.stack.length = (referenceRun recreationCalls).copies.length ∧
      (∀ (n : Nat) (state : UndoState tableKeyMultiIndex)
        (start final : MultiIndex tableKeyMultiIndex),
        index.stack[n]? = some state →
          ((referenceRun recreationCalls).copies.map Prod.snd)[n]? =
            some start →
            (index.indices ::
              (referenceRun recreationCalls).copies.map Prod.snd)[n]? =
                some final →
                state.WellFormed start final) ∧
      ∀ (head : UndoState tableKeyMultiIndex) (id : Sha256),
        index.stack.head? = some head →
          index.indices.find id ≠ none → ¬ head.TakesRemovedBranch id := by
  apply undo_records_wellFormed
  decide +kernel

/-! ## Consecutive revisions -/

/-- The revisions of the undo states end at the revision of the index, and
`commit` keeps exactly the undo states behind its revision. -/
structure GenericIndex.ConsecutiveRevisions (index : GenericIndex T) :
    Prop where
  nonneg : 0 ≤ index.revision
  revisions : ∀ (n : Nat) (state : UndoState T), index.stack[n]? = some state →
    state.revision = index.revision - n
  range : index.undoStackRevisionRange =
    (index.revision - index.stack.length, index.revision)
  commit : ∀ revision : Int, ∃ committed,
    GenericIndex.commit revision index = .ok ⟨⟩ committed ∧
      committed.revision = index.revision ∧
      committed.indices = index.indices ∧
      committed.stack =
        index.stack.filter fun state => decide (revision < state.revision)

/-- The calls on sessions; the revision does not go beyond the largest
`int64_t`. -/
def IndexCall.OnSessions (index : GenericIndex T) : IndexCall T → Prop
  | .startUndoSession => index.revision < int64Max
  | .undo => True
  | .squash => True
  | .commit _ => True
  | .undoAll => True
  | .setRevision _ => True
  | _ => False

section Revisions

variable {index : GenericIndex T} {base : Int} {depth : Nat}

theorem descending_getElem? {base : Int} {depth n : Nat} {revision : Int}
    (isRevision : (descending base depth)[n]? = some revision) :
    revision = base + depth - n := by
  induction depth generalizing n with
  | zero => cases isRevision
  | succ depth inductionHypothesis =>
      cases n with
      | zero =>
          cases isRevision
          push_cast
          omega
      | succ n =>
          rw [descending, List.getElem?_cons_succ] at isRevision
          have earlier := inductionHypothesis isRevision
          push_cast
          omega

theorem Shape.consecutiveRevisions (shape : Shape index base depth) :
    index.ConsecutiveRevisions := by
  have isRevision := shape.revision
  have isDepth := shape.length
  have nonneg := shape.nonneg
  constructor
  · omega
  · intro n state isState
    have listed : (descending base depth)[n]? = some state.revision := by
      rw [← shape.stack, List.getElem?_map, isState]
      rfl
    have position := descending_getElem? listed
    omega
  · rw [shape.range, isRevision, isDepth]
    have isBase : base + (depth : Int) - depth = base := by omega
    rw [isBase]
  · intro revision
    refine ⟨_, commit_apply revision index, rfl, rfl, ?_⟩
    dsimp only
    rw [rdropWhile_eq_filter index.stack (shape.drops_older revision)]
    apply List.filter_congr
    intro state _
    rw [← decide_not, decide_eq_decide]
    omega

/-! ## Sessions without changes -/

/-- No session has changed anything. -/
def GenericIndex.Unchanged (index : GenericIndex T) : Prop :=
  ∀ state ∈ index.stack, state = UndoState.empty T state.revision

theorem undoRows_empty (revision : Int) (rows : MultiIndex T) :
    undoRows (UndoState.empty T revision) rows = .ok rows :=
  undoRows_of_records (records_empty revision rows)

theorem mergeStates_empty (ndebug : Bool) (first second : Int) :
    mergeStates ndebug (UndoState.empty T first) (UndoState.empty T second) =
      .ok (UndoState.empty T first) := by
  have noEntries : (∅ : IdMap T T.Value).toList = [] :=
    Std.ExtTreeMap.toList_eq_nil_iff.mpr rfl
  have noIds : (∅ : IdSet T).toList = [] :=
    Std.ExtTreeSet.toList_eq_nil_iff.mpr rfl
  rw [mergeStates]
  simp only [UndoState.empty, noEntries, noIds, List.foldlM_nil,
    List.foldl_nil]
  rfl

theorem GenericIndex.Unchanged.undo (unchanged : index.Unchanged) :
    ∃ undone, GenericIndex.undo index = .ok ⟨⟩ undone ∧ undone.Unchanged ∧
      undone.stack = index.stack.tail := by
  cases top : index.stack with
  | nil => exact ⟨index, undo_apply_nil top, unchanged, top⟩
  | cons head older =>
      have isEmpty := unchanged head (by rw [top]; exact List.mem_cons_self)
      have restores : undoRows head index.indices = .ok index.indices := by
        rw [isEmpty]
        exact undoRows_empty head.revision index.indices
      refine ⟨_, undo_apply_cons top restores, ?_, rfl⟩
      intro state member
      apply unchanged state
      rw [top]
      exact List.mem_cons_of_mem head member

theorem GenericIndex.Unchanged.undoTimes :
    ∀ (rounds : Nat) {index : GenericIndex T}, index.Unchanged →
      ∃ undone, GenericIndex.undoTimes rounds index = .ok ⟨⟩ undone ∧
        undone.Unchanged := by
  intro rounds
  induction rounds with
  | zero =>
      intro index unchanged
      exact ⟨index, rfl, unchanged⟩
  | succ rounds inductionHypothesis =>
      intro index unchanged
      obtain ⟨undone, success, stillUnchanged, _⟩ := unchanged.undo
      obtain ⟨final, finished, finalUnchanged⟩ :=
        inductionHypothesis stillUnchanged
      refine ⟨final, ?_, finalUnchanged⟩
      rw [GenericIndex.undoTimes, Programs.bind_apply_of_ok _ success]
      exact finished

theorem GenericIndex.Unchanged.squash (ndebug : Bool)
    (unchanged : index.Unchanged) :
    ∃ squashed, GenericIndex.squash ndebug index = .ok ⟨⟩ squashed ∧
      squashed.Unchanged := by
  cases top : index.stack with
  | nil => exact ⟨index, squash_apply_nil top, unchanged⟩
  | cons head rest =>
      cases rest with
      | nil =>
          refine ⟨_, squash_apply_single top, ?_⟩
          intro state member
          cases member
      | cons previous older =>
          rw [GenericIndex.Unchanged, top] at unchanged
          have headEmpty := unchanged head List.mem_cons_self
          have previousEmpty := unchanged previous
            (List.mem_cons_of_mem head List.mem_cons_self)
          have merges := mergeStates_empty (T := T) ndebug previous.revision
            head.revision
          rw [← headEmpty, ← previousEmpty] at merges
          refine ⟨_, squash_apply_cons top merges, ?_⟩
          intro state member
          exact unchanged state (List.mem_cons_of_mem head member)

/-- A call on sessions does not end the process. -/
theorem GenericIndex.Unchanged.step (ndebug : Bool)
    (unchanged : index.Unchanged) {call : IndexCall T}
    (onSessions : call.OnSessions index) :
    ∃ next, call.step ndebug index = some next ∧ next.Unchanged := by
  cases call with
  | emplace value => exact onSessions.elim
  | modify id modifier => exact onSessions.elim
  | remove id => exact onSessions.elim
  | startUndoSession =>
      refine ⟨_, congrArg survive (startUndoSession_apply onSessions), ?_⟩
      intro state member
      rcases List.mem_cons.mp member with isNew | isOld
      · rw [isNew]
        rfl
      · exact unchanged state isOld
  | undo =>
      obtain ⟨undone, success, stillUnchanged, _⟩ := unchanged.undo
      exact ⟨undone, congrArg survive success, stillUnchanged⟩
  | squash =>
      obtain ⟨squashed, success, stillUnchanged⟩ := unchanged.squash ndebug
      exact ⟨squashed, congrArg survive success, stillUnchanged⟩
  | commit revision =>
      refine ⟨_, congrArg survive (commit_apply revision index), ?_⟩
      intro state member
      exact unchanged state ((List.rdropWhile_prefix _ _).subset member)
  | undoAll =>
      obtain ⟨undone, success, stillUnchanged⟩ :=
        GenericIndex.Unchanged.undoTimes index.stack.length unchanged
      exact ⟨undone, congrArg survive success, stillUnchanged⟩
  | setRevision revision =>
      by_cases accepted : index.stack = [] ∧ (revision.toNat : Int) ≤ int64Max
      · refine ⟨_, congrArg survive
          (setRevision_apply_nil accepted.1 accepted.2), ?_⟩
        exact unchanged
      · have refused : index.stack ≠ [] ∨
            int64Max < (revision.toNat : Int) := by
          by_cases flat : index.stack = []
          · exact Or.inr (not_le.mp fun bounded => accepted ⟨flat, bounded⟩)
          · exact Or.inl flat
        obtain ⟨message, throws⟩ := setRevision_apply_error refused
        exact ⟨index, congrArg survive throws, unchanged⟩

end Revisions

/-- After any calls the revisions on the undo stack are consecutive and end at
the revision of the index, which is not negative.  Calls on sessions from
there, as long as no row is changed, do not end the process. -/
theorem revisions_consecutive (ndebug : Bool) (calls : List (IndexCall T))
    (index : GenericIndex T)
    (reached : Runs.run (IndexCall.step ndebug) (GenericIndex.empty T) calls =
      some index) :
    index.ConsecutiveRevisions ∧
      (index.stack = [] → ∀ onSessions : List (IndexCall T),
        Runs.AllowedFrom (IndexCall.step ndebug) IndexCall.OnSessions index
          onSessions →
          ∃ final, Runs.run (IndexCall.step ndebug) index onSessions =
            some final ∧ final.ConsecutiveRevisions) := by
  obtain ⟨base, depth, shape⟩ := shape_run reached
  refine ⟨shape.consecutiveRevisions, ?_⟩
  intro flat onSessions allowed
  have unchanged : index.Unchanged := by
    intro state member
    rw [flat] at member
    cases member
  have preserved : ∀ (index : GenericIndex T) (call : IndexCall T),
      index.Unchanged → call.OnSessions index →
        ∃ next, call.step ndebug index = some next ∧ next.Unchanged :=
    fun _ _ unchanged onSessions => unchanged.step ndebug onSessions
  obtain ⟨final, finished, _⟩ := Runs.run_invariant preserved unchanged allowed
  have reachedFinal : Runs.run (IndexCall.step ndebug) (GenericIndex.empty T)
      (calls ++ onSessions) = some final := by
    rw [Runs.run_append, reached]
    exact finished
  obtain ⟨_, _, finalShape⟩ := shape_run reachedFinal
  exact ⟨final, finished, finalShape.consecutiveRevisions⟩

/-- Sessions above a revision that was set, with a commit in between. -/
def sessionCalls : List (IndexCall tableKeyMultiIndex) :=
  [.emplace ⟨1, 7, [10]⟩, .setRevision 5, .startUndoSession,
    .modify 1 fun row => { row with value := [11] }, .startUndoSession,
    .startUndoSession, .commit 6]

theorem revisions_consecutive_committed :
    ∃ index,
      Runs.run (IndexCall.step false) (GenericIndex.empty tableKeyMultiIndex)
        sessionCalls = some index ∧
      index.revision = 8 ∧ index.ConsecutiveRevisions := by
  have test : (Runs.run (IndexCall.step false)
      (GenericIndex.empty tableKeyMultiIndex) sessionCalls).any
        (fun index => decide (index.revision = 8)) = true := by
    decide +kernel
  obtain ⟨index, reached, isEight⟩ := (Option.any_eq_true _ _).mp test
  exact ⟨index, reached, of_decide_eq_true isEight,
    (revisions_consecutive false sessionCalls index reached).1⟩

end StateDatabase
