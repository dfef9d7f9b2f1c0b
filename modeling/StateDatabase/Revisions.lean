import Mathlib
import StateDatabase.Library.Snapshots
import StateDatabase.SnapshotRefinement

/-!
# Revisions on the undo stack

The revisions of the undo states are consecutive and end at the revision of
the index.  `Shape index base depth` says so: there are `depth` undo states,
their revisions are `base + 1, …, base + depth`, and the revision of the index
is `base + depth`.  Every call changes the shape in a way that depends on the
shape alone, not on the rows.
-/

namespace StateDatabase

open Snapshots GenericIndex

variable {T : IndexType}

/-- `base + depth, …, base + 1` -/
def descending (base : Int) : Nat → List Int
  | 0 => []
  | depth + 1 => (base + (depth + 1)) :: descending base depth

@[simp]
theorem descending_length (base : Int) (depth : Nat) :
    (descending base depth).length = depth := by
  induction depth with
  | zero => rfl
  | succ depth inductionHypothesis =>
      simp [descending, inductionHypothesis]

theorem mem_descending {base : Int} {depth : Nat} {revision : Int}
    (member : revision ∈ descending base depth) :
    base < revision ∧ revision ≤ base + depth := by
  induction depth with
  | zero => cases member
  | succ depth inductionHypothesis =>
      rcases List.mem_cons.mp member with isHead | inTail
      · subst isHead
        push_cast
        omega
      · have bounds := inductionHypothesis inTail
        push_cast
        omega

theorem descending_pairwise (base : Int) (depth : Nat) :
    (descending base depth).Pairwise fun newer older => older < newer := by
  induction depth with
  | zero => exact List.Pairwise.nil
  | succ depth inductionHypothesis =>
      apply List.Pairwise.cons _ inductionHypothesis
      intro older member
      have bounds := mem_descending member
      omega

theorem getLast?_descending {base oldest : Int} {depth : Nat}
    (last : (descending base depth).getLast? = some oldest) :
    oldest = base + 1 := by
  induction depth with
  | zero => cases last
  | succ depth inductionHypothesis =>
      cases depth with
      | zero => simpa [descending, eq_comm] using last
      | succ depth =>
          rw [descending, descending, List.getLast?_cons_cons] at last
          exact inductionHypothesis last

/-- How many undo states `commit` drops. -/
def committedDepth (base : Int) (depth : Nat) (revision : Int) : Nat :=
  min (revision - base).toNat depth

theorem filter_descending (base revision : Int) (depth : Nat) :
    (descending base depth).filter (fun tested => decide (revision < tested)) =
      descending (base + committedDepth base depth revision)
        (depth - committedDepth base depth revision) := by
  induction depth with
  | zero =>
      simp [descending]
  | succ depth inductionHypothesis =>
      rw [descending]
      by_cases kept : revision < base + (depth + 1)
      · have sameCount : committedDepth base (depth + 1) revision =
            committedDepth base depth revision := by
          unfold committedDepth
          omega
        have bound : committedDepth base depth revision ≤ depth := by
          unfold committedDepth
          omega
        have oneMore : depth + 1 - committedDepth base depth revision =
            depth - committedDepth base depth revision + 1 := by
          omega
        rw [List.filter_cons, if_pos (decide_eq_true kept),
          inductionHypothesis, sameCount, oneMore, descending]
        congr 1
        push_cast [Nat.cast_sub bound]
        ring
      · have dropsAll : (descending base depth).filter
            (fun tested => decide (revision < tested)) = [] := by
          apply List.filter_eq_nil_iff.mpr
          intro tested member
          have bounds := mem_descending member
          simp only [decide_eq_true_eq]
          omega
        have allCount :
            committedDepth base (depth + 1) revision = depth + 1 := by
          unfold committedDepth
          omega
        rw [List.filter_cons, if_neg (by simpa using kept), dropsAll, allCount,
          Nat.sub_self]
        rfl

/-- The undo states of the index have the revisions `base + 1` to
`base + depth`. -/
structure Shape (index : GenericIndex T) (base : Int) (depth : Nat) : Prop where
  nonneg : 0 ≤ base
  bounded : base + depth ≤ int64Max
  revision : index.revision = base + depth
  stack : index.stack.map UndoState.revision = descending base depth

namespace Shape

variable {index : GenericIndex T} {base : Int} {depth : Nat}

theorem length (shape : Shape index base depth) :
    index.stack.length = depth := by
  rw [← List.length_map UndoState.revision, shape.stack, descending_length]

theorem stack_eq_nil_iff (shape : Shape index base depth) :
    index.stack = [] ↔ depth = 0 := by
  rw [← List.length_eq_zero_iff, shape.length]

theorem empty (T : IndexType) : Shape (GenericIndex.empty T) 0 0 :=
  ⟨le_refl 0, by decide, rfl, rfl⟩

/-- Row operations keep the shape. -/
theorem recordHead {update : UndoState T → UndoState T}
    (shape : Shape index base depth)
    (keepsRevision : ∀ state, (update state).revision = state.revision)
    (rows : MultiIndex T) :
    Shape { GenericIndex.recordHead update index with indices := rows }
      base depth where
  nonneg := shape.nonneg
  bounded := shape.bounded
  revision := by
    rw [recordHead_revision]
    exact shape.revision
  stack := by
    rw [← shape.stack]
    unfold GenericIndex.recordHead
    split
    · rfl
    · rename_i head older top
      rw [top, List.map_cons, List.map_cons, keepsRevision]

theorem start (shape : Shape index base depth)
    (bounded : index.revision < int64Max) :
    Shape
      { index with
        stack := UndoState.empty T (index.revision + 1) :: index.stack
        revision := index.revision + 1 }
      base (depth + 1) := by
  have sameRevision := shape.revision
  refine ⟨shape.nonneg, ?_, ?_, ?_⟩
  · push_cast
    omega
  · push_cast
    omega
  · rw [List.map_cons, shape.stack, descending]
    congr 1
    change index.revision + 1 = _
    omega

/-- Popping the newest undo state, or merging it into the one below. -/
theorem pop {stack : List (UndoState T)} {rows : MultiIndex T}
    (shape : Shape index base (depth + 1))
    (popped : stack.map UndoState.revision = descending base depth) :
    Shape { stack := stack, revision := index.revision - 1, indices := rows }
      base depth := by
  have sameRevision := shape.revision
  have bound := shape.bounded
  push_cast at sameRevision bound
  refine ⟨shape.nonneg, by omega, ?_, popped⟩
  change index.revision - 1 = base + depth
  omega

/-- An undo state that is committed is older than every kept one. -/
theorem drops_older (shape : Shape index base depth) (revision : Int) :
    index.stack.Pairwise fun newer older =>
      decide (newer.revision ≤ revision) = true →
        decide (older.revision ≤ revision) = true := by
  have decreasing : ∀ depth : Nat,
      (descending base depth).Pairwise fun newer older => older ≤ newer := by
    intro depth
    induction depth with
    | zero => exact List.Pairwise.nil
    | succ depth inductionHypothesis =>
        apply List.Pairwise.cons _ inductionHypothesis
        intro older member
        have bounds := mem_descending member
        omega
  have mapped := decreasing depth
  rw [← shape.stack, List.pairwise_map] at mapped
  apply mapped.imp
  intro newer older decreases drops
  have newerDrops := of_decide_eq_true drops
  exact decide_eq_true (by omega)

theorem commit (shape : Shape index base depth) (revision : Int) :
    Shape
      { index with
        stack := index.stack.rdropWhile fun state =>
          decide (state.revision ≤ revision) }
      (base + committedDepth base depth revision)
      (depth - committedDepth base depth revision) := by
  have bound : committedDepth base depth revision ≤ depth := by
    unfold committedDepth
    omega
  have nonneg := shape.nonneg
  have bounded := shape.bounded
  have sameRevision := shape.revision
  refine ⟨by omega, by push_cast [Nat.cast_sub bound]; omega, ?_, ?_⟩
  · change index.revision = _
    push_cast [Nat.cast_sub bound]
    omega
  · rw [rdropWhile_eq_filter index.stack (shape.drops_older revision),
      ← filter_descending,
      ← shape.stack, List.filter_map]
    congr 1
    apply List.filter_congr
    intro state _
    simp only [Function.comp_apply, ← not_le]
    exact (decide_not).symm

theorem setRevision (empty : index.stack = []) {revision : UInt64}
    (bounded : (revision.toNat : Int) ≤ int64Max) :
    Shape { index with revision := (revision.toNat : Int) }
      (revision.toNat : Int) 0 := by
  refine ⟨by omega, by simpa using bounded, by simp, ?_⟩
  simp [empty, descending]

/-- The range from the base to the revision. -/
theorem range (shape : Shape index base depth) :
    index.undoStackRevisionRange = (base, base + depth) := by
  have stackRevisions := shape.stack
  have lastRevision : index.stack.getLast?.map UndoState.revision =
      (descending base depth).getLast? := by
    rw [← stackRevisions, List.getLast?_map]
  have headRevision : index.stack.head?.map UndoState.revision =
      (descending base depth).head? := by
    rw [← stackRevisions, List.head?_map]
  have oldest : ∀ depth : Nat,
      (descending base (depth + 1)).getLast? = some (base + 1) := by
    intro depth
    induction depth with
    | zero => simp [descending]
    | succ depth inductionHypothesis =>
        rw [descending]
        rw [descending] at inductionHypothesis ⊢
        rw [List.getLast?_cons_cons]
        exact inductionHypothesis
  unfold undoStackRevisionRange
  cases depth with
  | zero =>
      have noStates : index.stack = [] := shape.stack_eq_nil_iff.mpr rfl
      have sameRevision := shape.revision
      simp only [noStates, List.getLast?_nil, List.head?_nil]
      simp only [Nat.cast_zero, add_zero] at sameRevision ⊢
      rw [sameRevision]
  | succ depth =>
      rw [oldest depth] at lastRevision
      rw [descending, List.head?_cons] at headRevision
      obtain ⟨front, isLast, frontRevision⟩ :=
        Option.map_eq_some_iff.mp lastRevision
      obtain ⟨back, isHead, backRevision⟩ :=
        Option.map_eq_some_iff.mp headRevision
      simp only [isLast, isHead, frontRevision, backRevision, Prod.mk.injEq]
      push_cast
      omega

end Shape

end StateDatabase
