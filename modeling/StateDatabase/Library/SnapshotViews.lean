import Mathlib
import StateDatabase.Library.Snapshots

/-!
# Parts and floors of a store with copies

A store that holds several things can be looked at through one of them.  Every
operation on the whole store is the same operation on each part, so a store of
many parts is correct when each part is.

The oldest copy is the floor: nothing that is done on top of it changes it, and
`undoAll` goes back to it.
-/

namespace Snapshots

namespace History

universe u v

variable {σ : Type u} {τ : Type v}

/-! ## Parts -/

/-- The history of a part of the value. -/
def map (view : σ → τ) (history : History σ) : History τ :=
  { current := view history.current
    copies := history.copies.map fun copy => (copy.1, view copy.2)
    revision := history.revision }

section Map

variable (view : σ → τ) (history : History σ)

@[simp]
theorem map_current : (history.map view).current = view history.current := rfl

@[simp]
theorem map_revision : (history.map view).revision = history.revision := rfl

@[simp]
theorem map_copies_fst :
    (history.map view).copies.map Prod.fst = history.copies.map Prod.fst := by
  simp [map]

@[simp]
theorem map_copies_eq_nil_iff :
    (history.map view).copies = [] ↔ history.copies = [] := by
  simp [map]

@[simp]
theorem map_initial (value : σ) :
    (initial value).map view = initial (view value) := by
  simp [map, initial]

@[simp]
theorem map_change (value : σ) :
    (history.change value).map view =
      (history.map view).change (view value) := rfl

@[simp]
theorem map_start : history.start.map view = (history.map view).start := rfl

@[simp]
theorem map_undo : history.undo.map view = (history.map view).undo := by
  cases saved : history.copies with
  | nil => simp [undo, map, saved]
  | cons newest older => simp [undo, map, saved]

@[simp]
theorem map_squash : history.squash.map view = (history.map view).squash := by
  cases saved : history.copies with
  | nil => simp [squash, map, saved]
  | cons newest older => simp [squash, map, saved]

@[simp]
theorem map_commit (committed : Int) :
    (history.commit committed).map view =
      (history.map view).commit committed := by
  simp [commit, map, List.filter_map, Function.comp_def]

@[simp]
theorem map_undoAll : history.undoAll.map view = (history.map view).undoAll := by
  cases last : history.copies.getLast? with
  | none => simp [undoAll, map, last]
  | some oldest => simp [undoAll, map, last]

@[simp]
theorem map_setRevision (revision : Int) :
    (history.setRevision revision).map view =
      (history.map view).setRevision revision := by
  by_cases empty : history.copies = []
  · simp [setRevision, map, empty]
  · simp [setRevision, map, empty]

end Map

/-- A change of one part leaves the history of another part as it is. -/
theorem map_change_of_same {view : σ → τ} {history : History σ} {value : σ}
    (same : view value = view history.current) :
    (history.change value).map view = history.map view := by
  rw [map_change, same]
  rfl

theorem commit_of_copies_nil {committed : Int} {history : History σ}
    (empty : history.copies = []) : history.commit committed = history := by
  rw [commit, empty, List.filter_nil, ← empty]

@[simp]
theorem squash_current (history : History σ) :
    history.squash.current = history.current := by
  cases saved : history.copies with
  | nil => simp [squash, saved]
  | cons newest older => simp [squash, saved]

@[simp]
theorem setRevision_current (revision : Int) (history : History σ) :
    (history.setRevision revision).current = history.current := by
  by_cases empty : history.copies = []
  · simp [setRevision, empty]
  · simp [setRevision, empty]

/-- What was changed after a copy was saved is gone when it is put back. -/
@[simp]
theorem undo_change_start (value : σ) (history : History σ) :
    (history.start.change value).undo = history := by
  simp [undo, start, change]

/-- Changes stay when the copy that was saved before them is forgotten. -/
@[simp]
theorem squash_change_start (value : σ) (history : History σ) :
    (history.start.change value).squash = history.change value := by
  simp [squash, start, change]

/-! ## Floors -/

/-- The oldest copy, with the revision at which it was saved. -/
def floor (history : History σ) : Option (Int × σ) :=
  history.copies.getLast?

section Floor

variable {history : History σ} {base : Int × σ}

theorem floor_start (isFloor : history.floor = some base) :
    history.start.floor = some base := by
  cases saved : history.copies with
  | nil => simp [floor, saved] at isFloor
  | cons newest older =>
      simpa [floor, start, saved] using isFloor

/-- The floor stays when a newer copy is given up. -/
theorem floor_of_tail {copies : List (Int × σ)} {newest : Int × σ}
    (isFloor : (newest :: copies).getLast? = some base)
    (deep : 1 ≤ copies.length) : copies.getLast? = some base := by
  cases copies with
  | nil => simp at deep
  | cons next older => simpa using isFloor

theorem floor_undo (isFloor : history.floor = some base)
    (deep : 2 ≤ history.copies.length) : history.undo.floor = some base := by
  cases saved : history.copies with
  | nil => simp [saved] at deep
  | cons newest older =>
      have olderDeep : 1 ≤ older.length := by
        rw [saved, List.length_cons] at deep
        omega
      have cut := floor_of_tail (by simpa [floor, saved] using isFloor) olderDeep
      simpa [floor, undo, saved] using cut

theorem floor_squash (isFloor : history.floor = some base)
    (deep : 2 ≤ history.copies.length) : history.squash.floor = some base := by
  cases saved : history.copies with
  | nil => simp [saved] at deep
  | cons newest older =>
      have olderDeep : 1 ≤ older.length := by
        rw [saved, List.length_cons] at deep
        omega
      have cut := floor_of_tail (by simpa [floor, saved] using isFloor) olderDeep
      simpa [floor, squash, saved] using cut

/-- A commit below the floor drops nothing above it. -/
theorem floor_commit {committed : Int} (isFloor : history.floor = some base)
    (below : committed < base.1) :
    (history.commit committed).floor = some base := by
  rw [floor, List.getLast?_eq_some_iff] at isFloor
  rcases isFloor with ⟨newer, saved⟩
  simp [floor, commit, saved, List.filter_append, below]

/-- The copy after the committed revision becomes the floor. -/
theorem floor_of_commit {committed : Int} {value : σ} {copies : List (Int × σ)}
    (descending : copies.Pairwise fun newer older => older.1 < newer.1)
    (saved : (committed + 1, value) ∈ copies) :
    (copies.filter fun copy => decide (committed < copy.1)).getLast? =
      some (committed + 1, value) := by
  induction copies with
  | nil => cases saved
  | cons newest older inductionHypothesis =>
      rcases List.pairwise_cons.mp descending with ⟨below, olderDescending⟩
      rcases List.mem_cons.mp saved with isNewest | inOlder
      · have dropped : older.filter
            (fun copy => decide (committed < copy.1)) = [] := by
          apply List.filter_eq_nil_iff.mpr
          intro copy member
          have isBelow := below copy member
          rw [← isNewest] at isBelow
          simp only [decide_eq_true_eq]
          omega
        simp [← isNewest, dropped]
      · have kept := inductionHypothesis olderDescending inOlder
        have isBelow := below _ inOlder
        have keeps : committed < newest.1 := by
          simp only at isBelow
          omega
        rw [List.filter_cons, if_pos (decide_eq_true keeps),
          List.getLast?_cons, kept]
        rfl

theorem floor_setRevision {revision : Int}
    (isFloor : history.floor = some base) :
    (history.setRevision revision).floor = some base := by
  by_cases empty : history.copies = []
  · simp [floor, empty] at isFloor
  · simpa [setRevision, empty] using isFloor

/-- Everything above the floor goes away at once. -/
theorem undoAll_current (isFloor : history.floor = some base) :
    history.undoAll.current = base.2 := by
  have last : history.copies.getLast? = some base := isFloor
  simp [undoAll, last]

theorem undoAll_copies (isFloor : history.floor = some base) :
    history.undoAll.copies = [] := by
  have last : history.copies.getLast? = some base := isFloor
  simp [undoAll, last]

end Floor

/-! ## Properties of all copies -/

/-- The current value and all copies have a property. -/
structure Every (property : σ → Prop) (history : History σ) : Prop where
  current : property history.current
  copies : ∀ copy ∈ history.copies, property copy.2

namespace Every

variable {property : σ → Prop} {history : History σ}

theorem initial {value : σ} (holds : property value) :
    (History.initial value).Every property :=
  ⟨holds, by simp [History.initial]⟩

theorem imp {weaker : σ → Prop} (every : history.Every property)
    (implies : ∀ value, property value → weaker value) :
    history.Every weaker :=
  ⟨implies _ every.current,
    fun copy member => implies _ (every.copies copy member)⟩

theorem change {value : σ} (every : history.Every property)
    (holds : property value) : (history.change value).Every property :=
  ⟨holds, every.copies⟩

theorem start (every : history.Every property) :
    history.start.Every property where
  current := every.current
  copies := by simpa [History.start, every.current] using every.copies

theorem undo (every : history.Every property) :
    history.undo.Every property := by
  have copies := every.copies
  cases saved : history.copies with
  | nil => simpa [History.undo, saved] using every
  | cons newest older =>
      simp only [saved, List.mem_cons, forall_eq_or_imp] at copies
      constructor
      · simpa [History.undo, saved] using copies.1
      · simpa [History.undo, saved] using copies.2

theorem squash (every : history.Every property) :
    history.squash.Every property := by
  have copies := every.copies
  cases saved : history.copies with
  | nil => simpa [History.squash, saved] using every
  | cons newest older =>
      simp only [saved, List.mem_cons, forall_eq_or_imp] at copies
      constructor
      · simpa [History.squash, saved] using every.current
      · simpa [History.squash, saved] using copies.2

theorem commit (committed : Int) (every : history.Every property) :
    (history.commit committed).Every property where
  current := every.current
  copies := fun copy member =>
    every.copies copy (List.mem_of_mem_filter member)

theorem undoAll (every : history.Every property) :
    history.undoAll.Every property := by
  cases last : history.copies.getLast? with
  | none => simpa [History.undoAll, last] using every
  | some oldest =>
      have holds := every.copies oldest (List.mem_of_getLast? last)
      constructor
      · simpa [History.undoAll, last] using holds
      · simp [History.undoAll, last]

theorem setRevision (revision : Int) (every : history.Every property) :
    (history.setRevision revision).Every property := by
  by_cases empty : history.copies = []
  · exact ⟨by simpa [History.setRevision, empty] using every.current,
      by simp [History.setRevision, empty]⟩
  · simpa [History.setRevision, empty] using every

end Every

/-! ## Copies of one value -/

/-- The value has not changed since the oldest copy. -/
abbrev Constant (history : History σ) (value : σ) : Prop :=
  history.Every fun other => other = value

/-- The revisions say everything about a history of one value. -/
theorem Constant.eq_of_revisions {history other : History σ} {value : σ}
    (constant : history.Constant value) (otherConstant : other.Constant value)
    (revision : history.revision = other.revision)
    (revisions : history.copies.map Prod.fst = other.copies.map Prod.fst) :
    history = other := by
  have copiesOf : ∀ {copies : List (Int × σ)}, (∀ copy ∈ copies, copy.2 = value) →
      copies = (copies.map Prod.fst).map fun saved => (saved, value) := by
    intro copies same
    induction copies with
    | nil => rfl
    | cons copy rest inductionHypothesis =>
        simp only [List.mem_cons, forall_eq_or_imp] at same
        simp only [List.map_cons, List.cons.injEq]
        exact ⟨Prod.ext rfl same.1, inductionHypothesis same.2⟩
  have sameCopies : history.copies = other.copies := by
    rw [copiesOf constant.copies, copiesOf otherConstant.copies, revisions]
  have sameCurrent : history.current = other.current :=
    constant.current.trans otherConstant.current.symm
  cases history
  cases other
  simp_all

end History

end Snapshots
