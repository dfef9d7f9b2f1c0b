import Mathlib

/-!
# A store with a stack of full copies

The simplest possible undo: `start` saves a copy of everything, `undo` puts
the newest copy back, `squash` forgets the newest copy, `commit` forgets every
copy up to a revision, and `undoAll` goes back to the oldest copy.  A store
that keeps deltas instead of copies is correct when it cannot be told apart
from this one.
-/

namespace Snapshots

universe u

/-- A current value and the saved copies, newest first, each with the revision
at which it was saved. -/
structure History (σ : Type u) where
  current : σ
  copies : List (Int × σ)
  revision : Int

namespace History

variable {σ : Type u}

/-- Nothing is saved and the revision is zero. -/
def initial (value : σ) : History σ :=
  { current := value, copies := [], revision := 0 }

/-- Replace the current value; no copy changes. -/
def change (value : σ) (history : History σ) : History σ :=
  { history with current := value }

def start (history : History σ) : History σ :=
  { history with
    copies := (history.revision + 1, history.current) :: history.copies
    revision := history.revision + 1 }

/-- Put the newest copy back; without a copy nothing happens. -/
def undo (history : History σ) : History σ :=
  match history.copies with
  | [] => history
  | (_, copy) :: older =>
      { current := copy, copies := older, revision := history.revision - 1 }

/-- Forget the newest copy and keep the current value. -/
def squash (history : History σ) : History σ :=
  match history.copies with
  | [] => history
  | _ :: older =>
      { history with copies := older, revision := history.revision - 1 }

/-- Forget the copies saved at or before `revision`. -/
def commit (revision : Int) (history : History σ) : History σ :=
  { history with
    copies := history.copies.filter fun copy => decide (revision < copy.1) }

/-- Go back to the oldest copy. -/
def undoAll (history : History σ) : History σ :=
  match history.copies.getLast? with
  | none => history
  | some (_, oldest) =>
      { current := oldest
        copies := []
        revision := history.revision - history.copies.length }

/-- A revision can be set only while nothing is saved. -/
def setRevision (revision : Int) (history : History σ) : History σ :=
  if history.copies = [] then { history with revision := revision } else history

/-- Undoing once and then going back to the oldest copy is going back to the
oldest copy. -/
theorem undoAll_undo (history : History σ) :
    history.undo.undoAll = history.undoAll := by
  obtain ⟨current, copies, revision⟩ := history
  cases copies with
  | nil =>
      rfl
  | cons newest older =>
      cases older with
      | nil =>
          simp [undo, undoAll]
      | cons next rest =>
          have oldest :
              (next :: rest).getLast? =
                some ((next :: rest).getLast (List.cons_ne_nil next rest)) :=
            List.getLast?_eq_getLast_of_ne_nil (List.cons_ne_nil next rest)
          simp only [undo, undoAll, List.getLast?_cons_cons, oldest,
            List.length_cons]
          congr 1
          push_cast
          ring

theorem undoAll_of_copies_nil {history : History σ}
    (empty : history.copies = []) :
    history.undoAll = history := by
  simp [undoAll, empty]

end History

/-- Dropping from the end while a condition holds is dropping every element on
which it holds, when it holds of everything after such an element. -/
theorem rdropWhile_eq_filter {α : Type u} {condition : α → Bool}
    (items : List α) :
    items.Pairwise (fun earlier later =>
      condition earlier = true → condition later = true) →
        items.rdropWhile condition = items.filter fun item => !condition item := by
  induction items using List.reverseRecOn with
  | nil =>
      intro _
      rfl
  | append_singleton items last inductionHypothesis =>
      intro pairwise
      obtain ⟨itemsPairwise, _, crossings⟩ := List.pairwise_append.mp pairwise
      rw [List.rdropWhile_concat, List.filter_append]
      by_cases drops : condition last = true
      · simp [drops, inductionHypothesis itemsPairwise]
      · have keepsAll : items.filter (fun item => !condition item) = items := by
          apply List.filter_eq_self.mpr
          intro item member
          by_contra dropped
          exact drops (crossings item member last List.mem_cons_self
            (by simpa using dropped))
        simp [drops, keepsAll]

end Snapshots
