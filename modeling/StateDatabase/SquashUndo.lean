import Mathlib
import StateDatabase.SnapshotRefinement

/-!
# Squash and then undo

Squashing the two newest undo states and undoing the result should be the same
as undoing twice.  It is, as long as every squash of the run meets
`SquashSafe`.  An id that was removed and created again in the newest session
breaks it: the merged undo state forgets that the row was there before.
-/

namespace StateDatabase

open Maps Snapshots GenericIndex Programs

variable {T : IndexType} {index : GenericIndex T}
  {history : History (MultiIndex T)}

/-- Both ways remove two undo states and put the older of the two newest
copies back. -/
theorem Represents.squash_undo (ndebug : Bool)
    (represents : Represents index history) (safe : SquashSafe index)
    (deep : 2 ≤ index.stack.length) :
    ∃ final,
      (GenericIndex.squash ndebug >>= fun _ => GenericIndex.undo) index =
        .ok ⟨⟩ final ∧
      (GenericIndex.undo >>= fun _ => GenericIndex.undo) index =
        .ok ⟨⟩ final ∧
      final.indices = history.undo.undo.current := by
  have aligned := represents.aligned
  unfold SquashSafe at safe
  match top : index.stack, saved : history.copies with
  | state :: previous :: older, newest :: next :: copies =>
      rw [top, saved] at aligned
      rw [top] at safe
      obtain ⟨_, _, second, _, _, first, _⟩ := aligned
      obtain ⟨merged, success, _, records⟩ :=
        mergeStates_of_records ndebug first second safe
      refine ⟨⟨older, index.revision - 1 - 1, next.2⟩, ?_, ?_, ?_⟩
      · rw [bind_apply_of_ok _ (squash_apply_cons top success)]
        exact undo_apply_cons rfl (undoRows_of_records records)
      · rw [bind_apply_of_ok _
          (undo_apply_cons top (undoRows_of_records second))]
        exact undo_apply_cons rfl (undoRows_of_records first)
      · simp [History.undo, saved]
  | [], _ => simp [top] at deep
  | [_], _ => simp [top] at deep
  | _ :: _ :: _, [] => rw [top, saved] at aligned; exact aligned.elim
  | _ :: _ :: _, [_] => rw [top, saved] at aligned; exact aligned.2.2.2.elim

/-- No id of the newest session is both new and removed. -/
def FreshTop (index : GenericIndex T) : Prop :=
  match index.stack with
  | [] => True
  | state :: _ => ∀ id ∈ state.newIds.toList, id ∉ state.removedValues

instance (index : GenericIndex T) : Decidable (FreshTop index) := by
  unfold FreshTop
  split
  · infer_instance
  · infer_instance

/-- With ids that are not used twice in a session, every squash is safe. -/
theorem FreshTop.squashSafe (fresh : FreshTop index) : SquashSafe index := by
  unfold SquashSafe
  unfold FreshTop at fresh
  split
  · rename_i state previous older top
    rw [top] at fresh
    intro id isNew value isRemoved
    have isMember : id ∈ state.newIds.toList :=
      (mem_set_toList state.newIds id).mpr (of_decide_eq_true isNew)
    exact False.elim
      (fresh id isMember ((mem_map_iff _ _).mpr ⟨value, isRemoved⟩))
  · trivial

/-- In every run whose squashes are all safe, and in every state it reaches
with two undo states, a safe squash followed by `undo` ends in the same state
as `undo` twice; neither aborts. -/
theorem squash_undo_eq_undo_undo (ndebug : Bool) (calls : List (IndexCall T))
    (permitted : Runs.AllowedFrom (IndexCall.step ndebug)
      (fun index call => call.Permitted T.KeepsKeys SquashSafe index)
      (GenericIndex.empty T) calls)
    (index : GenericIndex T)
    (reached : Runs.run (IndexCall.step ndebug) (GenericIndex.empty T) calls =
      some index)
    (deep : 2 ≤ index.stack.length) (safe : SquashSafe index) :
    ∃ final,
      (GenericIndex.squash ndebug >>= fun _ => GenericIndex.undo) index =
        .ok ⟨⟩ final ∧
      (GenericIndex.undo >>= fun _ => GenericIndex.undo) index =
        .ok ⟨⟩ final ∧
      final.indices = (referenceRun calls).undo.undo.current := by
  have weaker := permitted.mono fun index call allowed =>
    allowed.weaken (fun _ _ keeps => keeps.interchangeable) (fun _ => id)
  obtain ⟨final, finished, represents⟩ := represents_run ndebug weaker
  rw [reached] at finished
  cases finished
  exact represents.squash_undo ndebug safe deep

/-- A stored row is modified in the outer session and removed in the inner
one, which also stores another row. -/
def freshRowCalls : List (IndexCall tableKeyMultiIndex) :=
  [.emplace ⟨1, 7, [10]⟩, .startUndoSession,
    .modify 1 fun row => { row with value := [11] }, .startUndoSession,
    .emplace ⟨2, 7, [12]⟩, .remove 1]

theorem squash_undo_eq_undo_undo_freshRow :
    ∃ index,
      Runs.run (IndexCall.step false) (GenericIndex.empty tableKeyMultiIndex)
        freshRowCalls = some index ∧
      ∃ final,
        (GenericIndex.squash false >>= fun _ => GenericIndex.undo) index =
          .ok ⟨⟩ final ∧
        (GenericIndex.undo >>= fun _ => GenericIndex.undo) index =
          .ok ⟨⟩ final ∧
        final.indices = (referenceRun freshRowCalls).undo.undo.current := by
  have permitted : Runs.AllowedFrom (IndexCall.step false)
      (fun index call => call.Permitted tableKeyMultiIndex.KeepsKeys
        (fun _ => False) index)
      (GenericIndex.empty tableKeyMultiIndex) freshRowCalls := by
    decide +kernel
  have shape :
      (Runs.run (IndexCall.step false) (GenericIndex.empty tableKeyMultiIndex)
        freshRowCalls).any (fun index =>
          decide (2 ≤ index.stack.length ∧ FreshTop index)) = true := by
    decide +kernel
  cases reached : Runs.run (IndexCall.step false)
      (GenericIndex.empty tableKeyMultiIndex) freshRowCalls with
  | none =>
      rw [reached] at shape
      cases shape
  | some index =>
      rw [reached] at shape
      obtain ⟨deep, fresh⟩ := of_decide_eq_true shape
      exact ⟨index, rfl, squash_undo_eq_undo_undo false freshRowCalls
        (permitted.mono fun _ _ allowed =>
          allowed.weaken (fun _ _ => id) (fun _ => False.elim))
        index reached deep fresh.squashSafe⟩

/-- The row of a key is stored, and then removed and stored again in the inner
of two sessions. -/
def recreatedRowCalls : List (IndexCall tableKeyMultiIndex) :=
  [.emplace ⟨1, 7, [10]⟩, .startUndoSession, .startUndoSession, .remove 1,
    .emplace ⟨1, 7, [11]⟩]

/-- The same in both sessions. -/
def recreatedTwiceCalls : List (IndexCall tableKeyMultiIndex) :=
  [.emplace ⟨1, 7, [10]⟩, .startUndoSession, .remove 1,
    .emplace ⟨1, 7, [11]⟩, .startUndoSession, .remove 1,
    .emplace ⟨1, 7, [12]⟩]

/-- After a re-creation in the inner session, squash and undo keep the
re-created row where undoing twice restores the stored one; after a
re-creation in both sessions, squash and undo end in `abort()`. -/
theorem squash_undo_recreatedRow :
    (Runs.AllowedFrom (IndexCall.step false)
      (fun index call =>
        call.Permitted tableKeyMultiIndex.KeepsKeys (fun _ => True) index)
      (GenericIndex.empty tableKeyMultiIndex)
      (recreatedRowCalls ++ [.squash, .undo])) ∧
    (Runs.run (IndexCall.step false) (GenericIndex.empty tableKeyMultiIndex)
        recreatedRowCalls).map (fun index => index.stack.length) = some 2 ∧
    (Runs.run (IndexCall.step false) (GenericIndex.empty tableKeyMultiIndex)
        (recreatedRowCalls ++ [.squash, .undo])).map
      (fun index => index.indices.find 1) = some (some ⟨1, 7, [11]⟩) ∧
    (Runs.run (IndexCall.step false) (GenericIndex.empty tableKeyMultiIndex)
        (recreatedRowCalls ++ [.undo, .undo])).map
      (fun index => index.indices.find 1) = some (some ⟨1, 7, [10]⟩) ∧
    (Runs.run (IndexCall.step false) (GenericIndex.empty tableKeyMultiIndex)
        (recreatedTwiceCalls ++ [.squash, .undo])).isNone ∧
    (Runs.run (IndexCall.step false) (GenericIndex.empty tableKeyMultiIndex)
        (recreatedTwiceCalls ++ [.undo, .undo])).isSome := by
  decide +kernel

end StateDatabase
