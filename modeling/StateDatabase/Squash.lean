import Mathlib
import StateDatabase.UndoRecord

/-!
# Merging two undo states

`squash` replays the entries of the newer undo state on the older one, in
three loops: first the modified rows, then the created ones, then the removed
ones.  For an id with one kind of entry this is what recording in one session
would have done.  An id that the newer session removed and created again has
two entries, and they are replayed in the wrong order: the creation first and
the removal after it.  `Entry.Mergeable` says when this still gives the right
record.
-/

namespace StateDatabase

open Maps

variable {T : IndexType}

namespace Entry

/-- The three loops of `squash`, seen at one id. -/
def merge (previous state : Entry T) : Entry T :=
  let withOld := state.old.elim previous fun value => previous.modify value
  let withNew := if state.isNew then withOld.create else withOld
  state.removed.elim withNew fun value => withNew.remove value

/-- What the assertions of `squash` ask of an id that is not new. -/
def Unremoved (entry : Entry T) : Prop :=
  entry.isNew = false → entry.removed = none

/-- An id that the newer session removed and created again was modified in the
older session and its row still excludes the same other rows, or was not
touched in the older session and its row has the value it was removed with. -/
def Mergeable (previous state : Entry T) (row : Option T.Value) : Prop :=
  state.isNew = true → ∀ value, state.removed = some value →
    (∃ old current, previous.old = some old ∧ row = some current ∧
      T.Interchangeable old current) ∨
    (previous = ⟨false, none, none⟩ ∧ row = some value)

end Entry

/-- The merged entry records both sessions. -/
theorem Change.merge {before middle after : Option T.Value}
    {previous state : Entry T}
    (first : Change T before middle previous)
    (second : Change T middle after state)
    (mergeable : previous.Mergeable state after) :
    Change T before after (previous.merge state) := by
  cases second with
  | untouched => exact first
  | created value => exact first.create value
  | updated _ _ same => exact first.modify same
  | removed => exact first.remove
  | replaced value current =>
      rcases mergeable rfl value rfl with
        ⟨old, _, isOld, isRow, same⟩ | ⟨untouched, isRow⟩
      · cases isRow
        cases first with
        | updated =>
            cases isOld
            exact .updated old current same
        | untouched => cases isOld
        | created => cases isOld
        | replaced => cases isOld
      · cases isRow
        subst untouched
        cases first with
        | untouched => exact .untouched (some value)

namespace GenericIndex

variable {previous state : UndoState T} {before middle after : MultiIndex T}

/-- A loop over the entries of a map whose step changes the entry of its own
id only. -/
theorem foldlM_entries
    {step : UndoState T → T.Id × T.Value → Except Fault (UndoState T)}
    {update : T.Value → Entry T → Entry T}
    (acts : ∀ (previous : UndoState T) (id : T.Id) (value : T.Value),
      T.id value = id → (previous.entry id).Unremoved →
        ∃ next, step previous (id, value) = .ok next ∧
          next.revision = previous.revision ∧
          ∀ tested, next.entry tested =
            if id = tested then update value (previous.entry tested)
            else previous.entry tested) :
    ∀ (items : List (T.Id × T.Value)) (previous : UndoState T),
      (items.map Prod.fst).Nodup →
        (∀ item ∈ items, T.id item.2 = item.1 ∧
          (previous.entry item.1).Unremoved) →
          ∃ result, items.foldlM step previous = .ok result ∧
            result.revision = previous.revision ∧
            (∀ item ∈ items, result.entry item.1 =
              update item.2 (previous.entry item.1)) ∧
            ∀ tested, tested ∉ items.map Prod.fst →
              result.entry tested = previous.entry tested
  | [], previous, _, _ =>
      ⟨previous, rfl, rfl, by simp, fun _ _ => rfl⟩
  | (id, value) :: rest, previous, nodup, holds => by
      simp only [List.map_cons, List.nodup_cons] at nodup
      obtain ⟨notInRest, restNodup⟩ := nodup
      obtain ⟨keyed, unremoved⟩ := holds (id, value) List.mem_cons_self
      obtain ⟨next, stepped, sameRevision, entries⟩ :=
        acts previous id value keyed unremoved
      have different : ∀ item ∈ rest, id ≠ item.1 := fun item member equal =>
        notInRest (equal ▸ List.mem_map_of_mem (f := Prod.fst) member)
      have restHolds : ∀ item ∈ rest, T.id item.2 = item.1 ∧
          (next.entry item.1).Unremoved := by
        intro item member
        rw [entries item.1, if_neg (different item member)]
        exact holds item (List.mem_cons_of_mem (id, value) member)
      obtain ⟨result, finished, resultRevision, changed, unchanged⟩ :=
        foldlM_entries acts rest next restNodup restHolds
      refine ⟨result, ?_, resultRevision.trans sameRevision, ?_, ?_⟩
      · rw [List.foldlM_cons, stepped]
        exact finished
      · intro item member
        rcases List.mem_cons.mp member with isHead | inRest
        · rw [isHead, unchanged id notInRest, entries id, if_pos rfl]
        · rw [changed item inRest, entries item.1,
            if_neg (different item inRest)]
      · intro tested notKey
        simp only [List.map_cons, List.mem_cons, not_or] at notKey
        rw [unchanged tested notKey.2, entries tested,
          if_neg (Ne.symm notKey.1)]

/-- The same loop over all entries of a map. -/
theorem foldlM_map_entries
    {step : UndoState T → T.Id × T.Value → Except Fault (UndoState T)}
    {update : T.Value → Entry T → Entry T}
    (acts : ∀ (previous : UndoState T) (id : T.Id) (value : T.Value),
      T.id value = id → (previous.entry id).Unremoved →
        ∃ next, step previous (id, value) = .ok next ∧
          next.revision = previous.revision ∧
          ∀ tested, next.entry tested =
            if id = tested then update value (previous.entry tested)
            else previous.entry tested)
    (map : IdMap T T.Value)
    (holds : ∀ (id : T.Id) (value : T.Value), map[id]? = some value →
      T.id value = id ∧ (previous.entry id).Unremoved) :
    ∃ result, map.toList.foldlM step previous = .ok result ∧
      result.revision = previous.revision ∧
      ∀ tested : T.Id, result.entry tested =
        map[tested]?.elim (previous.entry tested)
          fun value => update value (previous.entry tested) := by
  obtain ⟨result, finished, sameRevision, changed, unchanged⟩ :=
    foldlM_entries acts map.toList previous (nodup_map_keys map)
      (fun item member => holds item.1 item.2
        ((mem_map_toList map item.1 item.2).mp member))
  refine ⟨result, finished, sameRevision, fun tested => ?_⟩
  cases found : map[tested]? with
  | none =>
      exact unchanged tested fun isKey =>
        (map_key_mem_iff map tested).mp isKey found
  | some value =>
      exact changed (tested, value) ((mem_map_toList map tested value).mpr found)

theorem assertThat_true {σ : Type} (ndebug : Bool) (message : String)
    (value : σ) :
    assertThat ndebug true message value = .ok value := by
  simp [assertThat]

/-- A modified row is merged as if it were modified in the older session. -/
theorem squashOld_acts (ndebug : Bool) (previous : UndoState T) (id : T.Id)
    (value : T.Value) (keyed : T.id value = id)
    (notRemoved : (previous.entry id).Unremoved) :
    ∃ next, squashOld ndebug previous (id, value) = .ok next ∧
      next.revision = previous.revision ∧
      ∀ tested, next.entry tested =
        if id = tested then (previous.entry tested).modify value
        else previous.entry tested := by
  refine ⟨onModifyHead value previous, ?_, ?_, fun tested => ?_⟩
  · subst keyed
    unfold squashOld onModifyHead
    by_cases isNew : T.id value ∈ previous.newIds
    · simp only [if_pos isNew]
    · have absent : T.id value ∉ previous.removedValues :=
        (not_mem_map_iff _ _).mpr (notRemoved (decide_eq_false isNew))
      simp only [if_neg isNew, decide_eq_true absent, assertThat_true]
      split
      · rfl
      · rfl
  · unfold onModifyHead
    split
    · rfl
    · split
      · rfl
      · rfl
  · rw [entry_onModifyHead, keyed]

/-- A removed row is merged as if it were removed in the older session. -/
theorem squashRemoved_acts (ndebug : Bool) (previous : UndoState T)
    (id : T.Id) (value : T.Value) (keyed : T.id value = id)
    (notRemoved : (previous.entry id).Unremoved) :
    ∃ next, squashRemoved ndebug previous (id, value) = .ok next ∧
      next.revision = previous.revision ∧
      ∀ tested, next.entry tested =
        if id = tested then (previous.entry tested).remove value
        else previous.entry tested := by
  refine ⟨onRemoveHead value previous, ?_, ?_, fun tested => ?_⟩
  · subst keyed
    unfold squashRemoved onRemoveHead
    by_cases isNew : T.id value ∈ previous.newIds
    · simp only [if_pos isNew]
    · have absent : T.id value ∉ previous.removedValues :=
        (not_mem_map_iff _ _).mpr (notRemoved (decide_eq_false isNew))
      simp only [if_neg isNew, decide_eq_true absent, assertThat_true,
        if_neg absent]
      split
      · rfl
      · rfl
  · unfold onRemoveHead
    split
    · rfl
    · split
      · rfl
      · split
        · rfl
        · rfl
  · rw [entry_onRemoveHead, keyed]

/-- The loop over `new_ids`. -/
theorem foldl_squashNew :
    ∀ (ids : List T.Id) (previous : UndoState T),
      (ids.foldl squashNew previous).revision = previous.revision ∧
        ∀ tested : T.Id, (ids.foldl squashNew previous).entry tested =
          if tested ∈ ids then (previous.entry tested).create
          else previous.entry tested
  | [], _ => ⟨rfl, fun _ => by simp⟩
  | id :: rest, previous => by
      obtain ⟨sameRevision, entries⟩ :=
        foldl_squashNew rest (squashNew previous id)
      refine ⟨sameRevision, fun tested => ?_⟩
      rw [List.foldl_cons, entries tested]
      have stepped : (squashNew previous id).entry tested =
          if id = tested then (previous.entry tested).create
          else previous.entry tested := by
        by_cases same : id = tested
        · simp [UndoState.entry, squashNew, Entry.create, same]
        · simp [UndoState.entry, squashNew, same]
      rw [stepped]
      by_cases same : id = tested
      · simp [same, Entry.create]
      · simp [same, Ne.symm same]

/-- What the loops of `squash` need: a modified or removed id of the newer
undo state is not on record as removed in the older one, unless it is new. -/
theorem mergeStates_entries (ndebug : Bool)
    (oldUnremoved : ∀ (id : T.Id) (value : T.Value),
      state.oldValues[id]? = some value →
        T.id value = id ∧ (previous.entry id).Unremoved)
    (removedUnremoved : ∀ (id : T.Id) (value : T.Value),
      state.removedValues[id]? = some value →
        T.id value = id ∧ state.oldValues[id]? = none ∧
          (previous.entry id).Unremoved) :
    ∃ merged, mergeStates ndebug previous state = .ok merged ∧
      merged.revision = previous.revision ∧
      ∀ id : T.Id, merged.entry id =
        (previous.entry id).merge (state.entry id) := by
  obtain ⟨withOld, oldMerged, oldRevision, oldEntries⟩ :=
    foldlM_map_entries
      (fun previous id value => squashOld_acts ndebug previous id value)
      state.oldValues oldUnremoved
  obtain ⟨newRevision, newEntries⟩ :=
    foldl_squashNew state.newIds.toList withOld
  obtain ⟨merged, removedMerged, removedRevision, removedEntries⟩ :=
    foldlM_map_entries
      (fun previous id value => squashRemoved_acts ndebug previous id value)
      state.removedValues
      (by
        intro id value recorded
        obtain ⟨keyed, noOld, unremoved⟩ := removedUnremoved id value recorded
        refine ⟨keyed, ?_⟩
        rw [newEntries id, oldEntries id, noOld]
        split
        · intro notNew
          cases notNew
        · exact unremoved)
  refine ⟨merged, ?_, ?_, fun id => ?_⟩
  · unfold mergeStates
    rw [oldMerged]
    exact removedMerged
  · rw [removedRevision, newRevision, oldRevision]
  · rw [removedEntries id, newEntries id, oldEntries id]
    simp only [mem_set_toList]
    simp [Entry.merge, UndoState.entry]

/-- Merging two recording undo states gives one that records both sessions,
and no assertion of `squash` fails. -/
theorem mergeStates_of_records (ndebug : Bool)
    (first : Records previous before middle)
    (second : Records state middle after)
    (mergeable : ∀ id : T.Id,
      (previous.entry id).Mergeable (state.entry id) after.rows[id]?) :
    ∃ merged, mergeStates ndebug previous state = .ok merged ∧
      merged.revision = previous.revision ∧ Records merged before after := by
  obtain ⟨merged, isMerged, sameRevision, entries⟩ :=
    mergeStates_entries ndebug
      (by
        intro id value recorded
        have isRow := ((second id).of_old recorded).1
        have change := first id
        rw [isRow] at change
        exact ⟨middle.keyed isRow, change.removed_eq_none⟩)
      (by
        intro id value recorded
        obtain ⟨isRow, noOld, _⟩ := (second id).of_removed recorded
        have change := first id
        rw [isRow] at change
        exact ⟨middle.keyed isRow, noOld, change.removed_eq_none⟩)
  refine ⟨merged, isMerged, sameRevision, fun id => ?_⟩
  rw [entries id]
  exact (first id).merge (second id) (mergeable id)

end GenericIndex

end StateDatabase
