import Mathlib
import StateDatabase.GenericIndex

/-!
# What an undo state says

`Entry` is what the three sets of an undo state hold for one id.  Creating,
modifying and removing a row changes the entry of its id and no other one.

`Change` lists what a session can have done to one id, with the row before
and after it and the entry that the undo state then holds.  Ids are chosen by
the caller, so a row can be removed and created again in one session: this is
the case `replaced`, in which the id is both new and removed.

`Records state before after` says that every id is in one of these cases.  The
row operations keep it for the undo state on top of the stack, and `undoRows`
of a recording undo state gives back `before`.
-/

namespace StateDatabase

open Maps

variable {T : IndexType}

/-- Whether an id is in `new_ids`, and its entries in `old_values` and
`removed_values`. -/
@[ext]
structure Entry (T : IndexType) where
  isNew : Bool
  old : Option T.Value
  removed : Option T.Value

/-- The entry of an id in an undo state. -/
def UndoState.entry (state : UndoState T) (id : T.Id) : Entry T :=
  { isNew := decide (id ∈ state.newIds)
    old := state.oldValues[id]?
    removed := state.removedValues[id]? }

namespace Entry

def create (entry : Entry T) : Entry T :=
  { entry with isNew := true }

def modify (value : T.Value) (entry : Entry T) : Entry T :=
  if entry.isNew then entry
  else if entry.old.isSome then entry
  else { entry with old := some value }

def remove (value : T.Value) (entry : Entry T) : Entry T :=
  if entry.isNew then { entry with isNew := false }
  else
    match entry.old with
    | some old => { entry with old := none, removed := entry.removed.or (some old) }
    | none => { entry with removed := entry.removed.or (some value) }

end Entry

/-- The row before, the row after, and the entry. -/
inductive Change (T : IndexType) :
    Option T.Value → Option T.Value → Entry T → Prop
  | untouched (row : Option T.Value) :
      Change T row row ⟨false, none, none⟩
  | created (value : T.Value) :
      Change T none (some value) ⟨true, none, none⟩
  | updated (old value : T.Value) :
      T.Interchangeable old value →
        Change T (some old) (some value) ⟨false, some old, none⟩
  | removed (old : T.Value) :
      Change T (some old) none ⟨false, none, some old⟩
  | replaced (old value : T.Value) :
      Change T (some old) (some value) ⟨true, none, some old⟩

namespace Change

variable {before after : Option T.Value} {entry : Entry T}

/-- A missing row can be created, also after the session removed it. -/
theorem create (change : Change T before none entry) (value : T.Value) :
    Change T before (some value) entry.create := by
  cases change with
  | untouched => exact .created value
  | removed previous => exact .replaced previous value

theorem modify {value new : T.Value}
    (change : Change T before (some value) entry)
    (same : T.Interchangeable value new) :
    Change T before (some new) (entry.modify value) := by
  cases change with
  | untouched => exact .updated value new same
  | created => exact .created new
  | updated previous _ earlier =>
      exact .updated previous new (earlier.trans same)
  | replaced previous => exact .replaced previous new

/-- The value from before the session is the one that is kept. -/
theorem remove {value : T.Value}
    (change : Change T before (some value) entry) :
    Change T before none (entry.remove value) := by
  cases change with
  | untouched => exact .removed value
  | created => exact .untouched none
  | updated previous => exact .removed previous
  | replaced previous => exact .removed previous

/-- A row that is there and neither new nor modified is not on record as
removed. -/
theorem removed_eq_none {value : T.Value}
    (change : Change T before (some value) entry)
    (notNew : entry.isNew = false) :
    entry.removed = none := by
  cases change with
  | untouched => rfl
  | created => cases notNew
  | updated => rfl
  | replaced => cases notNew

/-- A created row is there. -/
theorem present_of_new (change : Change T before after entry)
    (isNew : entry.isNew = true) :
    after ≠ none := by
  cases change with
  | untouched => cases isNew
  | created => simp
  | updated => cases isNew
  | removed => cases isNew
  | replaced => simp

/-- A row that the session did not create was there before it. -/
theorem original_of_not_new {row : T.Value}
    (change : Change T before (some row) entry)
    (notNew : entry.isNew = false) :
    ∃ original, before = some original ∧ T.Interchangeable original row := by
  cases change with
  | untouched => exact ⟨row, rfl, IndexType.Interchangeable.refl row⟩
  | created => cases notNew
  | updated original _ same => exact ⟨original, rfl, same⟩
  | replaced => cases notNew

theorem of_old {value : T.Value} (change : Change T before after entry)
    (recorded : entry.old = some value) :
    before = some value ∧ entry.isNew = false ∧ after ≠ none := by
  cases change with
  | updated => exact ⟨recorded, rfl, by simp⟩
  | untouched => cases recorded
  | created => cases recorded
  | removed => cases recorded
  | replaced => cases recorded

theorem of_removed {value : T.Value} (change : Change T before after entry)
    (recorded : entry.removed = some value) :
    before = some value ∧ entry.old = none ∧
      (entry.isNew = false → after = none) := by
  cases change with
  | removed => exact ⟨recorded, rfl, fun _ => rfl⟩
  | replaced => exact ⟨recorded, rfl, fun notNew => by cases notNew⟩
  | untouched => cases recorded
  | created => cases recorded
  | updated => cases recorded

/-- The row that the loops of `undo` leave under an id: new rows are erased
first, then old values and removed values are put back. -/
theorem restored (change : Change T before after entry) :
    (if entry.removed ≠ none then before
      else if entry.old ≠ none then before
      else if entry.isNew then none else after) = before := by
  cases change with
  | untouched => rfl
  | created => rfl
  | updated => rfl
  | removed => rfl
  | replaced => rfl

end Change

/-- The undo state records how the rows went from `before` to `after`. -/
def Records (state : UndoState T) (before after : MultiIndex T) : Prop :=
  ∀ id : T.Id, Change T before.rows[id]? after.rows[id]? (state.entry id)

theorem entry_empty (revision : Int) (id : T.Id) :
    (UndoState.empty T revision).entry id = ⟨false, none, none⟩ := by
  simp [UndoState.entry, UndoState.empty]

theorem records_empty (revision : Int) (rows : MultiIndex T) :
    Records (UndoState.empty T revision) rows rows := by
  intro id
  rw [entry_empty]
  exact .untouched rows.rows[id]?

/-! ## Row operations keep the record -/

namespace GenericIndex

variable {state : UndoState T} {before after : MultiIndex T}

theorem entry_onCreateHead (value : T.Value) (state : UndoState T)
    (id : T.Id) :
    (onCreateHead value state).entry id =
      if T.id value = id then (state.entry id).create else state.entry id := by
  by_cases same : T.id value = id
  · simp [UndoState.entry, onCreateHead, Entry.create, same]
  · simp [UndoState.entry, onCreateHead, same]

theorem entry_onModifyHead (value : T.Value) (state : UndoState T)
    (id : T.Id) :
    (onModifyHead value state).entry id =
      if T.id value = id then (state.entry id).modify value
      else state.entry id := by
  unfold onModifyHead
  by_cases same : T.id value = id
  · subst same
    rw [if_pos rfl]
    by_cases isNew : T.id value ∈ state.newIds
    · simp [UndoState.entry, Entry.modify, isNew]
    · rw [if_neg isNew]
      by_cases hasOld : T.id value ∈ state.oldValues
      · rw [if_pos hasOld]
        simp [UndoState.entry, Entry.modify, isNew, hasOld]
      · have noOld := (not_mem_map_iff _ _).mp hasOld
        simp only [UndoState.entry, Entry.modify, isNew, hasOld, noOld,
          decide_false, Bool.false_eq_true, if_false, Option.isSome_none,
          map_insertIfNew_self value noOld]
  · rw [if_neg same]
    split
    · rfl
    · split
      · rfl
      · simp [UndoState.entry, map_insertIfNew, same]

theorem entry_onRemoveHead (value : T.Value) (state : UndoState T)
    (id : T.Id) :
    (onRemoveHead value state).entry id =
      if T.id value = id then (state.entry id).remove value
      else state.entry id := by
  unfold onRemoveHead
  by_cases same : T.id value = id
  · subst same
    rw [if_pos rfl]
    by_cases isNew : T.id value ∈ state.newIds
    · simp [UndoState.entry, Entry.remove, isNew]
    · rw [if_neg isNew]
      cases recorded : state.oldValues[T.id value]? with
      | some previous =>
          simp only [UndoState.entry, Entry.remove, isNew, recorded,
            decide_false, Bool.false_eq_true, if_false, map_erase_self,
            map_insertIfNew_or]
      | none =>
          simp only [UndoState.entry, Entry.remove, isNew, recorded,
            decide_false, Bool.false_eq_true, if_false]
          split
          · rename_i hasRemoved
            obtain ⟨kept, isKept⟩ := (mem_map_iff _ _).mp hasRemoved
            simp only [recorded, isNew, decide_false, isKept, Option.some_or]
          · simp only [recorded, isNew, decide_false, map_insertIfNew_or]
  · rw [if_neg same]
    split
    · simp [UndoState.entry, same]
    · split
      · simp [UndoState.entry, map_insertIfNew, map_erase, same]
      · split
        · rfl
        · simp [UndoState.entry, map_insertIfNew, same]

theorem records_onCreateHead {value : T.Value} {stored : MultiIndex T}
    (records : Records state before after)
    (success : after.emplace value = some stored) :
    Records (onCreateHead value state) before stored := by
  obtain ⟨absent, rows⟩ := MultiIndex.emplace_some success
  intro id
  have change := records id
  rw [rows id, entry_onCreateHead]
  by_cases same : T.id value = id
  · rw [if_pos same, if_pos same]
    rw [← same, absent, same] at change
    exact change.create value
  · rw [if_neg same, if_neg same]
    exact change

theorem records_onModifyHead {value new : T.Value} {changed : MultiIndex T}
    (records : Records state before after)
    (found : after.rows[T.id value]? = some value)
    (same : T.Interchangeable value new)
    (rows : ∀ id : T.Id, changed.rows[id]? =
      if T.id value = id then some new else after.rows[id]?) :
    Records (onModifyHead value state) before changed := by
  intro id
  have change := records id
  rw [rows id, entry_onModifyHead]
  by_cases isRow : T.id value = id
  · rw [if_pos isRow, if_pos isRow]
    rw [← isRow, found, isRow] at change
    exact change.modify same
  · rw [if_neg isRow, if_neg isRow]
    exact change

theorem records_onRemoveHead {value : T.Value} {changed : MultiIndex T}
    (records : Records state before after)
    (found : after.rows[T.id value]? = some value)
    (rows : ∀ id : T.Id, changed.rows[id]? =
      if T.id value = id then none else after.rows[id]?) :
    Records (onRemoveHead value state) before changed := by
  intro id
  have change := records id
  rw [rows id, entry_onRemoveHead]
  by_cases isRow : T.id value = id
  · rw [if_pos isRow, if_pos isRow]
    rw [← isRow, found, isRow] at change
    exact change.remove
  · rw [if_neg isRow, if_neg isRow]
    exact change

/-! ## Undoing a recorded session -/

/-- Every row of the container is, up to interchangeable values, a row of the
target. -/
def Below (container target : MultiIndex T) : Prop :=
  ∀ (id : T.Id) (row : T.Value), container.rows[id]? = some row →
    ∃ original, target.rows[id]? = some original ∧
      T.Interchangeable original row

variable {container target : MultiIndex T}

/-- A row of the target fits into every container below it that has no row of
its id. -/
theorem Below.admits {id : T.Id} {value : T.Value}
    (below : Below container target)
    (wanted : target.rows[id]? = some value)
    (absent : container.rows[id]? = none) :
    container.Admits value := by
  have sameId : T.id value = id := target.keyed wanted
  refine (MultiIndex.admits_iff container value).mpr ⟨by rw [sameId, absent], ?_⟩
  intro other row found clash
  obtain ⟨original, isRow, same⟩ := below other row found
  have originalClash : T.Clash value original :=
    ((same.2 value).mp clash.symm).symm
  have sameRow : id = other := target.unique wanted isRow originalClash
  rw [← sameRow, absent] at found
  cases found

theorem Below.erase (id : T.Id) (below : Below container target) :
    Below (container.erase id) target := by
  intro tested row found
  rw [MultiIndex.erase_row] at found
  split at found
  · cases found
  · exact below tested row found

/-- Storing a row of the target keeps the container below the target. -/
theorem Below.of_rows {stored : MultiIndex T} {id : T.Id} {value : T.Value}
    (below : Below container target)
    (wanted : target.rows[id]? = some value)
    (rows : ∀ tested : T.Id, stored.rows[tested]? =
      if id = tested then some value else container.rows[tested]?) :
    Below stored target := by
  intro tested row found
  rw [rows tested] at found
  split at found
  · rename_i same
    cases found
    exact ⟨value, same ▸ wanted, IndexType.Interchangeable.refl value⟩
  · exact below tested row found

/-- The loop over `new_ids` erases exactly these rows. -/
theorem foldlM_eraseNew :
    ∀ (ids : List T.Id) (container : MultiIndex T),
      ids.Nodup → (∀ id ∈ ids, container.rows[id]? ≠ none) →
        ∃ result, ids.foldlM eraseNew container = .ok result ∧
          ∀ tested : T.Id, result.rows[tested]? =
            if tested ∈ ids then none else container.rows[tested]?
  | [], container, _, _ =>
      ⟨container, rfl, fun tested => by simp⟩
  | id :: rest, container, nodup, present => by
      obtain ⟨notInRest, restNodup⟩ := List.nodup_cons.mp nodup
      obtain ⟨row, found⟩ :=
        Option.ne_none_iff_exists'.mp (present id List.mem_cons_self)
      have stillPresent :
          ∀ other ∈ rest, (container.erase id).rows[other]? ≠ none := by
        intro other member
        have different : id ≠ other := fun equal => notInRest (equal ▸ member)
        rw [MultiIndex.erase_row, if_neg different]
        exact present other (List.mem_cons_of_mem id member)
      obtain ⟨result, finished, rows⟩ :=
        foldlM_eraseNew rest (container.erase id) restNodup stillPresent
      have stepped : eraseNew container id = .ok (container.erase id) := by
        simp [eraseNew, MultiIndex.find, found]
      refine ⟨result, ?_, fun tested => ?_⟩
      · rw [List.foldlM_cons, stepped]
        exact finished
      · rw [rows tested, MultiIndex.erase_row]
        by_cases same : id = tested
        · simp [same]
        · simp [same, Ne.symm same]

theorem restoreOld_of_below {id : T.Id} {value : T.Value}
    (below : Below container target)
    (wanted : target.rows[id]? = some value)
    (present : container.rows[id]? ≠ none) :
    ∃ restored, restoreOld container (id, value) = .ok restored ∧
      ∀ tested : T.Id, restored.rows[tested]? =
        if id = tested then some value else container.rows[tested]? := by
  have sameId : T.id value = id := target.keyed wanted
  obtain ⟨row, found⟩ := Option.ne_none_iff_exists'.mp present
  have admits : (container.erase id).Admits value :=
    (below.erase id).admits wanted (by rw [MultiIndex.erase_row, if_pos rfl])
  refine ⟨(container.erase id).insert value admits, ?_, fun tested => ?_⟩
  · simp [restoreOld, MultiIndex.find, MultiIndex.modify, sameId, found,
      MultiIndex.emplace_of_admits admits]
  · rw [MultiIndex.insert_row, MultiIndex.erase_row, sameId]
    split
    · rfl
    · rfl

theorem restoreRemoved_of_below {id : T.Id} {value : T.Value}
    (below : Below container target)
    (wanted : target.rows[id]? = some value)
    (absent : container.rows[id]? = none) :
    ∃ restored, restoreRemoved container (id, value) = .ok restored ∧
      ∀ tested : T.Id, restored.rows[tested]? =
        if id = tested then some value else container.rows[tested]? := by
  have sameId : T.id value = id := target.keyed wanted
  have admits : container.Admits value := below.admits wanted absent
  refine ⟨container.insert value admits, ?_, fun tested => ?_⟩
  · simp [restoreRemoved, MultiIndex.emplace_of_admits admits]
  · rw [MultiIndex.insert_row, sameId]

/-- A loop that puts rows of the target back, one after the other.  `ready`
is what one step needs of the row it replaces. -/
theorem foldlM_restore
    {step : MultiIndex T → T.Id × T.Value → Except Fault (MultiIndex T)}
    (ready : Option T.Value → Prop)
    (restores : ∀ (container : MultiIndex T) (id : T.Id) (value : T.Value),
      Below container target → target.rows[id]? = some value →
        ready container.rows[id]? →
          ∃ restored, step container (id, value) = .ok restored ∧
            ∀ tested : T.Id, restored.rows[tested]? =
              if id = tested then some value else container.rows[tested]?) :
    ∀ (items : List (T.Id × T.Value)) (container : MultiIndex T),
      (items.map Prod.fst).Nodup → Below container target →
        (∀ item ∈ items, target.rows[item.1]? = some item.2 ∧
          ready container.rows[item.1]?) →
          ∃ result, items.foldlM step container = .ok result ∧
            Below result target ∧
            ∀ tested : T.Id, result.rows[tested]? =
              if tested ∈ items.map Prod.fst then target.rows[tested]?
              else container.rows[tested]?
  | [], container, _, below, _ =>
      ⟨container, rfl, below, fun tested => by simp⟩
  | (id, value) :: rest, container, nodup, below, holds => by
      simp only [List.map_cons, List.nodup_cons] at nodup
      obtain ⟨notInRest, restNodup⟩ := nodup
      obtain ⟨wanted, isReady⟩ := holds (id, value) List.mem_cons_self
      obtain ⟨restored, stepped, rows⟩ :=
        restores container id value below wanted isReady
      have restHolds : ∀ item ∈ rest,
          target.rows[item.1]? = some item.2 ∧
            ready restored.rows[item.1]? := by
        intro item member
        have different : id ≠ item.1 := fun equal =>
          notInRest (equal ▸ List.mem_map_of_mem (f := Prod.fst) member)
        rw [rows item.1, if_neg different]
        exact holds item (List.mem_cons_of_mem (id, value) member)
      obtain ⟨result, finished, resultBelow, resultRows⟩ :=
        foldlM_restore ready restores rest restored restNodup
          (below.of_rows wanted rows) restHolds
      refine ⟨result, ?_, resultBelow, fun tested => ?_⟩
      · rw [List.foldlM_cons, stepped]
        exact finished
      · rw [resultRows tested, rows tested]
        by_cases same : id = tested
        · subst same
          have isKey : id ∈ ((id, value) :: rest).map Prod.fst :=
            List.mem_cons_self
          rw [if_neg notInRest, if_pos rfl, if_pos isKey, wanted]
        · have sameMembers :
              tested ∈ ((id, value) :: rest).map Prod.fst ↔
                tested ∈ rest.map Prod.fst := by
            simp only [List.map_cons, List.mem_cons, Ne.symm same, false_or]
          simp only [sameMembers, if_neg same]

/-- Undoing a recorded session gives back the rows from before it; no row is
missing on the way and no uniqueness constraint is violated. -/
theorem undoRows_of_records (records : Records state before after) :
    undoRows state after = .ok before := by
  obtain ⟨withoutNew, erased, erasedRows⟩ :=
    foldlM_eraseNew state.newIds.toList after (nodup_set_toList state.newIds)
      (fun id member =>
        (records id).present_of_new
          (decide_eq_true ((mem_set_toList state.newIds id).mp member)))
  have erasedRow : ∀ id : T.Id, withoutNew.rows[id]? =
      if id ∈ state.newIds then none else after.rows[id]? := by
    intro id
    rw [erasedRows id]
    simp only [mem_set_toList]
  have erasedBelow : Below withoutNew before := by
    intro id row found
    rw [erasedRow id] at found
    split at found
    · cases found
    · rename_i notNew
      have change := records id
      rw [found] at change
      exact change.original_of_not_new (decide_eq_false notNew)
  obtain ⟨withOld, modified, modifiedBelow, modifiedRows⟩ :=
    foldlM_restore (· ≠ none)
      (fun _ _ _ => restoreOld_of_below)
      state.oldValues.toList withoutNew (nodup_map_keys state.oldValues)
      erasedBelow
      (by
        rintro ⟨id, value⟩ member
        obtain ⟨original, notNew, present⟩ := (records id).of_old
          ((mem_map_toList state.oldValues id value).mp member)
        refine ⟨original, ?_⟩
        simp only [erasedRow id]
        rw [if_neg (of_decide_eq_false notNew)]
        exact present)
  obtain ⟨restored, emplaced, _, restoredRows⟩ :=
    foldlM_restore (· = none)
      (fun _ _ _ => restoreRemoved_of_below)
      state.removedValues.toList withOld (nodup_map_keys state.removedValues)
      modifiedBelow
      (by
        rintro ⟨id, value⟩ member
        obtain ⟨original, noOld, gone⟩ := (records id).of_removed
          ((mem_map_toList state.removedValues id value).mp member)
        change state.oldValues[id]? = none at noOld
        refine ⟨original, ?_⟩
        simp only [modifiedRows id, erasedRow id, map_key_mem_iff]
        rw [if_neg (not_not_intro noOld)]
        split
        · rfl
        · exact gone (decide_eq_false ‹_›))
  have allRows : restored = before := by
    apply MultiIndex.ext_row
    intro id
    rw [restoredRows id, modifiedRows id, erasedRow id]
    simp only [map_key_mem_iff]
    simpa [UndoState.entry] using (records id).restored
  subst allRows
  unfold undoRows
  rw [erased]
  change (do
    let withOld ← state.oldValues.toList.foldlM restoreOld withoutNew
    state.removedValues.toList.foldlM restoreRemoved withOld) = _
  rw [modified]
  exact emplaced

end GenericIndex

end StateDatabase
