import Mathlib
import StateDatabase.WalkRuns

/-!
# End iterators of tables

`keyval_cache` keeps the address of a table under its end iterator as long as
the `eos_db` exists.  `db_remove_i64` removes a table with its last row and
leaves that address behind, so `db_previous_i64` on the end iterator reads what
is at the address later.

It reads nothing while no row is stored at all.  Otherwise the end iterator is
safe exactly when a table is stored at the address that is the one of the end
iterator, or has no rows of its own.
-/

namespace StateDatabase

open Programs GenericIndex

namespace EosDb

/-! ## End iterators stay in the cache -/

/-- `keyval_cache` still has the tables that it had, with the same addresses
and end iterators. -/
def EndsStay (eos final : EosDb) : Prop :=
  ∀ (tab : Int64) (entry : Address × Int),
    (eos.caches .keyValue).tableCache[tab]? = some entry →
      (final.caches .keyValue).tableCache[tab]? = some entry

instance : IsPreorder EosDb EndsStay where
  refl := fun _ _ _ cached => cached
  trans := fun _ _ _ first second tab entry cached =>
    second tab entry (first tab entry cached)

variable {eos middle final : EosDb} {used : List Int64} {ndebug : Bool}
  {code : Name} {scope : Sha256} {table payer : Name} {id : UInt64}
  {iterator : Int} {memory : Memory} {r : RowTable}

theorem endsStay_of_sameCaches (same : final.caches = eos.caches) :
    EndsStay eos final := by
  intro tab entry cached
  rw [same]
  exact cached

/-- A cache that has kept its tables is put back. -/
theorem endsStay_setCache {cache : IteratorCache}
    (kept : ∀ (tab : Int64) (entry : Address × Int),
      (eos.caches r).tableCache[tab]? = some entry →
        cache.tableCache[tab]? = some entry) :
    EndsStay eos { eos with caches := Function.update eos.caches r cache } := by
  intro tab entry cached
  by_cases same : r = .keyValue
  · subst same
    simp only [Function.update_self]
    exact kept tab entry cached
  · simp only [Function.update_of_ne (Ne.symm same)]
    exact cached

theorem moves_onDatabase {α : Type}
    (program : Database.DatabaseM eosDbTables α) :
    Moves EndsStay (onDatabase program) := by
  apply moves_zoom
  exact fun _ _ => endsStay_of_sameCaches rfl

theorem moves_ofExcept {α : Type} (result : Except Fault α) :
    Moves EndsStay (ofExcept result) := by
  cases result with
  | ok value => exact moves_pure value
  | error fault => exact moves_throw fault

theorem moves_create {t : TableType} {block : Block}
    {value : (indexOf t).Value} : Moves EndsStay (create t block value) := by
  apply (moves_onDatabase _).bind
  intro _ middle
  apply ends_bind
  apply ends_of_ok (get_apply middle)
  exact ends_of_ok (set_apply _ _) (endsStay_of_sameCaches rfl)

theorem moves_objectAt (t : TableType) (address : Address) :
    Moves EndsStay (objectAt t address) := by
  apply (moves_onDatabase _).bind
  intro rows
  apply moves_get.bind
  intro state
  split
  · exact moves_pure _
  · exact moves_throw _

/-! ### The caches -/

theorem moves_cacheTable (r : RowTable) (tab : Int64) :
    Moves EndsStay (cacheTable r tab) := by
  intro state
  have caches : cacheTable r tab state =
      .ok ((state.caches r).cacheTable tab (state.place .tableId tab)).1
        { state with
          caches := Function.update state.caches r ((state.caches r).cacheTable
            tab (state.place .tableId tab)).2 } := rfl
  apply ends_of_ok caches
  apply endsStay_setCache
  intro tab entry cached
  exact IteratorCache.cacheTable_entries _ _ _ cached

theorem moves_addObject (r : RowTable) (id : (indexOf r.type).Id) :
    Moves EndsStay (addObject r id) := by
  intro state
  have adds : addObject r id state =
      .ok ((state.caches r).add (state.place r.type id)).1
        { state with
          caches := Function.update state.caches r
            ((state.caches r).add (state.place r.type id)).2 } := rfl
  apply ends_of_ok adds
  apply endsStay_setCache
  intro tab entry cached
  rw [IteratorCache.add_tableCache]
  exact cached

theorem moves_getTable (r : RowTable) (tab : Int64) :
    Moves EndsStay (getTable ndebug r tab) :=
  moves_get.bind fun _ => moves_ofExcept _

theorem moves_getObject (r : RowTable) (iterator : Int) :
    Moves EndsStay (getObject ndebug r iterator) :=
  moves_get.bind fun _ => (moves_ofExcept _).bind fun address =>
    moves_objectAt r.type address

/-- `remove` takes a row out of a cache and no table. -/
theorem remove_tableCache {cache cleared : IteratorCache}
    (removed : cache.remove ndebug iterator = .ok cleared) :
    cleared.tableCache = cache.tableCache := by
  unfold IteratorCache.remove at removed
  split at removed
  · cases removed
  · split at removed
    · cases removed
    · split at removed
      · cases removed
      · cases removed
        rfl
      · cases removed
        rfl

theorem moves_removeIterator (r : RowTable) (iterator : Int) :
    Moves EndsStay (removeIterator ndebug r iterator) := by
  intro state
  apply ends_bind
  apply ends_of_ok (get_apply state)
  cases removed : (state.caches r).remove ndebug iterator with
  | error fault =>
      exact ends_of_error (bind_apply_of_error _ (throw_apply fault state))
        (Std.Refl.refl state)
  | ok cleared =>
      have sets : setCache r cleared state = .ok ⟨⟩ { state with
          caches := Function.update state.caches r cleared } := rfl
      apply ends_bind
      apply ends_pure
      apply ends_of_ok sets
      apply endsStay_setCache
      intro tab entry cached
      rw [remove_tableCache removed]
      exact cached

/-! ### The calls -/

theorem moves_findTable :
    Moves EndsStay (findTable code scope table) :=
  (moves_onDatabase _).bind fun _ => moves_pure _

theorem moves_findOrCreateTable {block : Block} :
    Moves EndsStay (findOrCreateTable code scope table payer block) := by
  apply moves_findTable.bind
  intro found
  cases found with
  | some existing => exact moves_pure _
  | none => exact moves_create.bind fun _ => moves_pure _

theorem moves_storeRow {newRow : Int64 → (indexOf r.type).Value} :
    Moves EndsStay (storeRow r code scope table payer newRow memory) := by
  apply moves_findOrCreateTable.bind
  intro tab
  apply moves_create.bind
  intro _
  apply (moves_onDatabase _).bind
  intro _
  apply (moves_cacheTable r tab).bind
  intro _
  exact moves_addObject r _

theorem moves_dropRow {row : (indexOf r.type).Id} {tab : Int64} :
    Moves EndsStay (dropRow r row tab) :=
  (moves_onDatabase _).bind fun _ => moves_onDatabase _

theorem moves_removeI64Row {row tab : Int64} :
    Moves EndsStay (removeI64Row row tab) := by
  apply (moves_dropRow (r := .keyValue)).bind
  intro _
  apply (moves_onDatabase _).bind
  intro tables
  split
  · exact moves_throw _
  · split
    · exact moves_onDatabase _
    · exact moves_pure _

theorem moves_dbRemoveI64 : Moves EndsStay (dbRemoveI64 ndebug iterator) := by
  apply (moves_getObject .keyValue iterator).bind
  intro obj
  apply (moves_getTable .keyValue _).bind
  intro address
  apply (moves_objectAt .tableId address).bind
  intro tableObj
  apply moves_removeI64Row.bind
  intro _
  exact moves_removeIterator .keyValue iterator

theorem moves_idxRemove {kind : IndexKind} :
    Moves EndsStay (idxRemove ndebug kind iterator) := by
  apply (moves_getObject (.index kind) iterator).bind
  intro obj
  apply (moves_getTable (.index kind) _).bind
  intro address
  apply (moves_objectAt .tableId address).bind
  intro tableObj
  apply (moves_dropRow (r := .index kind)).bind
  intro _
  exact moves_removeIterator (.index kind) iterator

theorem moves_dbGetI64 {bufferSize : Nat} :
    Moves EndsStay (dbGetI64 ndebug iterator bufferSize) := by
  apply (moves_getObject .keyValue iterator).bind
  intro obj
  split
  · exact moves_pure _
  · exact moves_pure _

theorem moves_dbFindI64 : Moves EndsStay (dbFindI64 code scope table id) := by
  apply moves_findTable.bind
  intro found
  cases found with
  | none => exact moves_pure _
  | some tab =>
      apply (moves_cacheTable .keyValue _).bind
      intro tableEnd
      apply (moves_onDatabase _).bind
      intro rows
      split
      · exact moves_pure _
      · exact moves_addObject .keyValue _

theorem moves_dbEndI64 : Moves EndsStay (dbEndI64 code scope table) := by
  apply moves_findTable.bind
  intro found
  cases found with
  | none => exact moves_pure _
  | some tab => exact moves_cacheTable .keyValue _

theorem moves_rowAtBound
    {bound : List KeyValueObject → Int64 × UInt64 → Nat} :
    Moves EndsStay (rowAtBound bound code scope table id) := by
  apply moves_findTable.bind
  intro found
  cases found with
  | none => exact moves_pure _
  | some tab =>
      apply (moves_cacheTable .keyValue _).bind
      intro tableEnd
      apply (moves_onDatabase _).bind
      intro rows
      dsimp only
      split
      · exact moves_pure _
      · split
        · exact moves_pure _
        · exact moves_addObject .keyValue _

section Neighbours

variable {primary : UInt64}

theorem moves_getEnd {tab : Int64} :
    Moves EndsStay
      (do
        return (← ofExcept (((← get).caches .keyValue).getEndIteratorByTableId
          ndebug tab), primary)) :=
  moves_get.bind fun _ => (moves_ofExcept _).bind fun _ => moves_pure _

theorem moves_dbNextI64 :
    Moves EndsStay (dbNextI64 ndebug iterator primary) := by
  unfold dbNextI64
  split
  · exact moves_pure _
  · apply (moves_getObject .keyValue iterator).bind
    intro obj
    apply (moves_onDatabase _).bind
    intro rows
    dsimp only
    split
    · split
      · exact moves_getEnd
      · exact (moves_addObject .keyValue _).bind fun _ => moves_pure _
    · exact moves_getEnd

theorem moves_stepBack {idx : List KeyValueObject} {itr : Nat} {tab : Int64} :
    Moves EndsStay (stepBack idx itr tab primary) := by
  unfold stepBack
  split
  · exact moves_pure _
  · split
    · exact moves_throw _
    · split
      · exact moves_pure _
      · exact (moves_addObject .keyValue _).bind fun _ => moves_pure _

theorem moves_dbPreviousI64 :
    Moves EndsStay (dbPreviousI64 ndebug iterator primary) := by
  unfold dbPreviousI64
  apply (moves_onDatabase _).bind
  intro rows
  dsimp only
  split
  · apply moves_get.bind
    intro state
    apply (moves_ofExcept _).bind
    intro located
    split
    · exact moves_throw _
    · split
      · exact moves_pure _
      · apply (moves_objectAt .tableId _).bind
        intro tab
        exact moves_stepBack
  · apply (moves_getObject .keyValue iterator).bind
    intro obj
    exact moves_stepBack

end Neighbours

/-! ## `db_previous_i64` on an end iterator -/

/-- The table has no rows, or is not there. -/
def NoRows (eos : EosDb) (tab : Int64) : Prop :=
  (eos.db.rows .tableId).rows[tab]? = none ∨
    ∀ (id : Int64) (row : KeyValueObject),
      (eos.db.rows .keyValue).rows[id]? = some row → row.tId ≠ tab

/-- `db_previous_i64` on the end iterator of a table reads no memory in which no
table is stored, and returns -1 if the table is gone or has no rows. -/
structure SafeEnd (ndebug : Bool) (eos : EosDb) (tab : Int64)
    (tableEnd : Int) : Prop where
  reads : ∀ (primary : UInt64) (left : EosDb),
    dbPreviousI64 ndebug tableEnd primary eos ≠ .error .undefined left
  previous : eos.NoRows tab → ∀ primary : UInt64,
    dbPreviousI64 ndebug tableEnd primary eos = .ok (-1, primary) eos

/-- What is at the address of an end iterator makes it safe: no row of any table
is stored, so that nothing is read there, or a table is stored there that is the
one of the end iterator or has no rows. -/
def SafeAddress (eos : EosDb) (tab : Int64) (address : Address) : Prop :=
  (∀ id : Int64, (eos.db.rows .keyValue).rows[id]? = none) ∨
    ∃ (other : Int64) (tableObj : TableIdObject),
      (eos.db.rows .tableId).rows[other]? = some tableObj ∧
      eos.place .tableId other = address ∧
      (other = tab ∨ ∀ (id : Int64) (row : KeyValueObject),
        (eos.db.rows .keyValue).rows[id]? = some row → row.tId ≠ other)

section Ends

variable {tab : Int64} {address : Address} {primary : UInt64}
  {tableObj : TableIdObject}

/-- The index is empty when there are no rows. -/
theorem byScopePrimary_isEmpty_iff :
    (byScopePrimary (eos.db.rows .keyValue)).isEmpty = true ↔
      ∀ id : Int64, (eos.db.rows .keyValue).rows[id]? = none := by
  rw [List.isEmpty_iff, List.eq_nil_iff_forall_not_mem]
  constructor
  · intro noMember id
    by_contra stored
    obtain ⟨row, found⟩ := Option.ne_none_iff_exists'.mp stored
    have isId : row.id = id := (eos.db.rows .keyValue).keyed found
    apply noMember row
    rw [mem_byScopePrimary, isId]
    exact found
  · intro noRow row member
    have found := mem_byScopePrimary.mp member
    rw [noRow row.id] at found
    cases found

/-- The row before a position, and what `db_previous_i64` does with it. -/
theorem stepBack_cases {itr : Nat}
    (inside : itr ≤ (byScopePrimary (eos.db.rows .keyValue)).length) :
    stepBack (byScopePrimary (eos.db.rows .keyValue)) itr tab primary eos =
        .ok (-1, primary) eos ∨
      ∃ row : KeyValueObject,
        (eos.db.rows .keyValue).rows[row.id]? = some row ∧ row.tId = tab ∧
        stepBack (byScopePrimary (eos.db.rows .keyValue)) itr tab primary eos =
          .ok (((eos.caches .keyValue).add (eos.place .keyValue row.id)).1,
            row.primaryKey) (eos.withObject row.id) := by
  cases itr with
  | zero => exact Or.inl rfl
  | succ before =>
      have isPrevious := List.getElem?_eq_getElem (show before <
        (byScopePrimary (eos.db.rows .keyValue)).length by omega)
      have found := mem_byScopePrimary.mp (List.mem_of_getElem? isPrevious)
      by_cases inTable : (byScopePrimary (eos.db.rows .keyValue))[before].tId =
          tab
      · refine Or.inr ⟨_, found, inTable, ?_⟩
        simp only [stepBack, isPrevious, if_neg (not_not.mpr inTable)]
        rfl
      · left
        simp only [stepBack, isPrevious, if_pos inTable]
        rfl

/-- No row of the table is found before any position. -/
theorem stepBack_of_noRows {itr : Nat}
    (inside : itr ≤ (byScopePrimary (eos.db.rows .keyValue)).length)
    (noRows : ∀ (id : Int64) (row : KeyValueObject),
      (eos.db.rows .keyValue).rows[id]? = some row → row.tId ≠ tab) :
    stepBack (byScopePrimary (eos.db.rows .keyValue)) itr tab primary eos =
      .ok (-1, primary) eos := by
  have steps : stepBack (byScopePrimary (eos.db.rows .keyValue)) itr tab primary
      eos = _ ∨ _ := stepBack_cases inside
  rcases steps with isEnd | ⟨row, found, inTable, _⟩
  · exact isEnd
  · exact absurd inTable (noRows row.id row found)

/-- The last row of a table that has rows is before the upper bound. -/
theorem exists_lastRow {id : Int64} {row : KeyValueObject}
    (found : (eos.db.rows .keyValue).rows[id]? = some row)
    (inTable : row.tId = tab) :
    ∃ before last,
      OrderedIndex.tableUpperBound (byScopePrimary (eos.db.rows .keyValue)) tab =
        before + 1 ∧
      (byScopePrimary (eos.db.rows .keyValue))[before]? = some last ∧
      last.tId = tab := by
  have isId : row.id = id := (eos.db.rows .keyValue).keyed found
  obtain ⟨front, back, split, isLength, upTo, lists⟩ :=
    split_at_tableUpperBound (eos.db.rows .keyValue) tab
  have member : row ∈ front.filter (ofTable tab) := by
    rw [lists.exact, isId]
    exact ⟨found, inTable, trivial⟩
  have isRow := List.mem_of_mem_filter member
  obtain ⟨others, last, isFront⟩ :=
    (List.eq_nil_or_concat' front).resolve_left (List.ne_nil_of_mem isRow)
  have sorted := pairwise_byScopePrimary (eos.db.rows .keyValue)
  rw [split, isFront] at sorted
  refine ⟨others.length, last, ?_, ?_, ?_⟩
  · rw [← isLength, isFront, List.length_append, List.length_singleton]
  · rw [split, isFront, List.append_assoc, List.getElem?_append_right (by omega),
      Nat.sub_self]
    rfl
  · have isUpTo := upTo last (by rw [isFront]; simp)
    rw [isFront, List.mem_append, List.mem_singleton] at isRow
    rcases isRow with isOther | rfl
    · have isLess := (List.pairwise_append.mp
        (List.pairwise_append.mp sorted).1).2.2 row isOther last (by simp)
      rw [scopePrimaryLess_iff] at isLess
      simp only [KeyValueObject.scopePrimary, inTable] at isLess
      apply Int64.toInt_inj.mp
      omega
    · exact inTable

/-- So `db_previous_i64` does not return -1 with any key. -/
theorem stepBack_of_row {id : Int64} {row : KeyValueObject}
    (found : (eos.db.rows .keyValue).rows[id]? = some row)
    (inTable : row.tId = tab) :
    ∃ primary, stepBack (byScopePrimary (eos.db.rows .keyValue))
        (OrderedIndex.tableUpperBound (byScopePrimary (eos.db.rows .keyValue))
          tab) tab primary eos ≠ .ok (-1, primary) eos := by
  obtain ⟨before, last, isBefore, isLast, ofTab⟩ := exists_lastRow found inTable
  refine ⟨last.primaryKey + 1, ?_⟩
  rw [isBefore]
  simp only [stepBack, isLast, if_neg (not_not.mpr ofTab)]
  intro same
  have adds : addObject .keyValue last.id eos = _ := addObject_apply last.id
  rw [bind_apply_of_ok _ adds] at same
  rw [pure_apply, EStateM.Result.ok.injEq, Prod.mk.injEq] at same
  have sameKey := same.1.2
  simp at sameKey

/-- A table is stored at an address, or reading there is undefined. -/
theorem objectAt_cases (ready : eos.db.Ready) (address : Address) :
    (∃ tableObj, objectAt .tableId address eos = .ok tableObj eos ∧
      (eos.db.rows .tableId).rows[tableObj.id]? = some tableObj ∧
      eos.place .tableId tableObj.id = address) ∨
    objectAt .tableId address eos = .error .undefined eos := by
  have reads := reads_objectAt_place ready .tableId address
  cases ran : objectAt .tableId address eos with
  | ok tableObj left =>
      obtain ⟨rfl, stored, isPlace⟩ := reads.of_ok ran
      exact Or.inl ⟨tableObj, rfl, stored, isPlace⟩
  | error fault left =>
      right
      have looks : indices .tableId eos = _ := indices_apply ready .tableId
      rw [objectAt, bind_apply_of_ok _ looks,
        bind_apply_of_ok _ (get_apply eos)] at ran
      cases hit : (eos.db.rows .tableId).rows.toList.find? fun entry =>
          eos.place .tableId entry.1 = address with
      | some entry =>
          simp only [hit] at ran
          cases ran
      | none =>
          simp only [hit] at ran
          cases ran
          rfl

/-- `db_previous_i64` on an end iterator goes by the address in the cache. -/
theorem Navigable.dbPreviousI64_address {entry : Address × Int}
    (navigable : Navigable eos used)
    (cached : (eos.caches .keyValue).tableCache[tab]? = some entry)
    (few : (eos.caches .keyValue).endIteratorToTable.length < 2 ^ 31 - 1) :
    dbPreviousI64 ndebug entry.2 primary eos =
      if (byScopePrimary (eos.db.rows .keyValue)).isEmpty then
        .ok (-1, primary) eos
      else
        (objectAt .tableId entry.1 >>= fun tableObj =>
          stepBack (byScopePrimary (eos.db.rows .keyValue))
            (OrderedIndex.tableUpperBound
              (byScopePrimary (eos.db.rows .keyValue)) tableObj.id)
            tableObj.id primary) eos := by
  obtain ⟨before, locates⟩ : entry.2 < -1 ∧
      (eos.caches .keyValue).findTableByEndIterator ndebug entry.2 = _ :=
    navigable.findTableByEndIterator_eq cached few
  have looks : indices .keyValue eos = _ :=
    indices_apply navigable.ready .keyValue
  rw [dbPreviousI64, bind_apply_of_ok _ looks]
  simp only [if_pos before]
  rw [bind_apply_of_ok _ (get_apply eos), locates]
  refine (bind_apply_of_ok _ rfl).trans ?_
  dsimp only
  split
  · rfl
  · rfl

/-- The end iterator of a table is safe exactly when what is at its address
makes it safe. -/
theorem Navigable.safeEnd_iff {entry : Address × Int}
    (navigable : Navigable eos used)
    (cached : (eos.caches .keyValue).tableCache[tab]? = some entry)
    (few : (eos.caches .keyValue).endIteratorToTable.length < 2 ^ 31 - 1) :
    SafeEnd ndebug eos tab entry.2 ↔ eos.SafeAddress tab entry.1 := by
  have program : ∀ primary, dbPreviousI64 ndebug entry.2 primary eos = _ :=
    fun primary => navigable.dbPreviousI64_address cached few
  by_cases isEmpty : (byScopePrimary (eos.db.rows .keyValue)).isEmpty = true
  · simp only [if_pos isEmpty] at program
    apply iff_of_true
    · constructor
      · intro primary left
        rw [program]
        exact nofun
      · exact fun _ => program
    · exact Or.inl (byScopePrimary_isEmpty_iff.mp isEmpty)
  · simp only [if_neg isEmpty] at program
    have someRow : ¬ ∀ id : Int64, (eos.db.rows .keyValue).rows[id]? = none :=
      fun noRow => isEmpty (byScopePrimary_isEmpty_iff.mpr noRow)
    rcases objectAt_cases navigable.ready entry.1 with
      ⟨tableObj, isAt, stored, isPlace⟩ | isGone
    · simp only [bind_apply_of_ok _ isAt] at program
      have inside : OrderedIndex.tableUpperBound (byScopePrimary
          (eos.db.rows .keyValue)) tableObj.id ≤ _ := List.findIdx_le_length
      constructor
      · intro safe
        refine Or.inr ⟨tableObj.id, tableObj, stored, isPlace, ?_⟩
        by_contra neither
        rw [not_or] at neither
        obtain ⟨otherTable, hasRows⟩ := neither
        push Not at hasRows
        obtain ⟨id, row, found, inTable⟩ := hasRows
        have tabGone : (eos.db.rows .tableId).rows[tab]? = none := by
          by_contra isStored
          have samePlace := (navigable.cache.tables tab entry cached).2 isStored
          apply otherTable
          exact navigable.tablesApart _ _
            (by rw [stored]; exact Option.some_ne_none tableObj) isStored
            (isPlace.trans samePlace.symm)
        obtain ⟨primary, notEnd⟩ := stepBack_of_row found inTable
        exact notEnd ((program primary).symm.trans
          (safe.previous (Or.inl tabGone) primary))
      · intro isSafe
        obtain ⟨other, otherObj, isOther, samePlace, safe⟩ :=
          isSafe.resolve_left someRow
        have same : other = tableObj.id := navigable.tablesApart _ _
          (by rw [isOther]; exact Option.some_ne_none otherObj)
          (by rw [stored]; exact Option.some_ne_none tableObj)
          (samePlace.trans isPlace.symm)
        subst same
        constructor
        · intro primary left
          rw [program]
          rcases stepBack_cases inside with isEnd | ⟨_, _, _, steps⟩
          · rw [isEnd]
            exact nofun
          · rw [steps]
            exact nofun
        · intro noRows primary
          rw [program]
          apply stepBack_of_noRows inside
          rcases safe with rfl | noneOfIt
          · apply noRows.resolve_left
            rw [stored]
            exact Option.some_ne_none tableObj
          · exact noneOfIt
    · simp only [bind_apply_of_error _ isGone] at program
      apply iff_of_false
      · intro safe
        exact safe.reads 0 eos (program 0)
      · intro isSafe
        obtain ⟨other, otherObj, isOther, isPlace, _⟩ :=
          isSafe.resolve_left someRow
        have isAt : objectAt .tableId entry.1 eos = _ := objectAt_of_row
          navigable.ready navigable.tablesApart isOther isPlace
        rw [isGone] at isAt
        cases isAt

end Ends

end EosDb

/-! ## Runs -/

namespace EosWithTableIds

open EosDb

variable {sha : Bytes → Sha256} {ndebug : Bool} {eosIds next : EosWithTableIds}

/-- No call takes a table out of the cache. -/
theorem endsStay_step {call : WalkCall} (permitted : eosIds.Permitted call)
    (stepped : eosIds.step sha ndebug call = some next) :
    EndsStay eosIds.eos next.eos := by
  have moves : Moves EndsStay (call.program sha ndebug) := by
    cases call with
    | eosCall call =>
        apply Moves.map
        cases call with
        | dbStoreI64 code scope table payer id buffer memory =>
            exact moves_storeRow.map _
        | idxStore kind code scope table payer id value memory =>
            exact moves_storeRow.map _
        | dbUpdateI64 iterator payer buffer =>
            apply Moves.map
            exact (moves_getObject .keyValue iterator).bind fun _ =>
              moves_onDatabase _
        | dbRemoveI64 iterator => exact moves_dbRemoveI64.map _
        | dbGetI64 iterator bufferSize => exact moves_dbGetI64.map _
        | dbFindI64 code scope table id => exact moves_dbFindI64.map _
        | idxUpdate kind iterator payer secondary =>
            apply Moves.map
            apply (moves_getObject (.index kind) iterator).bind
            intro obj
            exact (moves_getTable (.index kind) _).bind fun _ =>
              moves_onDatabase _
        | idxRemove kind iterator => exact moves_idxRemove.map _
        | _ => exact permitted.elim
    | dbNextI64 iterator primary => exact moves_dbNextI64.map _
    | dbPreviousI64 iterator primary => exact moves_dbPreviousI64.map _
    | dbLowerboundI64 code scope table id => exact moves_rowAtBound.map _
    | dbUpperboundI64 code scope table id => exact moves_rowAtBound.map _
    | dbEndI64 code scope table => exact moves_dbEndI64.map _
    | secondaryLookup kind cache =>
        intro state
        have sets : setCache (.index kind) cache state = .ok ⟨⟩ { state with
            caches := Function.update state.caches (.index kind) cache } := rfl
        apply ends_of_ok sets
        intro tab entry cached
        simp only [keyvalCache_update]
        exact cached
  obtain ⟨eos, survived, rfl⟩ := Option.map_eq_some_iff.mp stepped
  exact survive_of_ends (EndsStay eosIds.eos)
    ((moves eosIds.eos).imp (fun _ _ stay => stay) fun _ _ stay _ => stay)
    survived

/-- This table is in the cache, and stays in it. -/
structure EndStays (tab : Int64) (entry : Address × Int)
    (eosIds : EosWithTableIds) : Prop where
  navigable : Navigable eosIds.eos eosIds.tableIds
  cached : (eosIds.eos.caches .keyValue).tableCache[tab]? = some entry

theorem endStays_step {call : WalkCall} {tab : Int64} {entry : Address × Int}
    (kept : EndStays tab entry eosIds) (permitted : eosIds.Permitted call)
    (stepped : eosIds.step sha ndebug call = some next) :
    EndStays tab entry next where
  navigable := navigable_step kept.navigable permitted stepped
  cached := endsStay_step permitted stepped tab entry kept.cached

/-- An end iterator that `keyval_cache` has made for a table is safe after any
further calls on rows exactly when what is at its address then makes it so,
whichever tables were removed or created again.  `cache_table` is the only
function that makes end iterators, and it enters each with the table and its
address.  Fewer than 2^31 - 1 tables are in the cache, so that their end
iterators are different numbers. -/
theorem end_iterators_safe_iff (sha : Bytes → Sha256) (ndebug : Bool)
    (db : Database eosDbTables)
    (place : (t : TableType) → (indexOf t).Id → Address)
    (earlier later : List WalkCall) (middle final : EosWithTableIds)
    (tab : Int64) (address : Address) (tableEnd : Int) (ready : db.Ready)
    (rowsApart : (ofDatabase db place).Apart .keyValue)
    (tablesApart : (ofDatabase db place).Apart .tableId)
    (allowed : Runs.AllowedFrom (step sha ndebug) Permitted (start db place)
      earlier)
    (made : Runs.run (step sha ndebug) (start db place) earlier = some middle)
    (cached : (middle.eos.caches .keyValue).tableCache[tab]? =
      some (address, tableEnd))
    (allowedLater : Runs.AllowedFrom (step sha ndebug) Permitted middle later)
    (reached : Runs.run (step sha ndebug) middle later = some final)
    (few : (final.eos.caches .keyValue).endIteratorToTable.length <
      2 ^ 31 - 1) :
    SafeEnd ndebug final.eos tab tableEnd ↔
      final.eos.SafeAddress tab address := by
  have navigable := Runs.run_preserves
    (fun eosIds => Navigable eosIds.eos eosIds.tableIds)
    (fun _ _ _ navigable isAllowed stepped =>
      navigable_step navigable isAllowed stepped)
    (navigable_start ready rowsApart tablesApart) allowed made
  have kept := Runs.run_preserves (EndStays tab (address, tableEnd))
    (fun _ _ _ kept isAllowed stepped => endStays_step kept isAllowed stepped)
    ⟨navigable, cached⟩ allowedLater reached
  exact kept.navigable.safeEnd_iff kept.cached few

/-- Two tables have a row each, and one of them gets an end iterator. -/
def endCalls : List WalkCall :=
  [.eosCall (.dbStoreI64 ⟨1⟩ 2 ⟨3⟩ ⟨4⟩ 7 [10] ⟨⟨16, 5⟩, ⟨32, 0⟩⟩),
    .eosCall (.dbStoreI64 ⟨1⟩ 2 ⟨9⟩ ⟨4⟩ 8 [11] ⟨⟨48, 6⟩, ⟨64, 0⟩⟩),
    .dbEndI64 ⟨1⟩ 2 ⟨3⟩]

/-- The table is removed with its row and created again for an index row, where
it was before. -/
def recreatingCalls : List WalkCall :=
  [.eosCall (.dbRemoveI64 0),
    .eosCall (.idxStore .idx64 ⟨1⟩ 2 ⟨3⟩ ⟨4⟩ 7 100 ⟨⟨16, 7⟩, ⟨128, 9⟩⟩)]

theorem end_iterators_safe_iff_recreated :
    ∃ middle final, Runs.run (step (fun _ => 0) false)
        (start emptyTables fun _ _ => 0) endCalls = some middle ∧
      Runs.run (step (fun _ => 0) false) middle recreatingCalls = some final ∧
      (final.eos.db.rows .tableId).rows[(5 : Int64)]? = none ∧
      SafeEnd false final.eos 5 (-2) := by
  have test : (Runs.run (step (fun _ => 0) false)
      (start emptyTables fun _ _ => 0) endCalls).any (fun middle =>
        decide ((middle.eos.caches .keyValue).tableCache[(5 : Int64)]? =
            some (16, -2) ∧
          Runs.AllowedFrom (step (fun _ => 0) false) Permitted middle
            recreatingCalls) &&
          (Runs.run (step (fun _ => 0) false) middle recreatingCalls).any
            fun final =>
              decide ((final.eos.db.rows .tableId).rows[(5 : Int64)]? = none ∧
                (final.eos.db.rows .tableId).rows[(7 : Int64)]? ≠ none ∧
                final.eos.place .tableId (7 : Int64) = 16 ∧
                (∀ entry ∈ (final.eos.db.rows .keyValue).rows.toList,
                  entry.2.tId ≠ 7) ∧
                (final.eos.caches .keyValue).endIteratorToTable.length =
                  2)) = true := by
    decide +kernel
  obtain ⟨middle, made, holds⟩ := (Option.any_eq_true _ _).mp test
  rw [Bool.and_eq_true, decide_eq_true_iff] at holds
  obtain ⟨⟨cached, allowed⟩, holds⟩ := holds
  obtain ⟨final, reached, holds⟩ := (Option.any_eq_true _ _).mp holds
  obtain ⟨isGone, isStored, isPlace, noRows, tables⟩ := of_decide_eq_true holds
  obtain ⟨tableObj, stored⟩ := Option.ne_none_iff_exists'.mp isStored
  refine ⟨middle, final, made, reached, isGone, ?_⟩
  apply (end_iterators_safe_iff _ _ _ _ _ _ middle final 5 16 (-2)
    emptyTables_ready (EosWithIssued.emptyTables_apart _ .keyValue)
    (EosWithIssued.emptyTables_apart _ .tableId) (by decide +kernel) made cached
    allowed reached (by rw [tables]; decide)).mpr
  refine Or.inr ⟨7, tableObj, stored, isPlace, Or.inr ?_⟩
  intro id row found
  exact noRows (id, row) ((Maps.mem_map_toList _ _ _).mpr found)

/-- The end iterator that `db_end_i64` has returned leads to memory in which no
table is stored any more, and `db_previous_i64` follows it, because there is a
row of another table to compare with. -/
theorem end_iterator_of_removed_table :
    Runs.AllowedFrom (step (fun _ => 0) false) Permitted
        (start emptyTables fun _ _ => 0)
        (endCalls ++ [.eosCall (.dbRemoveI64 0)]) ∧
      ∃ earlier final,
        Runs.run (step (fun _ => 0) false) (start emptyTables fun _ _ => 0)
          (endCalls.take 2) = some earlier ∧
        (∃ left, dbEndI64 ⟨1⟩ 2 ⟨3⟩ earlier.eos = .ok (-2) left) ∧
        Runs.run (step (fun _ => 0) false) (start emptyTables fun _ _ => 0)
          (endCalls ++ [.eosCall (.dbRemoveI64 0)]) = some final ∧
        (final.eos.db.rows .tableId).rows[(5 : Int64)]? = none ∧
        (∃ left, dbPreviousI64 false (-2) 0 final.eos =
          .error .undefined left) ∧
        ¬ SafeEnd false final.eos 5 (-2) := by
  have returnsEnd : (Runs.run (step (fun _ => 0) false)
      (start emptyTables fun _ _ => 0) (endCalls.take 2)).any
        (fun earlier => match dbEndI64 ⟨1⟩ 2 ⟨3⟩ earlier.eos with
          | .ok tableEnd _ => decide (tableEnd = -2)
          | .error _ _ => false) = true := by
    decide +kernel
  have fails : (Runs.run (step (fun _ => 0) false)
      (start emptyTables fun _ _ => 0)
      (endCalls ++ [.eosCall (.dbRemoveI64 0)])).any
        (fun final =>
          decide ((final.eos.db.rows .tableId).rows[(5 : Int64)]? = none) &&
          match dbPreviousI64 false (-2) 0 final.eos with
          | .ok _ _ => false
          | .error fault _ => decide (fault = .undefined)) = true := by
    decide +kernel
  obtain ⟨earlier, begins, ends⟩ := (Option.any_eq_true _ _).mp returnsEnd
  obtain ⟨final, ran, holds⟩ := (Option.any_eq_true _ _).mp fails
  rw [Bool.and_eq_true, decide_eq_true_iff] at holds
  obtain ⟨isGone, reads⟩ := holds
  have isUndefined : ∃ left, dbPreviousI64 false (-2) 0 final.eos =
      .error .undefined left := by
    cases result : dbPreviousI64 false (-2) 0 final.eos with
    | ok value left =>
        rw [result] at reads
        cases reads
    | error fault left =>
        rw [result] at reads
        exact ⟨left, by rw [of_decide_eq_true reads]⟩
  refine ⟨by decide +kernel, earlier, final, begins, ?_, ran, isGone,
    isUndefined, ?_⟩
  · cases result : dbEndI64 ⟨1⟩ 2 ⟨3⟩ earlier.eos with
    | ok tableEnd left =>
        rw [result] at ends
        exact ⟨left, by rw [of_decide_eq_true ends]⟩
    | error fault left =>
        rw [result] at ends
        cases ends
  · intro safe
    obtain ⟨left, isError⟩ := isUndefined
    exact safe.reads 0 left isError

end EosWithTableIds

end StateDatabase
