import Mathlib
import StateDatabase.WalkCalls

/-!
# Walks through a table

From a row on, `db_next_i64` visits the rows of its table in increasing order
and ends at the end iterator of the table; `db_previous_i64` visits them in the
reverse order and ends at -1.  The rows come from the index, and each gets the
iterator that it has in `keyval_cache`.

Iterators are of type `int`, so this needs fewer than 2^31 of them.
-/

namespace StateDatabase

open Programs

namespace EosDb

section Visits

variable (ndebug : Bool) (code : Name) (scope : Sha256) (table : Name)

/-- From the iterator on, `db_next_i64` visits these rows one after the other,
reports the key of each row that it goes to, and returns the end iterator of
the table after the last one. -/
def VisitsNext : EosDb → Int → List KeyValueObject → Prop
  | eos, iterator, [] =>
      ∃ final, dbEndI64 code scope table eos = .ok iterator final
  | eos, iterator, row :: rest =>
      getObject ndebug .keyValue iterator eos = .ok row eos ∧
      ∀ primary, ∃ next final,
        dbNextI64 ndebug iterator primary eos =
          .ok (next, (rest.head?.map KeyValueObject.primaryKey).getD primary)
            final ∧
        VisitsNext final next rest

/-- Behind the iterator, `db_previous_i64` visits these rows one after the
other, reports their keys, and returns -1 after the last one. -/
def VisitsPrevious : EosDb → Int → List KeyValueObject → Prop
  | eos, iterator, [] => ∀ primary, ∃ final,
      dbPreviousI64 ndebug iterator primary eos = .ok (-1, primary) final
  | eos, iterator, row :: rest => ∀ primary, ∃ previous final,
      dbPreviousI64 ndebug iterator primary eos =
        .ok (previous, row.primaryKey) final ∧
      getObject ndebug .keyValue previous final = .ok row final ∧
      VisitsPrevious final previous rest

/-- Walks through the table with the id `tab` visit its rows in order. -/
structure OrderedTraversal (eos : EosDb) (tab : Int64) : Prop where
  /-- `db_next_i64` after `db_lowerbound_i64` -/
  lowerbound : ∀ id : UInt64, ∃ rows first started,
    ListsRows (eos.db.rows .keyValue) tab (fun key => id ≤ key) rows ∧
    dbLowerboundI64 code scope table id eos = .ok first started ∧
    VisitsNext ndebug code scope table started first rows
  /-- `db_upperbound_i64`, for a key that the table has -/
  upperboundOfRow : ∀ (id : UInt64) (row : KeyValueObject),
    (eos.db.rows .keyValue).rows[row.id]? = some row → row.tId = tab →
    row.primaryKey = id → ∃ upper reached found middle,
      dbUpperboundI64 code scope table id eos = .ok upper reached ∧
      dbFindI64 code scope table id reached = .ok found middle ∧
      ∀ primary, ∃ reported final,
        dbNextI64 ndebug found primary middle = .ok (upper, reported) final
  /-- `db_upperbound_i64`, for another key -/
  upperboundOfGap : ∀ id : UInt64,
    (∀ row : KeyValueObject,
      (eos.db.rows .keyValue).rows[row.id]? = some row → row.tId = tab →
        row.primaryKey ≠ id) →
    ∃ upper reached final,
      dbUpperboundI64 code scope table id eos = .ok upper reached ∧
      dbLowerboundI64 code scope table id reached = .ok upper final
  /-- `db_previous_i64` after `db_end_i64` -/
  fromEnd : ∃ rows tableEnd reached,
    ListsRows (eos.db.rows .keyValue) tab (fun _ => True) rows ∧
    dbEndI64 code scope table eos = .ok tableEnd reached ∧
    VisitsPrevious ndebug reached tableEnd rows.reverse
  /-- both directions, from any iterator of a row of the table -/
  fromIterator : ∀ (iterator : Int) (row : KeyValueObject),
    getObject ndebug .keyValue iterator eos = .ok row eos → row.tId = tab →
      ∃ behind before,
        ListsRows (eos.db.rows .keyValue) tab
          (fun key => row.primaryKey ≤ key) behind ∧
        VisitsNext ndebug code scope table eos iterator behind ∧
        ListsRows (eos.db.rows .keyValue) tab
          (fun key => key < row.primaryKey) before ∧
        VisitsPrevious ndebug eos iterator before.reverse

end Visits

variable {eos final : EosDb} {used : List Int64} {ndebug : Bool}
  {iterator : Int} {row : KeyValueObject} {entry : Address × Int}

/-! ## Iterators of rows -/

/-- The iterator is that of the row. -/
def Denotes (eos : EosDb) (iterator : Int) (row : KeyValueObject) : Prop :=
  (eos.db.rows .keyValue).rows[row.id]? = some row ∧
    ∃ position : Nat, iterator = position ∧ position < 2 ^ 31 ∧
      eos.keyvalEntries[position]? = some (some (eos.place .keyValue row.id))

/-- An entry with the address of a row leads to it. -/
theorem Navigable.getObject_of_live {position : Nat}
    (navigable : Navigable eos used)
    (live : eos.keyvalEntries[position]? =
      some (some (eos.place .keyValue row.id)))
    (found : (eos.db.rows .keyValue).rows[row.id]? = some row) :
    EosDb.getObject ndebug .keyValue position eos = .ok row eos := by
  have got : (eos.caches .keyValue).get ndebug position =
      .ok (eos.place .keyValue row.id) := IteratorCache.get_of_live live
  rw [EosDb.getObject, bind_apply_of_ok _ (get_apply eos), got]
  refine (bind_apply_of_ok _ rfl).trans ?_
  exact objectAt_of_row navigable.ready navigable.rowsApart found rfl

theorem Denotes.getObject (denotes : Denotes eos iterator row)
    (navigable : Navigable eos used) :
    EosDb.getObject ndebug .keyValue iterator eos = .ok row eos := by
  obtain ⟨found, position, rfl, _, live⟩ := denotes
  exact navigable.getObject_of_live live found

/-- A row that has an iterator keeps it. -/
theorem Denotes.addObject (denotes : Denotes eos iterator row)
    (navigable : Navigable eos used) :
    EosDb.addObject .keyValue row.id eos = .ok iterator eos := by
  obtain ⟨found, position, rfl, bound, live⟩ := denotes
  have same := navigable.cache.mirrored.add_of_live live
  rw [addObject_apply, withObject, same, Function.update_eq_self,
    toInt32_eq (by omega) (by omega)]

/-- Only `keyval_cache` is different: it has more entries and more tables. -/
structure Grown (eos final : EosDb) : Prop where
  db : final.db = eos.db
  place : final.place = eos.place
  entries : eos.keyvalEntries <+: final.keyvalEntries
  tables : ∀ (tab : Int64) (entry : Address × Int),
    (eos.caches .keyValue).tableCache[tab]? = some entry →
      (final.caches .keyValue).tableCache[tab]? = some entry

theorem Grown.trans {middle : EosDb} (first : Grown eos middle)
    (second : Grown middle final) : Grown eos final where
  db := second.db.trans first.db
  place := second.place.trans first.place
  entries := first.entries.trans second.entries
  tables := fun tab entry cached =>
    second.tables tab entry (first.tables tab entry cached)

theorem withObject_entries (eos : EosDb) (id : Int64) :
    (eos.withObject id).keyvalEntries = eos.keyvalEntries ∨
      (eos.withObject id).keyvalEntries =
        eos.keyvalEntries ++ [some (eos.place .keyValue id)] := by
  rw [keyvalEntries, withObject_cache]
  exact IteratorCache.add_iteratorToObject _ _

theorem length_withObject (eos : EosDb) (id : Int64) :
    (eos.withObject id).keyvalEntries.length ≤
      eos.keyvalEntries.length + 1 := by
  rcases eos.withObject_entries id with same | longer
  · rw [same]
    omega
  · rw [longer, List.length_append, List.length_singleton]

theorem grown_withObject (eos : EosDb) (id : Int64) :
    Grown eos (eos.withObject id) where
  db := rfl
  place := rfl
  entries := by
    rcases eos.withObject_entries id with same | longer
    · rw [same]
    · rw [longer]
      exact List.prefix_append _ _
  tables := fun tab entry cached => by
    rw [withObject_tableCache]
    exact cached

theorem grown_withTable (eos : EosDb) (tab : Int64) :
    Grown eos (eos.withTable tab) where
  db := rfl
  place := rfl
  entries := by
    rw [withTable_entries]
  tables := fun tested entry cached => by
    rw [withTable_cache]
    exact IteratorCache.cacheTable_entries _ _ _ cached

theorem Denotes.grown (denotes : Denotes eos iterator row)
    (grown : Grown eos final) : Denotes final iterator row := by
  obtain ⟨found, position, isPosition, bound, live⟩ := denotes
  refine ⟨?_, position, isPosition, bound, ?_⟩
  · rw [grown.db]
    exact found
  · obtain ⟨more, isFinal⟩ := grown.entries
    rw [grown.place, ← isFinal, List.getElem?_append_left]
    · exact live
    · exact (List.getElem?_eq_some_iff.mp live).1

/-! ## Rows without an iterator -/

/-- No entry of `keyval_cache` is that of the row. -/
def Unlisted (eos : EosDb) (row : KeyValueObject) : Prop :=
  some (eos.place .keyValue row.id) ∉ eos.keyvalEntries

instance (eos : EosDb) (row : KeyValueObject) :
    Decidable (eos.Unlisted row) :=
  decidable_of_iff
    (eos.keyvalEntries.contains (some (eos.place .keyValue row.id)) = false)
    (by simp [Unlisted])

/-- The rows of the table that have no iterator yet. -/
def unlistedSize (eos : EosDb) (tab : Int64) : Nat :=
  (eos.db.rows .keyValue).countIf fun row =>
    ofTable tab row && decide (eos.Unlisted row)

/-- The entries of `keyval_cache` when every row of the table has one. -/
def walkedSize (eos : EosDb) (tab : Int64) : Nat :=
  eos.keyvalEntries.length + eos.unlistedSize tab

/-- All rows of a table. -/
def tableSize (eos : EosDb) (tab : Int64) : Nat :=
  (eos.db.rows .keyValue).countIf (ofTable tab)

theorem walkedSize_le (eos : EosDb) (tab : Int64) :
    eos.walkedSize tab ≤ eos.keyvalEntries.length + eos.tableSize tab := by
  apply Nat.add_le_add_left
  apply List.countP_mono_left
  intro entry _ isUnlisted
  exact (Bool.and_eq_true_iff.mp isUnlisted).1

@[simp]
theorem walkedSize_withTable (eos : EosDb) (tested tab : Int64) :
    (eos.withTable tested).walkedSize tab = eos.walkedSize tab := by
  have same : ∀ row, (eos.withTable tested).Unlisted row ↔
      eos.Unlisted row := by
    intro row
    unfold Unlisted
    rw [withTable_entries]
    rfl
  simp only [walkedSize, unlistedSize, withTable_entries, same]
  rfl

/-- A row without an iterator counts. -/
theorem Unlisted.lt_walkedSize (unlisted : eos.Unlisted row)
    (found : (eos.db.rows .keyValue).rows[row.id]? = some row) :
    eos.keyvalEntries.length < eos.walkedSize row.tId := by
  have counted : eos.unlistedSize row.tId ≠ 0 := by
    intro isZero
    have noRow := MultiIndex.countIf_eq_zero_iff.mp isZero row.id row found
    simp [ofTable, unlisted] at noRow
  unfold walkedSize
  omega

/-- An iterator for a row of the table does not make its walk longer. -/
theorem Navigable.walkedSize_withObject (navigable : Navigable eos used)
    (found : (eos.db.rows .keyValue).rows[row.id]? = some row) :
    (eos.withObject row.id).walkedSize row.tId ≤ eos.walkedSize row.tId := by
  by_cases unlisted : eos.Unlisted row
  · have misses : (eos.caches .keyValue).Misses
        (eos.place .keyValue row.id) :=
      fun _ isLive => unlisted (List.mem_of_getElem? isLive)
    have isAdded : some (eos.place .keyValue row.id) ∈
        (eos.withObject row.id).keyvalEntries := by
      rw [keyvalEntries, withObject_cache,
        navigable.cache.mirrored.add_of_new misses]
      exact List.mem_append_right _ List.mem_cons_self
    have remains : ∀ other, (eos.withObject row.id).Unlisted other →
        eos.Unlisted other := by
      intro other isUnlisted member
      apply isUnlisted
      exact (eos.grown_withObject row.id).entries.subset member
    have fewer : (eos.withObject row.id).unlistedSize row.tId <
        eos.unlistedSize row.tId := by
      apply MultiIndex.countIf_lt _ found
      · simp [ofTable, unlisted]
      · have isListed : ¬ (eos.withObject row.id).Unlisted row :=
          not_not_intro isAdded
        simp [isListed]
      · intro other isUnlisted
        simp only [Bool.and_eq_true, decide_eq_true_eq] at isUnlisted ⊢
        exact ⟨isUnlisted.1, remains other isUnlisted.2⟩
    have longer := eos.length_withObject row.id
    unfold walkedSize
    omega
  · have live := List.mem_iff_getElem?.mp (not_not.mp unlisted)
    rcases live with ⟨position, isLive⟩
    have same := navigable.cache.mirrored.add_of_live isLive
    have unchanged : eos.withObject row.id = eos := by
      rw [withObject, same, Function.update_eq_self]
    rw [unchanged]

/-- A row gets an iterator. -/
theorem Navigable.denotes_added (navigable : Navigable eos used)
    (found : (eos.db.rows .keyValue).rows[row.id]? = some row)
    (few : eos.walkedSize row.tId ≤ 2 ^ 31) :
    Denotes (eos.withObject row.id)
      ((eos.caches .keyValue).add (eos.place .keyValue row.id)).1 row := by
  by_cases unlisted : eos.Unlisted row
  · have longer := unlisted.lt_walkedSize found
    obtain ⟨position, isPosition, bound, live⟩ :=
      navigable.cache.mirrored.add_position (eos.place .keyValue row.id)
        (lt_of_lt_of_le longer few)
    refine ⟨found, position, isPosition, bound, ?_⟩
    rw [keyvalEntries, withObject_cache]
    exact live
  · have live := List.mem_iff_getElem?.mp (not_not.mp unlisted)
    rcases live with ⟨position, isLive⟩
    have inside := (List.getElem?_eq_some_iff.mp isLive).1
    have same := navigable.cache.mirrored.add_of_live isLive
    have bound : eos.keyvalEntries.length ≤ eos.walkedSize row.tId :=
      Nat.le_add_right _ _
    refine ⟨found, position, ?_, by omega, ?_⟩
    · rw [same, toInt32_eq (by omega) (by omega)]
    · rw [keyvalEntries, withObject_cache, same]
      exact isLive

/-! ## Forwards -/

section Next

variable {primary : UInt64} {front back : List KeyValueObject}

theorem getEnd_apply {tab : Int64}
    (cached : (eos.caches .keyValue).tableCache[tab]? = some entry) :
    (do
      return (← ofExcept (((← get).caches .keyValue).getEndIteratorByTableId
        ndebug tab), primary) : EosDbM (Int × UInt64)) eos =
      .ok (entry.2, primary) eos := by
  have isEnd : (eos.caches .keyValue).getEndIteratorByTableId ndebug tab =
      .ok entry.2 := by
    simp only [IteratorCache.getEndIteratorByTableId, cached]
  rw [bind_apply_of_ok _ (get_apply eos), isEnd]
  rfl

/-- `db_next_i64` looks at the row behind that of the iterator. -/
theorem Denotes.dbNextI64_eq (denotes : Denotes eos iterator row)
    (navigable : Navigable eos used)
    (neighbours : Neighbours (eos.db.rows .keyValue) front row back)
    (cached : (eos.caches .keyValue).tableCache[row.tId]? = some entry) :
    dbNextI64 ndebug iterator primary eos =
      match back.head? with
      | some next =>
          if next.tId ≠ row.tId then .ok (entry.2, primary) eos
          else .ok (((eos.caches .keyValue).add
            (eos.place .keyValue next.id)).1, next.primaryKey)
              (eos.withObject next.id)
      | none => .ok (entry.2, primary) eos := by
  have got : EosDb.getObject ndebug .keyValue iterator eos = .ok row eos :=
    denotes.getObject navigable
  have notEnd : ¬ iterator < -1 := by
    obtain ⟨_, position, isPosition, _⟩ := denotes
    omega
  have looks : indices .keyValue eos = _ :=
    indices_apply navigable.ready .keyValue
  have program : dbNextI64 ndebug iterator primary eos = _ :=
    (congrFun (if_neg notEnd) eos).trans
      ((bind_apply_of_ok _ got).trans (bind_apply_of_ok _ looks))
  rw [program, neighbours.iteratorTo, neighbours.next_row]
  cases back.head? with
  | none => exact getEnd_apply cached
  | some next =>
      by_cases inTable : next.tId ≠ row.tId
      · simp only [if_pos inTable]
        exact getEnd_apply cached
      · simp only [if_neg inTable]
        rfl

variable {code : Name} {scope : Sha256} {table : Name} {tab : TableIdObject}

theorem dbEndI64_eq (navigable : Navigable eos used)
    (named : eos.tableNamed (code, scope, table) = some tab) :
    dbEndI64 code scope table eos =
      .ok ((eos.caches .keyValue).cacheTable tab.id
        (eos.place .tableId tab.id)).1 (eos.withTable tab.id) := by
  have looks : findTable code scope table eos = _ :=
    findTable_apply navigable.ready code scope table
  have isNamed : (eos.db.rows .tableId).findBy TableIdObject.codeScopeTable
      (code, scope, table) = some tab := named
  rw [dbEndI64, bind_apply_of_ok _ looks, isNamed]
  rfl

/-- A table that is cached keeps its end iterator. -/
theorem dbEndI64_of_cached (navigable : Navigable eos used)
    (named : eos.tableNamed (code, scope, table) = some tab)
    (cached : (eos.caches .keyValue).tableCache[tab.id]? = some entry) :
    ∃ final, dbEndI64 code scope table eos = .ok entry.2 final := by
  refine ⟨eos.withTable tab.id, ?_⟩
  rw [dbEndI64_eq navigable named]
  simp only [IteratorCache.cacheTable, cached]

/-- From a row on, `db_next_i64` visits the rows of its table. -/
theorem visitsNext_of_denotes
    (navigable : Navigable eos used) (denotes : Denotes eos iterator row)
    (neighbours : Neighbours (eos.db.rows .keyValue) front row back)
    (named : eos.tableNamed (code, scope, table) = some tab)
    (inTable : row.tId = tab.id)
    (cached : (eos.caches .keyValue).tableCache[tab.id]? = some entry)
    (few : eos.walkedSize tab.id ≤ 2 ^ 31) :
    VisitsNext ndebug code scope table eos iterator
      (row :: back.takeWhile (ofTable tab.id)) := by
  induction back generalizing eos iterator row front with
  | nil =>
      refine ⟨denotes.getObject navigable, fun primary => ?_⟩
      rw [← inTable] at cached
      refine ⟨entry.2, eos, denotes.dbNextI64_eq navigable neighbours cached, ?_⟩
      rw [inTable] at cached
      exact dbEndI64_of_cached navigable named cached
  | cons next back inductionHypothesis =>
      refine ⟨denotes.getObject navigable, fun primary => ?_⟩
      have cachedRow := cached
      rw [← inTable] at cachedRow
      have steps : dbNextI64 ndebug iterator primary eos = _ :=
        denotes.dbNextI64_eq navigable neighbours cachedRow
      by_cases nextInTable : next.tId = tab.id
      · have found := neighbours.next.found
        have isNext : ofTable tab.id next = true :=
          ofTable_iff.mpr nextInTable
        rw [List.takeWhile_cons_of_pos isNext]
        rw [← nextInTable] at few
        have stillFew :=
          (navigable.walkedSize_withObject found).trans few
        refine ⟨_, _, steps.trans (if_neg (not_not.mpr
          (nextInTable.trans inTable.symm))), ?_⟩
        have nextCached : (eos.caches .keyValue).tableCache[next.tId]? =
            some entry := by
          rw [nextInTable]
          exact cached
        apply inductionHypothesis (navigable.rowAdded found nextCached)
          (navigable.denotes_added found few) neighbours.next named
          nextInTable
        · rw [withObject_tableCache]
          exact cached
        · rwa [nextInTable] at stillFew
      · have notNext : ¬ ofTable tab.id next = true :=
          fun isNext => nextInTable (ofTable_iff.mp isNext)
        rw [List.takeWhile_cons_of_neg notNext]
        refine ⟨_, _, steps.trans (if_pos ?_), ?_⟩
        · rw [inTable]
          exact nextInTable
        · exact dbEndI64_of_cached navigable named cached

end Next

/-! ## Backwards -/

section Previous

variable {primary : UInt64} {front back : List KeyValueObject} {tab : Int64}

/-- `db_previous_i64` looks at the row before that of the iterator. -/
theorem Denotes.dbPreviousI64_eq (denotes : Denotes eos iterator row)
    (navigable : Navigable eos used)
    (neighbours : Neighbours (eos.db.rows .keyValue) front row back) :
    dbPreviousI64 ndebug iterator primary eos =
      stepBack (byScopePrimary (eos.db.rows .keyValue)) front.length row.tId
        primary eos := by
  have got : EosDb.getObject ndebug .keyValue iterator eos = .ok row eos :=
    denotes.getObject navigable
  have notEnd : ¬ iterator < -1 := by
    obtain ⟨_, position, isPosition, _⟩ := denotes
    omega
  have looks : indices .keyValue eos = _ :=
    indices_apply navigable.ready .keyValue
  have program : dbPreviousI64 ndebug iterator primary eos = _ :=
    (bind_apply_of_ok _ looks).trans
      ((congrFun (if_neg notEnd) eos).trans (bind_apply_of_ok _ got))
  rw [program, neighbours.iteratorTo]

/-- The end iterator of a table leads to the address that is cached with it. -/
theorem Navigable.findTableByEndIterator_eq (navigable : Navigable eos used)
    (cached : (eos.caches .keyValue).tableCache[tab]? = some entry)
    (few : (eos.caches .keyValue).endIteratorToTable.length < 2 ^ 31 - 1) :
    entry.2 < -1 ∧
      (eos.caches .keyValue).findTableByEndIterator ndebug entry.2 =
        .ok (some entry.1) := by
  obtain ⟨index, isIndex, isAddress⟩ :=
    navigable.charted.entry (by omega) cached
  have inside := (List.getElem?_eq_some_iff.mp isAddress).1
  have before : entry.2 < -1 := by omega
  have isNat : (-entry.2 - 2).toNat = index := by omega
  refine ⟨before, ?_⟩
  rw [IteratorCache.findTableByEndIterator, if_pos before,
    IteratorCache.endIteratorToIndex, if_neg (by omega), isNat]
  exact congrArg Except.ok isAddress

/-- The address that is cached with a stored table is that of the table. -/
theorem Navigable.objectAt_cached {tableObj : TableIdObject}
    (navigable : Navigable eos used)
    (hasTable : (eos.db.rows .tableId).rows[tab]? = some tableObj)
    (cached : (eos.caches .keyValue).tableCache[tab]? = some entry) :
    objectAt .tableId entry.1 eos = .ok tableObj eos := by
  have isPlace : eos.place .tableId tab = entry.1 :=
    (navigable.cache.tables tab entry cached).2 (by
      rw [hasTable]
      exact Option.some_ne_none tableObj)
  exact objectAt_of_row navigable.ready navigable.tablesApart hasTable isPlace

/-- From an end iterator, `db_previous_i64` looks at the last row of the
table. -/
theorem Navigable.dbPreviousI64_end {tableObj : TableIdObject}
    (navigable : Navigable eos used)
    (hasTable : (eos.db.rows .tableId).rows[tab]? = some tableObj)
    (cached : (eos.caches .keyValue).tableCache[tab]? = some entry)
    (few : (eos.caches .keyValue).endIteratorToTable.length < 2 ^ 31 - 1) :
    entry.2 < -1 ∧ dbPreviousI64 ndebug entry.2 primary eos =
      stepBack (byScopePrimary (eos.db.rows .keyValue))
        (OrderedIndex.tableUpperBound (byScopePrimary (eos.db.rows .keyValue))
          tab) tab primary eos := by
  obtain ⟨before, locates⟩ : entry.2 < -1 ∧
      (eos.caches .keyValue).findTableByEndIterator ndebug entry.2 = _ :=
    navigable.findTableByEndIterator_eq cached few
  have follows := navigable.objectAt_cached hasTable cached
  have isId : tableObj.id = tab := (eos.db.rows .tableId).keyed hasTable
  have looks : indices .keyValue eos = _ :=
    indices_apply navigable.ready .keyValue
  refine ⟨before, ?_⟩
  rw [dbPreviousI64, bind_apply_of_ok _ looks]
  simp only [if_pos before]
  rw [bind_apply_of_ok _ (get_apply eos), locates]
  refine (bind_apply_of_ok _ rfl).trans ?_
  dsimp only
  split
  · rename_i isEmpty
    rw [List.isEmpty_iff.mp isEmpty]
    rfl
  · refine (bind_apply_of_ok _ follows).trans ?_
    rw [isId]

/-- Behind a position, `db_previous_i64` visits the rows of the table. -/
theorem visitsPrevious_of_stepBack
    (navigable : Navigable eos used)
    (split : byScopePrimary (eos.db.rows .keyValue) = front.reverse ++ back)
    (cached : (eos.caches .keyValue).tableCache[tab]? = some entry)
    (few : eos.walkedSize tab ≤ 2 ^ 31)
    (program : ∀ primary, dbPreviousI64 ndebug iterator primary eos =
      stepBack (byScopePrimary (eos.db.rows .keyValue)) front.length tab
        primary eos) :
    VisitsPrevious ndebug eos iterator (front.takeWhile (ofTable tab)) := by
  induction front generalizing eos iterator back with
  | nil => exact fun primary => ⟨eos, program primary⟩
  | cons previous front inductionHypothesis =>
      rw [List.reverse_cons, List.append_assoc, List.singleton_append] at split
      have neighbours := neighbours_of_split split
      have isPrevious : (byScopePrimary (eos.db.rows .keyValue))[
          front.length]? = some previous := by
        rw [split, List.getElem?_append_right (by simp), List.length_reverse,
          Nat.sub_self, List.getElem?_cons_zero]
      have steps : ∀ primary, dbPreviousI64 ndebug iterator primary eos =
          if previous.tId ≠ tab then .ok (-1, primary) eos
          else .ok (((eos.caches .keyValue).add
            (eos.place .keyValue previous.id)).1, previous.primaryKey)
              (eos.withObject previous.id) := by
        intro primary
        rw [program, List.length_cons]
        simp only [stepBack, isPrevious]
        split
        · rfl
        · rfl
      by_cases inTable : previous.tId = tab
      · have isOfTable : ofTable tab previous = true := ofTable_iff.mpr inTable
        rw [List.takeWhile_cons_of_pos isOfTable]
        rw [← inTable] at few
        have stillFew :=
          (navigable.walkedSize_withObject neighbours.found).trans few
        have cachedRow : (eos.caches .keyValue).tableCache[previous.tId]? =
            some entry := by
          rw [inTable]
          exact cached
        have added := navigable.rowAdded neighbours.found cachedRow
        have denotes := navigable.denotes_added neighbours.found few
        intro primary
        refine ⟨_, _, (steps primary).trans (if_neg (not_not.mpr inTable)),
          denotes.getObject added, ?_⟩
        apply inductionHypothesis added split
        · rw [withObject_tableCache]
          exact cached
        · rwa [inTable] at stillFew
        · intro primary
          rw [denotes.dbPreviousI64_eq added neighbours, List.length_reverse,
            inTable]
      · have notOfTable : ¬ ofTable tab previous = true :=
          fun isOfTable => inTable (ofTable_iff.mp isOfTable)
        rw [List.takeWhile_cons_of_neg notOfTable]
        exact fun primary => ⟨eos, (steps primary).trans (if_pos inTable)⟩

end Previous

/-! ## Bounds -/

/-- The iterator is that of the first of the rows, or the end iterator of the
table if there are none. -/
def StandsAt (eos : EosDb) (tab : Int64) (iterator : Int) :
    List KeyValueObject → Prop
  | [] => ∃ address, (eos.caches .keyValue).tableCache[tab]? =
      some (address, iterator)
  | row :: _ => Denotes eos iterator row

theorem StandsAt.grown {tab : Int64} {rows : List KeyValueObject}
    (stands : StandsAt eos tab iterator rows) (grown : Grown eos final) :
    StandsAt final tab iterator rows := by
  cases rows with
  | nil =>
      obtain ⟨address, cached⟩ := stands
      exact ⟨address, grown.tables tab (address, iterator) cached⟩
  | cons row rest => exact Denotes.grown stands grown

section Bounds

variable {code : Name} {scope : Sha256} {table : Name} {id : UInt64}
  {tab : TableIdObject} {above : UInt64 → Prop} [DecidablePred above]
  {bound : List KeyValueObject → Int64 × UInt64 → Nat}

theorem rowAtBound_eq (navigable : Navigable eos used)
    (named : eos.tableNamed (code, scope, table) = some tab)
    (isBound : ∀ idx, bound idx (tab.id, id) =
      idx.findIdx (Beyond tab.id above)) :
    rowAtBound bound code scope table id eos =
      match (byScopePrimary (eos.db.rows .keyValue))[
        (byScopePrimary (eos.db.rows .keyValue)).findIdx
          (Beyond tab.id above)]? with
      | none => dbEndI64 code scope table eos
      | some row =>
          if row.tId ≠ tab.id then dbEndI64 code scope table eos
          else addObject .keyValue row.id (eos.withTable tab.id) := by
  have looks : findTable code scope table eos = _ :=
    findTable_apply navigable.ready code scope table
  have isNamed : (eos.db.rows .tableId).findBy TableIdObject.codeScopeTable
      (code, scope, table) = some tab := named
  have stillReady : (eos.withTable tab.id).db.Ready := navigable.ready
  have reads : indices .keyValue (eos.withTable tab.id) =
      .ok (eos.db.rows .keyValue) (eos.withTable tab.id) :=
    indices_apply stillReady .keyValue
  rw [dbEndI64_eq navigable named, rowAtBound, bind_apply_of_ok _ looks,
    isNamed]
  refine (bind_apply_of_ok _ (cacheTable_apply tab.id)).trans ?_
  refine (bind_apply_of_ok _ reads).trans ?_
  simp only [isBound]
  cases (byScopePrimary (eos.db.rows .keyValue))[
      (byScopePrimary (eos.db.rows .keyValue)).findIdx
        (Beyond tab.id above)]? with
  | none => rfl
  | some row =>
      by_cases inTable : row.tId ≠ tab.id
      · simp only [if_pos inTable]
        rfl
      · simp only [if_neg inTable]

/-- The first row of the range gets an iterator; for an empty range the end
iterator is returned. -/
theorem rowAtBound_cases (navigable : Navigable eos used)
    (named : eos.tableNamed (code, scope, table) = some tab)
    (isBound : ∀ idx, bound idx (tab.id, id) =
      idx.findIdx (Beyond tab.id above))
    (rising : ∀ {left right : UInt64}, left ≤ right → above left →
      above right) :
    (∃ front row back,
      Neighbours (eos.db.rows .keyValue) front row back ∧ row.tId = tab.id ∧
      ListsRows (eos.db.rows .keyValue) tab.id above
        (row :: back.takeWhile (ofTable tab.id)) ∧
      rowAtBound bound code scope table id eos =
        addObject .keyValue row.id (eos.withTable tab.id)) ∨
    ListsRows (eos.db.rows .keyValue) tab.id above [] ∧
      rowAtBound bound code scope table id eos =
        dbEndI64 code scope table eos := by
  have program : rowAtBound bound code scope table id eos = _ :=
    rowAtBound_eq navigable named isBound
  by_cases hit : ∃ row, (byScopePrimary (eos.db.rows .keyValue))[
      (byScopePrimary (eos.db.rows .keyValue)).findIdx
        (Beyond tab.id above)]? = some row ∧ row.tId = tab.id
  · obtain ⟨row, isHit, inTable⟩ := hit
    obtain ⟨front, back, neighbours, lists⟩ :=
      row_at_bound rising isHit inTable
    simp only [isHit, inTable, ne_eq, not_true_eq_false, if_false] at program
    exact Or.inl ⟨front, row, back, neighbours, inTable, lists, program⟩
  · have notInTable : ∀ next, (byScopePrimary (eos.db.rows .keyValue))[
        (byScopePrimary (eos.db.rows .keyValue)).findIdx
          (Beyond tab.id above)]? = some next → next.tId ≠ tab.id :=
      fun next isHit inTable => hit ⟨next, isHit, inTable⟩
    refine Or.inr ⟨no_row_at_bound notInTable, program.trans ?_⟩
    split
    · rfl
    · rename_i next isHit
      exact if_pos (notInTable next isHit)

/-- What a bound leads to. -/
theorem rowAtBound_stands (navigable : Navigable eos used)
    (named : eos.tableNamed (code, scope, table) = some tab)
    (isBound : ∀ idx, bound idx (tab.id, id) =
      idx.findIdx (Beyond tab.id above))
    (rising : ∀ {left right : UInt64}, left ≤ right → above left → above right)
    (few : eos.walkedSize tab.id ≤ 2 ^ 31) :
    ∃ rows first started,
      ListsRows (eos.db.rows .keyValue) tab.id above rows ∧
      rowAtBound bound code scope table id eos = .ok first started ∧
      Navigable started used ∧ Grown eos started ∧
      StandsAt started tab.id first rows ∧
      started.walkedSize tab.id ≤ eos.walkedSize tab.id := by
  have stored := stored_of_tableNamed named
  have isCached := navigable.tableCached stored
  obtain ⟨tableAddress, cached⟩ := eos.withTable_cached tab.id
  rcases rowAtBound_cases navigable named isBound rising with
    ⟨front, row, back, neighbours, inTable, lists, program⟩ | ⟨lists, program⟩
  · have added := isCached.walkedSize_withObject neighbours.found
    rw [inTable, walkedSize_withTable] at added
    refine ⟨_, _, _, lists, program.trans (addObject_apply row.id),
      navigable.rowOfTableAdded stored neighbours.found inTable, ?_, ?_, added⟩
    · exact (eos.grown_withTable tab.id).trans
        ((eos.withTable tab.id).grown_withObject row.id)
    · apply isCached.denotes_added neighbours.found
      rw [inTable, walkedSize_withTable]
      exact few
  · refine ⟨_, _, _, lists, program.trans (dbEndI64_eq navigable named),
      isCached, eos.grown_withTable tab.id, ⟨tableAddress, cached⟩, ?_⟩
    rw [walkedSize_withTable]

/-- Another call with the same bound leads to the same iterator. -/
theorem rowAtBound_again {rows : List KeyValueObject}
    (navigable : Navigable eos used)
    (named : eos.tableNamed (code, scope, table) = some tab)
    (isBound : ∀ idx, bound idx (tab.id, id) =
      idx.findIdx (Beyond tab.id above))
    (rising : ∀ {left right : UInt64}, left ≤ right → above left → above right)
    (lists : ListsRows (eos.db.rows .keyValue) tab.id above rows)
    (stands : StandsAt eos tab.id iterator rows) :
    ∃ final, rowAtBound bound code scope table id eos =
      .ok iterator final := by
  have stored := stored_of_tableNamed named
  have isCached := navigable.tableCached stored
  rcases rowAtBound_cases navigable named isBound rising with
    ⟨front, row, back, _, _, lists', program⟩ | ⟨lists', program⟩
  · rw [lists.unique lists'] at stands
    have denotes : Denotes (eos.withTable tab.id) iterator row :=
      Denotes.grown stands (eos.grown_withTable tab.id)
    exact ⟨_, program.trans (denotes.addObject isCached)⟩
  · rw [lists.unique lists'] at stands
    obtain ⟨address, cached⟩ := stands
    obtain ⟨final, isEnd⟩ := dbEndI64_of_cached navigable named cached
    exact ⟨final, program.trans isEnd⟩

end Bounds

/-! ## Whole walks -/

section Walks

variable {code : Name} {scope : Sha256} {table : Name} {id : UInt64}
  {tab : TableIdObject} {above : UInt64 → Prop}

theorem Denotes.cached (denotes : Denotes eos iterator row)
    (navigable : Navigable eos used) :
    ∃ entry, (eos.caches .keyValue).tableCache[row.tId]? = some entry := by
  have reads : Reads (EosDb.getObject false .keyValue iterator) eos _ :=
    navigable.reads_getObject
  obtain ⟨_, _, entry, _, _, _, cached⟩ :=
    reads.of_ok (denotes.getObject navigable)
  exact ⟨entry, cached⟩

/-- From where the iterator stands, `db_next_i64` visits the rows. -/
theorem StandsAt.visitsNext {rows : List KeyValueObject}
    (stands : StandsAt eos tab.id iterator rows)
    (navigable : Navigable eos used)
    (named : eos.tableNamed (code, scope, table) = some tab)
    (rising : ∀ {left right : UInt64}, left ≤ right → above left → above right)
    (lists : ListsRows (eos.db.rows .keyValue) tab.id above rows)
    (few : eos.walkedSize tab.id ≤ 2 ^ 31) :
    VisitsNext ndebug code scope table eos iterator rows := by
  cases rows with
  | nil =>
      obtain ⟨address, cached⟩ := stands
      exact dbEndI64_of_cached navigable named cached
  | cons row rest =>
      obtain ⟨found, inTable, _⟩ := (lists.exact row).mp List.mem_cons_self
      obtain ⟨front, back, neighbours⟩ := exists_neighbours found
      obtain ⟨entry, cached⟩ := Denotes.cached stands navigable
      have lists' := neighbours.listsRows_back
      rw [inTable] at cached lists'
      have same := (lists.from_first rising).unique lists'
      rw [same]
      exact visitsNext_of_denotes navigable stands neighbours named inTable
        cached few

/-- `db_next_i64` goes to the iterator that stands behind the row. -/
theorem Denotes.dbNextI64_to {front back : List KeyValueObject} {upper : Int}
    (denotes : Denotes eos iterator row) (navigable : Navigable eos used)
    (neighbours : Neighbours (eos.db.rows .keyValue) front row back)
    (stands : StandsAt eos row.tId upper (back.takeWhile (ofTable row.tId)))
    (primary : UInt64) :
    ∃ reported final, dbNextI64 ndebug iterator primary eos =
      .ok (upper, reported) final := by
  obtain ⟨entry, cached⟩ := denotes.cached navigable
  have steps : dbNextI64 ndebug iterator primary eos = _ :=
    denotes.dbNextI64_eq navigable neighbours cached
  have isEnd : StandsAt eos row.tId upper [] → entry.2 = upper := by
    rintro ⟨address, cached'⟩
    rw [cached] at cached'
    rw [Option.some.inj cached']
  cases back with
  | nil =>
      rw [← isEnd stands]
      exact ⟨_, _, steps⟩
  | cons next back =>
      by_cases inTable : next.tId = row.tId
      · rw [List.takeWhile_cons_of_pos (ofTable_iff.mpr inTable)] at stands
        have adds := Denotes.addObject stands navigable
        have isUpper : ((eos.caches .keyValue).add
            (eos.place .keyValue next.id)).1 = upper := by
          rw [addObject_apply] at adds
          injection adds
        rw [← isUpper]
        exact ⟨_, _, steps.trans (if_neg (not_not.mpr inTable))⟩
      · rw [List.takeWhile_cons_of_neg fun isNext =>
          inTable (ofTable_iff.mp isNext)] at stands
        rw [← isEnd stands]
        exact ⟨_, _, steps.trans (if_pos inTable)⟩

theorem dbFindI64_of_row (navigable : Navigable eos used)
    (named : eos.tableNamed (code, scope, table) = some tab)
    (found : (eos.db.rows .keyValue).rows[row.id]? = some row)
    (inTable : row.tId = tab.id) :
    dbFindI64 code scope table row.primaryKey eos =
      addObject .keyValue row.id (eos.withTable tab.id) := by
  have hit : (eos.db.rows .keyValue).findBy KeyValueObject.scopePrimary
      (tab.id, row.primaryKey) = some row :=
    MultiIndex.findBy_of_row
      (fun left right => (clash_keyValue_iff left right).mpr) found
      (Prod.ext inTable rfl)
  rw [dbFindI64_of_tableNamed navigable.ready named, hit]

/-- The entries of `keyval_cache` are no more than 2^31, also when every row of
the table has one, and fewer than 2^31 - 2 tables are cached. -/
structure Fits (eos : EosDb) (tab : Int64) : Prop where
  rows : eos.walkedSize tab ≤ 2 ^ 31
  tables : (eos.caches .keyValue).endIteratorToTable.length < 2 ^ 31 - 2

theorem fits_of_tableSize {tab : Int64}
    (rows : eos.keyvalEntries.length + eos.tableSize tab ≤ 2 ^ 31)
    (tables : (eos.caches .keyValue).endIteratorToTable.length < 2 ^ 31 - 2) :
    Fits eos tab :=
  ⟨(eos.walkedSize_le tab).trans rows, tables⟩

theorem traversal_lowerbound (navigable : Navigable eos used)
    (named : eos.tableNamed (code, scope, table) = some tab)
    (fits : Fits eos tab.id) (id : UInt64) :
    ∃ rows first started,
      ListsRows (eos.db.rows .keyValue) tab.id (fun key => id ≤ key) rows ∧
      dbLowerboundI64 code scope table id eos = .ok first started ∧
      VisitsNext ndebug code scope table started first rows := by
  have rising : ∀ {left right : UInt64}, left ≤ right → id ≤ left →
      id ≤ right := fun isLe isAbove => UInt64.le_trans isAbove isLe
  obtain ⟨rows, first, started, lists, ran, isNavigable, grown, stands, size⟩ :=
    rowAtBound_stands navigable named
      (fun idx => lowerBound_eq idx tab.id id) rising fits.rows
  refine ⟨rows, first, started, lists, ran, ?_⟩
  rw [← grown.db] at lists
  have namedThen : started.tableNamed (code, scope, table) = some tab := by
    rw [tableNamed, grown.db]
    exact named
  exact stands.visitsNext isNavigable namedThen rising lists
    (size.trans fits.rows)

theorem traversal_upperboundOfRow (navigable : Navigable eos used)
    (named : eos.tableNamed (code, scope, table) = some tab)
    (fits : Fits eos tab.id)
    (found : (eos.db.rows .keyValue).rows[row.id]? = some row)
    (inTable : row.tId = tab.id) :
    ∃ upper reached iterator middle,
      dbUpperboundI64 code scope table row.primaryKey eos =
        .ok upper reached ∧
      dbFindI64 code scope table row.primaryKey reached =
        .ok iterator middle ∧
      ∀ primary, ∃ reported final,
        dbNextI64 ndebug iterator primary middle =
          .ok (upper, reported) final := by
  have rising : ∀ {left right : UInt64}, left ≤ right →
      row.primaryKey < left → row.primaryKey < right :=
    fun isLe isAbove => UInt64.lt_of_lt_of_le isAbove isLe
  obtain ⟨rows, upper, reached, lists, ran, isNavigable, grown, stands,
    size⟩ := rowAtBound_stands navigable named
      (fun idx => upperBound_eq idx tab.id row.primaryKey) rising fits.rows
  have namedThen : reached.tableNamed (code, scope, table) = some tab := by
    rw [tableNamed, grown.db]
    exact named
  have stored := stored_of_tableNamed namedThen
  rw [← grown.db] at found lists
  obtain ⟨front, back, neighbours⟩ := exists_neighbours found
  have fromRow := neighbours.listsRows_back
  rw [inTable] at fromRow
  have same : rows = back.takeWhile (ofTable tab.id) :=
    lists.unique fromRow.behind_first
  have denotes := (isNavigable.tableCached stored).denotes_added found (by
    rw [inTable, walkedSize_withTable]
    exact size.trans fits.rows)
  refine ⟨upper, reached, _, _, ran,
    (dbFindI64_of_row isNavigable namedThen found inTable).trans
      (addObject_apply row.id), ?_⟩
  apply denotes.dbNextI64_to
    (isNavigable.rowOfTableAdded stored found inTable) neighbours
  rw [inTable, ← same]
  exact stands.grown ((reached.grown_withTable tab.id).trans
    ((reached.withTable tab.id).grown_withObject row.id))

theorem traversal_upperboundOfGap (navigable : Navigable eos used)
    (named : eos.tableNamed (code, scope, table) = some tab)
    (fits : Fits eos tab.id)
    (isGap : ∀ row : KeyValueObject,
      (eos.db.rows .keyValue).rows[row.id]? = some row → row.tId = tab.id →
        row.primaryKey ≠ id) :
    ∃ upper reached final,
      dbUpperboundI64 code scope table id eos = .ok upper reached ∧
      dbLowerboundI64 code scope table id reached = .ok upper final := by
  obtain ⟨rows, upper, reached, lists, ran, isNavigable, grown, stands, _⟩ :=
    rowAtBound_stands navigable named
      (fun idx => upperBound_eq idx tab.id id)
      (fun isLe isAbove => UInt64.lt_of_lt_of_le isAbove isLe) fits.rows
  have namedThen : reached.tableNamed (code, scope, table) = some tab := by
    rw [tableNamed, grown.db]
    exact named
  -- without a row at the key both ranges are the same
  have fromKey : ListsRows (eos.db.rows .keyValue) tab.id
      (fun key => id ≤ key) rows := by
    apply lists.congr
    intro row found inTable
    constructor
    · exact UInt64.le_of_lt
    · intro isAbove
      exact UInt64.lt_of_le_of_ne isAbove (isGap row found inTable).symm
  rw [← grown.db] at fromKey
  obtain ⟨final, ranAgain⟩ := rowAtBound_again isNavigable namedThen
    (fun idx => lowerBound_eq idx tab.id id)
    (fun isLe isAbove => UInt64.le_trans isAbove isLe) fromKey stands
  exact ⟨upper, reached, final, ran, ranAgain⟩

theorem traversal_fromEnd (navigable : Navigable eos used)
    (named : eos.tableNamed (code, scope, table) = some tab)
    (fits : Fits eos tab.id) :
    ∃ rows tableEnd reached,
      ListsRows (eos.db.rows .keyValue) tab.id (fun _ => True) rows ∧
      dbEndI64 code scope table eos = .ok tableEnd reached ∧
      VisitsPrevious ndebug reached tableEnd rows.reverse := by
  have hasTable := (row_of_tableNamed named).1
  have stored := stored_of_tableNamed named
  have isCached := navigable.tableCached stored
  obtain ⟨tableAddress, cached⟩ := eos.withTable_cached tab.id
  obtain ⟨front, back, split, isLength, upTo, lists⟩ :=
    split_at_tableUpperBound (eos.db.rows .keyValue) tab.id
  have sorted := pairwise_byScopePrimary (eos.db.rows .keyValue)
  rw [split] at sorted
  have visited := takeWhile_reverse (List.pairwise_append.mp sorted).1 upTo
  refine ⟨_, _, _, lists, dbEndI64_eq navigable named, ?_⟩
  rw [← visited]
  apply visitsPrevious_of_stepBack isCached (by
    rw [List.reverse_reverse]
    exact split) cached
  · rw [walkedSize_withTable]
    exact fits.rows
  · intro primary
    have fewTables : ((eos.withTable tab.id).caches
        .keyValue).endIteratorToTable.length < 2 ^ 31 - 1 := by
      have before := fits.tables
      rw [withTable_cache, IteratorCache.cacheTable_endIteratorToTable]
      split
      · rw [List.length_append, List.length_singleton]
        omega
      · omega
    rw [(isCached.dbPreviousI64_end hasTable cached fewTables).2,
      List.length_reverse, isLength]
    rfl

theorem traversal_fromIterator (navigable : Navigable eos used)
    (named : eos.tableNamed (code, scope, table) = some tab)
    (fits : Fits eos tab.id)
    (got : getObject ndebug .keyValue iterator eos = .ok row eos)
    (inTable : row.tId = tab.id) :
    ∃ behind before,
      ListsRows (eos.db.rows .keyValue) tab.id
        (fun key => row.primaryKey ≤ key) behind ∧
      VisitsNext ndebug code scope table eos iterator behind ∧
      ListsRows (eos.db.rows .keyValue) tab.id
        (fun key => key < row.primaryKey) before ∧
      VisitsPrevious ndebug eos iterator before.reverse := by
  have reads : Reads (EosDb.getObject ndebug .keyValue iterator) eos _ :=
    navigable.reads_getObject
  obtain ⟨_, position, entry, isPosition, live, found, cached⟩ :=
    reads.of_ok got
  have inside := (List.getElem?_eq_some_iff.mp live).1
  have bound := fits.rows
  unfold walkedSize at bound
  have denotes : Denotes eos iterator row :=
    ⟨found, position, isPosition, by omega, live⟩
  obtain ⟨front, back, neighbours⟩ := exists_neighbours found
  have behind := neighbours.listsRows_back
  have before := neighbours.listsRows_front
  have upTo : ∀ other ∈ front, other.tId.toInt ≤ row.tId.toInt := by
    intro other member
    have isLess := neighbours.before other member
    rw [scopePrimaryLess_iff] at isLess
    simp only [KeyValueObject.scopePrimary] at isLess
    omega
  have visited := takeWhile_reverse
    (List.pairwise_append.mp neighbours.sorted).1 upTo
  rw [inTable] at behind before visited cached
  refine ⟨_, _, behind, ?_, before, ?_⟩
  · exact visitsNext_of_denotes navigable denotes neighbours named inTable
      cached fits.rows
  · rw [← visited]
    apply visitsPrevious_of_stepBack navigable (by
      rw [List.reverse_reverse]
      exact neighbours.split) cached fits.rows
    · intro primary
      rw [denotes.dbPreviousI64_eq navigable neighbours, List.length_reverse,
        inTable]

theorem Navigable.orderedTraversal (navigable : Navigable eos used)
    (named : eos.tableNamed (code, scope, table) = some tab)
    (fits : Fits eos tab.id) :
    OrderedTraversal ndebug code scope table eos tab.id where
  lowerbound := traversal_lowerbound navigable named fits
  upperboundOfRow := by
    rintro _ row found inTable rfl
    exact traversal_upperboundOfRow navigable named fits found inTable
  upperboundOfGap := fun _ => traversal_upperboundOfGap navigable named fits
  fromEnd := traversal_fromEnd navigable named fits
  fromIterator := fun _ _ => traversal_fromIterator navigable named fits

end Walks

end EosDb

end StateDatabase
